import ExprLang.Proofs.Grammar.Completeness
import ExprLang.Proofs.Grammar.Soundness
import ExprLang.Proofs.Scanning.Value

/-!
# `Proofs.Grammar.Parsing` — source texts against the grammar

A source text is read without an error exactly if its tokens derive a tree, and the tree that is
read is the one that they derive. Soundness gives one direction and completeness the other; that a
derived tree is unique comes for free, since both trees are the one that is read.

## Contents
- `eq_tokensBeforeEnd`: what is taken off the stream of a text are its tokens.
- `Derives.noError`: no derived tree stands for a diagnostic.
- `read_program_eq_ok_iff`, `soleExpression_eq_ok_iff`: the streams of source texts.
- `parse_iff_derives`: programs and expressions.
-/

namespace ExprLang

open TokenStream Parse

/-! ## The tokens of a text -/

/-- The stream of nothing but the end of the input, at `p`. -/
def TokenStream.ended (p : Position) : TokenStream := ⟨[.endOfInput p], p⟩

theorem ofSource_eq_behind (source : String) :
    TokenStream.ofSource source =
      (ended (Scan.ofSource source).stop.position).behind (tokensBeforeEnd source) := by
  rw [tokensBeforeEnd_eq]
  rfl

/-- What is taken off the stream of a text up to the end of the input are all of its tokens. -/
theorem eq_tokensBeforeEnd {source : String} {w : List Token} {s : TokenStream}
    (h : TokenStream.ofSource source = s.behind w) (hw : ∀ t ∈ w, t.Proper)
    (hend : s.peek.kind = .eof) : w = tokensBeforeEnd source := by
  have htake : (s.behind w).pending.takeWhile (fun t => !t.is .eof) = w := by
    apply takeWhile_before_end (fun t ht => (hw t ht).1)
    intro t hhead
    have hpeek : s.peek = t := by simp [peek, hhead]
    rwa [hpeek] at hend
  rw [← h] at htake
  exact htake.symm

/-- A text whose tokens are all proper has no malformed piece. -/
theorem tokenize_kind_ne_error {source : String} (h : ∀ t ∈ tokensBeforeEnd source, t.Proper) :
    ∀ t ∈ tokenize source, t.kind ≠ .error := by
  intro t ht
  rw [tokenize_eq] at ht
  rcases List.mem_append.mp ht with hmem | hend
  · exact (h t hmem).2
  · obtain rfl := List.mem_singleton.mp hend
    simp [Token.endOfInput]

/-! ## Derived trees stand for no diagnostic -/

/-- No expression and no statement at the top of the tree stands for a diagnostic. -/
def Category.NoError : (c : Category) → c.Tree → Prop
  | layer _, e | expression _, e | block, e => e.isError = false
  | statement, st => st.isError = false
  | program, ss => ∀ s ∈ ss, s.isError = false
  | _, _ => True

theorem Derives.noError {c : Category} {w : List Token} {v : c.Tree} (h : Derives c w v) :
    c.NoError v := by
  induction h with
  | tighter _ _ ih | grouping _ _ _ ih | blockPrimary _ ih | plain _ ih => exact ih
  | atom h => cases h <;> rfl
  | @jump f _ _ t _ hf =>
      revert hf
      cases t.kind <;> intro hf <;> cases hf <;> rfl
  | programNil => exact List.forall_mem_nil _
  | programCons _ _ ih ihmore => exact List.forall_mem_cons.mpr ⟨ih, ihmore⟩
  | _ => first | rfl | trivial

/-! ## Uniqueness -/

/-- **A derived tree is unique**, whatever the category: it is the tree that is read when a token
    follows that does not go on with it. -/
theorem Derives.unique {c : Category} {w : List Token} {v v' : c.Tree} (h : Derives c w v)
    (h' : Derives c w v') : v = v' := by
  have hread := h.readAs
  have hread' := h'.readAs
  have hvalue : ∀ {α : Type} {r : Reply α} {a a' : α} {s s' : TokenStream},
      r = .ok a s → r = .ok a' s' → a = a' := by
    rintro α r a a' s s' rfl heq
    exact (Reply.ok.inj heq).1
  -- a stream that goes on with a single token
  let before (k : Kind) : TokenStream := ⟨[⟨k, "", .start⟩], .start⟩
  cases c with
  | layer l =>
      have hstops : ∀ least, standard.StopsAt least Kind.eof := fun _ => stopsAt_of_leftPower rfl
      have hl := hread l.leftPower false (before .eof) (Nat.le_refl _) (hstops _) (by decide)
      have hl' := hread' l.leftPower false (before .eof) (Nat.le_refl _) (hstops _) (by decide)
      rw [read_operators_of_stopsAt (hstops _)] at hl hl'
      exact hvalue hl hl'
  | expression assignable =>
      have hends : Kind.eof.Ends := ⟨rfl, by decide⟩
      exact hvalue (hread 0 (before .eof) (by decide) hends)
        (hread' 0 (before .eof) (by decide) hends)
  | block => exact hvalue (hread (before .eof)) (hread' (before .eof))
  | body => exact hvalue (hread (before .closeCurly) rfl) (hread' (before .closeCurly) rfl)
  | arguments => exact hvalue (hread (before .closeParen) rfl) (hread' (before .closeParen) rfl)
  | statement => exact hvalue (hread (before .eof)) (hread' (before .eof))
  | value =>
      exact hvalue (hread (.endOfInput .start) (before .semicolon) rfl)
        (hread' (.endOfInput .start) (before .semicolon) rfl)
  | parameter =>
      have hends : Kind.eof.Ends := ⟨rfl, by decide⟩
      exact hvalue (hread (before .eof) hends (by decide)) (hread' (before .eof) hends (by decide))
  | default =>
      have hends : Kind.eof.Ends := ⟨rfl, by decide⟩
      exact hvalue (hread (before .eof) hends) (hread' (before .eof) hends)
  | parameters => exact hvalue (hread (before .closeParen) rfl) (hread' (before .closeParen) rfl)
  | program => exact hvalue (hread (before .eof) rfl) (hread' (before .eof) rfl)

/-! ## Source texts -/

section

variable {source : String}

/-- The statements of a text are read from its stream exactly if its tokens derive them. -/
theorem read_program_ofSource_iff {ss : List Statement} :
    (∃ s', standard.read .program (.ofSource source) = .ok ss s') ↔
      Derives .program (tokensBeforeEnd source) ss := by
  constructor
  · rintro ⟨s', h⟩
    obtain ⟨hend, w, hw, hderives⟩ := standard_read_sound _ h
    rwa [← eq_tokensBeforeEnd hw hderives.proper hend]
  · intro h
    rw [ofSource_eq_behind]
    exact ⟨_, h.readAs (ended _) rfl⟩

theorem soleExpression_eq_ok {assignable : Bool} {e : Expr} {s s' : TokenStream} :
    standard.soleExpression assignable s = .ok e s' ↔
      standard.read (.expr 0 assignable) s = .ok e s' ∧ s'.peek.kind = .eof := by
  simp only [Table.soleExpression, bind_eq_ok, kind_bind, ite_eq_ok]
  constructor
  · rintro ⟨e₁, s₁, h₁, ⟨hend, hpure⟩ | ⟨-, hreject⟩⟩
    · cases hpure
      exact ⟨h₁, hend⟩
    · cases hreject
  · rintro ⟨h, hend⟩
    exact ⟨e, s', h, Or.inl ⟨hend, rfl⟩⟩

theorem soleExpression_ofSource_iff {assignable : Bool} {e : Expr} :
    (∃ s', standard.soleExpression assignable (.ofSource source) = .ok e s') ↔
      Derives (.expression assignable) (tokensBeforeEnd source) e := by
  constructor
  · rintro ⟨s', h⟩
    obtain ⟨h, hend⟩ := soleExpression_eq_ok.mp h
    obtain ⟨w, hw, hderives⟩ := standard_read_sound.expression h
    rwa [← eq_tokensBeforeEnd hw hderives.proper hend]
  · intro h
    rw [ofSource_eq_behind]
    have hends : Kind.eof.Ends := ⟨rfl, by decide⟩
    have hread := h.readAs 0 (ended (Scan.ofSource source).stop.position) (by decide) hends
    exact ⟨_, soleExpression_eq_ok.mpr ⟨hread, rfl⟩⟩

/-- What is read without a diagnostic was a value to begin with. -/
theorem result_eq_ok_iff {α : Type} {r : Reply α} {onError : Diagnostic → α} {a : α}
    (ha : ∀ d, onError d ≠ a) : r.result onError = .ok a ↔ ∃ s', r = .ok a s' := by
  cases r with
  | ok v s => simp [Reply.result]
  | error d s => simp [Reply.result, ha]
  | halt cause => simp [Reply.result]

/-- What was no value to begin with was made of a diagnostic. -/
theorem exists_of_result_eq_ok {α : Type} {r : Reply α} {onError : Diagnostic → α} {a : α}
    (h : r.result onError = .ok a) (hne : ∀ s', r ≠ .ok a s') :
    ∃ d s', r = .error d s' ∧ onError d = a := by
  cases r with
  | ok v s => exact absurd (congrArg (Reply.ok · s) (Except.ok.inj h)) (hne s)
  | error d s => exact ⟨d, s, rfl, Except.ok.inj h⟩
  | halt cause => cases h

/-- A program that is read without an error is derived. -/
theorem derives_of_parseProgram {ss : List Statement} (h : parseProgram source = .ok ss)
    (hnoError : ∀ s ∈ ss, s.isError = false) : Derives .program (tokensBeforeEnd source) ss := by
  have hne : ∀ d : Diagnostic, [Statement.error d] ≠ ss := by
    rintro d rfl
    cases hnoError _ (List.mem_singleton_self _)
  exact read_program_ofSource_iff.mp ((result_eq_ok_iff hne).mp h)

/-- An expression that is read without an error is derived. -/
theorem derives_of_parseExpression {assignable : Bool} {e : Expr}
    (h : parseExpression source assignable = .ok e) (hnoError : e.isError = false) :
    Derives (.expression assignable) (tokensBeforeEnd source) e := by
  have hne : ∀ d : Diagnostic, Expr.error d ≠ e := by
    rintro d rfl
    cases hnoError
  exact soleExpression_ofSource_iff.mp ((result_eq_ok_iff hne).mp h)

theorem parseProgram_of_derives {ss : List Statement}
    (h : Derives .program (tokensBeforeEnd source) ss) : parseProgram source = .ok ss := by
  obtain ⟨s', hread⟩ := read_program_ofSource_iff.mpr h
  rw [parseProgram, hread]
  rfl

theorem parseExpression_of_derives {assignable : Bool} {e : Expr}
    (h : Derives (.expression assignable) (tokensBeforeEnd source) e) :
    parseExpression source assignable = .ok e := by
  obtain ⟨s', hread⟩ := soleExpression_ofSource_iff.mpr h
  rw [parseExpression, hread]
  rfl

end

/-- Every float and every character has a value, and every integer that fits into 64 bits. -/
theorem literal_atom {source : String} {t : Token} (ht : t ∈ tokensBeforeEnd source) :
    (t.kind = .float ∨ t.kind = .char → ∃ e, Atom t e) ∧
      (t.kind = .int →
        ((∃ e, Atom t e) ↔ Numeral.natural t.value.toList ≤ 9223372036854775807)) := by
  rw [tokensBeforeEnd_eq] at ht
  have hlexeme : t.kind ≠ .error → ∃ rest, Lexeme t.kind t.value.toList rest :=
    (scans_scan .start source.toList).lexeme t ht
  refine ⟨?_, fun hk => ?_⟩
  · rintro (hk | hk)
    · obtain ⟨rest, h⟩ := hlexeme (by simp [hk])
      obtain ⟨x, hx⟩ := h.binary64? hk
      rw [String.ofList_toList] at hx
      exact ⟨.float x, .float hk hx⟩
    · obtain ⟨rest, h⟩ := hlexeme (by simp [hk])
      obtain ⟨c, hc⟩ := h.charValue? hk
      rw [String.ofList_toList] at hc
      exact ⟨.char c, .char hk hc⟩
  · obtain ⟨rest, h⟩ := hlexeme (by simp [hk])
    have hinteger := h.integer? hk
    rw [String.ofList_toList] at hinteger
    constructor
    · rintro ⟨e, ha⟩
      cases ha with
      | int _ hn => exact ((hinteger _).mp hn).2
      | name ht | float ht | char ht | string ht | true ht | false ht | null ht =>
          rw [hk] at ht
          cases ht
    · intro hle
      exact ⟨.int _, .int hk ((hinteger _).mpr ⟨rfl, hle⟩)⟩

/-- **Reading is the grammar.** A text is read as a program, or as an expression that may or may not
    be an assignment, exactly if none of its tokens is malformed and they derive the tree that is
    read; and they derive no other. Among the literals, only an integer can be without a value. -/
theorem parse_iff_derives (source : String) :
    (∀ ss : List Statement,
      (parseProgram source = .ok ss ∧ ∀ s ∈ ss, s.isError = false) ↔
        (∀ t ∈ tokenize source, t.kind ≠ .error) ∧
          Derives .program (tokensBeforeEnd source) ss) ∧
    (∀ (assignable : Bool) (e : Expr),
      (parseExpression source assignable = .ok e ∧ e.isError = false) ↔
        (∀ t ∈ tokenize source, t.kind ≠ .error) ∧
          Derives (.expression assignable) (tokensBeforeEnd source) e) ∧
    (∀ (c : Category) (w : List Token) (v v' : c.Tree),
      Derives c w v → Derives c w v' → v = v') ∧
    (∀ t ∈ tokensBeforeEnd source,
      (t.kind = .float ∨ t.kind = .char → ∃ e, Atom t e) ∧
      (t.kind = .int →
        ((∃ e, Atom t e) ↔ Numeral.natural t.value.toList ≤ 9223372036854775807))) := by
  refine ⟨fun ss => ?_, fun assignable e => ?_, fun c w v v' h h' => h.unique h', ?_⟩
  · constructor
    · rintro ⟨h, hnoError⟩
      have hderives := derives_of_parseProgram h hnoError
      exact ⟨tokenize_kind_ne_error hderives.proper, hderives⟩
    · rintro ⟨-, hderives⟩
      exact ⟨parseProgram_of_derives hderives, hderives.noError⟩
  · constructor
    · rintro ⟨h, hnoError⟩
      have hderives := derives_of_parseExpression h hnoError
      exact ⟨tokenize_kind_ne_error hderives.proper, hderives⟩
    · rintro ⟨-, hderives⟩
      exact ⟨parseExpression_of_derives hderives, hderives.noError⟩
  · exact fun t ht => literal_atom ht

end ExprLang
