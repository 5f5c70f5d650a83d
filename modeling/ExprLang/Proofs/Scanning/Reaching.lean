import ExprLang.Proofs.Scanning.Malformed

/-!
# `Proofs.Scanning.Reaching` — where a scan fails, and why

A scan reaches every boundary between two pieces of a text, and fails at the first one where what
follows is malformed. `Reaches rest p before ts` is a scan up to such a boundary: from `p` on,
`before` is made of whole pieces, with the tokens `ts` among them, in front of `rest`. Of `rest` a
piece in front of it depends on the first character only, and on that only in what it must not be.
So the same pieces are found in front of anything that starts alike, and in front of nothing at all
(`Reaches.of_head`): no token depends on the malformed text behind it.

## Contents
- `Lexeme.of_head`, `Reaches`, `Reaches.of_head`: pieces in front of another rest.
- `Reaches.scans`, `Reaches.scans_fault`: a scan that goes on at a boundary, or fails there.
- `Scans.reaches_fault`, `reaches_of_error`: every failing scan is of this form.
- `errors_exact`: the malformed token of a source text.
-/

namespace ExprLang

/-! ## Pieces in front of another rest -/

section

variable {rest rest' : List Char} (hhead : ∀ c, rest'.head? = some c → rest.head? = some c)

include hhead

theorem not_headIs_of_head {p : Char → Bool} (h : ¬HeadIs p rest) : ¬HeadIs p rest' := by
  rintro ⟨c, hc, hp⟩
  exact h ⟨c, hhead c hc, hp⟩

/-- **A lexeme stays one** in front of a text that starts with the same character or is empty. -/
theorem Lexeme.of_head {k : Kind} {text : List Char} (h : Lexeme k text rest) :
    Lexeme k text rest' := by
  cases h with
  | word hc hu hrest => exact .word hc hu (not_headIs_of_head hhead hrest)
  | int hc hu hrest hpoint =>
      exact .int hc hu (not_headIs_of_head hhead hrest) fun hd => hpoint (hhead _ hd)
  | float hc hu hv hrest => exact .float hc hu hv (not_headIs_of_head hhead hrest)
  | char hc => exact .char hc
  | escape => exact .escape
  | string hu => exact .string hu
  | single hk hrest hcomment =>
      refine .single hk (fun d hd => hrest d (hhead d hd)) fun hc => ?_
      obtain ⟨hslash, hstar⟩ := hcomment hc
      exact ⟨fun hd => hslash (hhead _ hd), fun hd => hstar (hhead _ hd)⟩
  | pair hk => exact .pair hk

end

/-! ## Boundaries -/

/-- In front of `rest`, the text from `p` on is made of gaps and of the tokens `ts`. -/
inductive Reaches (rest : List Char) : Position → List Char → List Token → Prop where
  | here {p} : Reaches rest p [] []
  | blank {p c s ts} (hc : isBlank c = true) (h : Reaches rest (p.next c) s ts) :
      Reaches rest p (c :: s) ts
  | line {p u s ts} (hu : '\n' ∉ u)
      (h : Reaches rest (p.after ('/' :: '/' :: (u ++ ['\n']))) s ts) :
      Reaches rest p ('/' :: '/' :: (u ++ '\n' :: s)) ts
  | block {p u s ts} (hu : CommentBody u) (h : Reaches rest (p.after ('/' :: '*' :: u)) s ts) :
      Reaches rest p ('/' :: '*' :: (u ++ s)) ts
  | token {p k text s ts} (hk : Lexeme k text (s ++ rest)) (h : Reaches rest (p.after text) s ts) :
      Reaches rest p (text ++ s) (⟨k, String.ofList text, p⟩ :: ts)

namespace Reaches

variable {rest rest' before : List Char} {p : Position} {ts ts' : List Token} {stop : Cursor}

/-- **The same boundary is reached** in front of a text that starts with the same character or is
    empty. -/
theorem of_head (h : Reaches rest p before ts)
    (hhead : ∀ c, rest'.head? = some c → rest.head? = some c) : Reaches rest' p before ts := by
  induction h with
  | here => exact .here
  | blank hc _ ih => exact .blank hc ih
  | line hu _ ih => exact .line hu ih
  | block hu _ ih => exact .block hu ih
  | @token p k text s ts hk _ ih =>
      refine .token (hk.of_head fun c hc => ?_) ih
      -- the rest is looked at only where the lexeme stands right in front of it
      cases s with
      | nil => exact hhead c hc
      | cons d s => exact hc

/-- **A scan goes on at a boundary** as if it started there. -/
theorem scans (h : Reaches rest p before ts) (h' : Scans (p.after before) rest ts' stop) :
    Scans p (before ++ rest) (ts ++ ts') stop := by
  induction h with
  | here => exact h'
  | blank hc _ ih => exact .blank hc (ih h')
  | @line p u s ts hu _ ih =>
      have happend : '/' :: '/' :: (u ++ '\n' :: s) ++ rest =
          '/' :: '/' :: (u ++ '\n' :: (s ++ rest)) := by simp
      rw [happend]
      refine .line hu (ih ?_)
      rw [← Position.after_append]
      simpa using h'
  | @block p u s ts hu _ ih =>
      have happend : '/' :: '*' :: (u ++ s) ++ rest = '/' :: '*' :: (u ++ (s ++ rest)) := by simp
      rw [happend]
      refine .block hu (ih ?_)
      rw [← Position.after_append]
      simpa using h'
  | token hk _ ih =>
      rw [List.append_assoc]
      rw [Position.after_append] at h'
      exact .token hk (ih h')

/-- **A scan fails at a boundary** in front of a malformed text. -/
theorem scans_fault (h : Reaches rest p before ts) {cause : Fault}
    (hmalformed : Malformed cause rest) :
    ∃ stop, Scans p (before ++ rest) (ts ++ [⟨.error, cause.message, p.after before⟩]) stop := by
  obtain ⟨c, tail, rfl⟩ := hmalformed.exists_cons
  obtain ⟨text, rest', hcut⟩ := Piece.cut_eq_fault_iff.mpr hmalformed
  exact ⟨_, h.scans (.fault hcut)⟩

/-- No token in front of a boundary is malformed. -/
theorem kind_ne_error (h : Reaches rest p before ts) : ∀ t ∈ ts, t.kind ≠ .error := by
  induction h with
  | here => simp
  | blank _ _ ih | line _ _ ih | block _ _ ih => exact ih
  | token hk _ ih => exact List.forall_mem_cons.mpr ⟨hk.proper.2, ih⟩

end Reaches

/-- **A scan that fails has reached a boundary**, and a malformed text stands behind it. -/
theorem Scans.reaches_fault {p : Position} {s : List Char} {ts : List Token} {stop : Cursor}
    (h : Scans p s ts stop) (herror : ∃ t ∈ ts, t.kind = .error) :
    ∃ before rest ts' cause, s = before ++ rest ∧ Reaches rest p before ts' ∧
      Malformed cause rest ∧ ts = ts' ++ [⟨.error, cause.message, p.after before⟩] := by
  induction h with
  | done | lastLine =>
      obtain ⟨t, ht, -⟩ := herror
      cases ht
  | blank hc _ ih =>
      obtain ⟨before, rest, ts', cause, rfl, hreaches, hmalformed, rfl⟩ := ih herror
      exact ⟨_, rest, ts', cause, rfl, .blank hc hreaches, hmalformed, rfl⟩
  | @line p u _ _ _ hu _ ih =>
      obtain ⟨before, rest, ts', cause, rfl, hreaches, hmalformed, rfl⟩ := ih herror
      refine ⟨_, rest, ts', cause, ?_, .line hu hreaches, hmalformed, ?_⟩
      · simp
      · rw [← Position.after_append]
        simp
  | @block p u _ _ _ hu _ ih =>
      obtain ⟨before, rest, ts', cause, rfl, hreaches, hmalformed, rfl⟩ := ih herror
      refine ⟨_, rest, ts', cause, ?_, .block hu hreaches, hmalformed, ?_⟩
      · simp
      · rw [← Position.after_append]
        simp
  | @token p k text s ts stop hk _ ih =>
      have hlater : ∃ t ∈ ts, t.kind = .error := by
        obtain ⟨t, ht, hkind⟩ := herror
        rcases List.mem_cons.mp ht with rfl | hmem
        · exact absurd hkind hk.proper.2
        · exact ⟨t, hmem, hkind⟩
      obtain ⟨before, rest, ts', cause, rfl, hreaches, hmalformed, rfl⟩ := ih hlater
      refine ⟨_, rest, _, cause, ?_, .token hk hreaches, hmalformed, ?_⟩
      · rw [List.append_assoc]
      · rw [Position.after_append]
        rfl
  | @fault p c s cause text rest h =>
      exact ⟨[], c :: s, [], cause, rfl, .here, Piece.cut_eq_fault_iff.mp ⟨text, rest, h⟩, rfl⟩

/-! ## Source texts -/

section

variable {source : String} {ts after : List Token} {e : Token}

/-- Behind a malformed token stands the end of the input, and nothing else. -/
theorem after_error (h : tokenize source = ts ++ e :: after) (he : e.kind = .error) :
    tokensBeforeEnd source = ts ++ [e] ∧
      after = [.endOfInput (Scan.ofSource source).stop.position] := by
  obtain ⟨after', htokens⟩ := tokensBeforeEnd_of_error h he
  have hpairwise := (scans_scan .start source.toList).kind_ne_error
  rw [← Scan.ofSource, ← tokensBeforeEnd_eq, htokens, List.pairwise_append] at hpairwise
  have hnil : after' = [] := by
    cases after' with
    | nil => rfl
    | cons t after' =>
        have hfirst := (List.pairwise_cons.mp hpairwise.2.1).1
        exact absurd he (hfirst t List.mem_cons_self)
  subst hnil
  refine ⟨htokens, ?_⟩
  rw [tokenize_eq, htokens, List.append_assoc] at h
  exact (List.cons.inj (List.append_cancel_left h)).2.symm

/-- **The malformed token of a text** stands at a boundary, in front of a malformed text. -/
theorem reaches_of_error (h : tokenize source = ts ++ e :: after) (he : e.kind = .error) :
    ∃ before rest cause, source.toList = before ++ rest ∧ Reaches rest .start before ts ∧
      Malformed cause rest ∧ e = ⟨.error, cause.message, Position.ofText before⟩ := by
  have hscans := scans_scan .start source.toList
  rw [← Scan.ofSource, ← tokensBeforeEnd_eq, (after_error h he).1] at hscans
  obtain ⟨before, rest, ts', cause, hsource, hreaches, hmalformed, htokens⟩ :=
    hscans.reaches_fault ⟨e, List.mem_concat_self, he⟩
  obtain ⟨rfl, hlast⟩ := List.append_inj' htokens rfl
  cases hlast
  exact ⟨before, rest, cause, hsource, hreaches, hmalformed, by rw [Position.after_start]⟩

/-- The tokens of a text up to a boundary are those in front of it, and the end of the input stands
    at the boundary. -/
theorem Reaches.tokenize {rest before : List Char} (h : Reaches rest .start before ts) :
    ExprLang.tokenize (String.ofList before) = ts ++ [.endOfInput (Position.ofText before)] := by
  have hends : Reaches [] .start before ts := h.of_head nofun
  have hscans := hends.scans .done
  rw [List.append_nil, List.append_nil, ← String.toList_ofList (l := before)] at hscans
  rw [hscans.tokenize, String.toList_ofList, Position.after_start]

end

/-- **Errors are exact.** The tokens of a text end with the end of the input, which is not among the
    others, and a malformed token stands only directly in front of it.
    - The text in front of a malformed token has the tokens in front of it, and ends where it
      stands; and its message is that of the one way in which the text behind is malformed.
    - There is a malformed token exactly if some boundary between pieces of the text is followed by
      a malformed text. -/
theorem errors_exact (source : String) :
    (∃ ts last, tokenize source = ts ++ [last] ∧ last.kind = .eof ∧ ∀ t ∈ ts, t.kind ≠ .eof) ∧
    (∀ ts e after, tokenize source = ts ++ e :: after → e.kind = .error →
      (∃ last, after = [last] ∧ last.kind = .eof) ∧
      ∃ before rest, source.toList = before ++ rest ∧ e.position = Position.ofText before ∧
        tokenize (String.ofList before) = ts ++ [.endOfInput e.position] ∧
        (∃ cause : Fault, e.value = cause.message) ∧
        ∀ cause : Fault, e.value = cause.message ↔ Malformed cause rest) ∧
    ((∃ t ∈ tokenize source, t.kind = .error) ↔
      ∃ before rest ts cause, source.toList = before ++ rest ∧ Reaches rest .start before ts ∧
        Malformed cause rest) := by
  refine ⟨?_, ?_, ?_⟩
  · refine ⟨_, _, tokenize_eq source, rfl, ?_⟩
    rw [tokensBeforeEnd_eq]
    exact (scans_scan .start source.toList).kind_ne_eof
  · intro ts e after h he
    refine ⟨⟨_, (after_error h he).2, rfl⟩, ?_⟩
    obtain ⟨before, rest, cause, hsource, hreaches, hmalformed, rfl⟩ := reaches_of_error h he
    refine ⟨before, rest, hsource, rfl, hreaches.tokenize, ⟨cause, rfl⟩, fun cause' => ?_⟩
    constructor
    · intro hmessage
      rw [← Fault.message_injective hmessage]
      exact hmalformed
    · intro hmalformed'
      rw [hmalformed.unique hmalformed']
  · constructor
    · rintro ⟨e, hmem, he⟩
      obtain ⟨ts, after, h⟩ := List.append_of_mem hmem
      obtain ⟨before, rest, cause, hsource, hreaches, hmalformed, -⟩ := reaches_of_error h he
      exact ⟨before, rest, ts, cause, hsource, hreaches, hmalformed⟩
    · rintro ⟨before, rest, ts, cause, hsource, hreaches, hmalformed⟩
      obtain ⟨stop, hscans⟩ := hreaches.scans_fault hmalformed
      rw [← hsource] at hscans
      refine ⟨⟨.error, cause.message, Position.start.after before⟩, ?_, rfl⟩
      rw [hscans.tokenize]
      exact List.mem_append_left _ List.mem_concat_self

/-- A name, and a character literal that ends behind its backslash. -/
theorem errors_exact_escape :
    tokenize "a'\\" = [⟨.identifier, "a", ⟨1, 1⟩⟩,
        ⟨.error, "unexpected end of char literal", ⟨1, 2⟩⟩, .endOfInput ⟨1, 4⟩] ∧
      ∃ before rest, "a'\\".toList = before ++ rest ∧ ⟨1, 2⟩ = Position.ofText before ∧
        tokenize (String.ofList before) = [⟨.identifier, "a", ⟨1, 1⟩⟩, .endOfInput ⟨1, 2⟩] ∧
        ∀ cause : Fault, "unexpected end of char literal" = cause.message ↔
          Malformed cause rest := by
  have hname : Piece.cut 'a' ['\'', '\\'] = (.token .identifier ['a'], ['\'', '\\']) := rfl
  have hquote : Piece.cut '\'' ['\\'] = (.fault .charCutShort ['\'', '\\'], []) := rfl
  have hscan : scan .start ['a', '\'', '\\'] = ⟨[⟨.identifier, "a", ⟨1, 1⟩⟩,
      ⟨.error, "unexpected end of char literal", ⟨1, 2⟩⟩], ⟨⟨1, 4⟩, []⟩⟩ := by
    rw [scan_token hname, scan_fault hquote]
    rfl
  have htokens : tokenize "a'\\" = [⟨.identifier, "a", ⟨1, 1⟩⟩] ++
      ⟨.error, "unexpected end of char literal", ⟨1, 2⟩⟩ :: [.endOfInput ⟨1, 4⟩] := by
    show (scan .start ['a', '\'', '\\']).stream.pending = _
    rw [hscan]
    rfl
  refine ⟨htokens, ?_⟩
  obtain ⟨-, before, rest, hsource, hposition, hbefore, -, hcauses⟩ :=
    (errors_exact "a'\\").2.1 _ _ _ htokens rfl
  exact ⟨before, rest, hsource, hposition, hbefore, hcauses⟩

end ExprLang
