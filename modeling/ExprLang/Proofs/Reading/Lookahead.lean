import Mathlib.Data.List.TakeWhile
import ExprLang.Proofs.Grammar.Diagnosis
import ExprLang.Proofs.Reading.Trees

/-!
# `Proofs.Reading.Lookahead` — one token in sight

A reading sees the tokens up to the one that it stops at, and of these the kinds and the values. So
its answer is settled by them: every stream that starts with the same kinds and values is read as
the same tree, or fails with the same problem at the same place.

To say where in a stream a diagnostic points, each stream is compared with its **index**: the same
kinds and values, with the place of each token as its column. The positions that a reading of the
index reports are places, and the stream is coupled with its index up to the token that the reading
stops at. No reading gets past the end of the input, which is the last token of the index.

## Contents
- `TokenStream.lexemes`, `Token.Like`, `TokenStream.AgreesTo`: streams that look alike.
- `TokenStream.index`, `Coupling.index`: a stream and its index.
- `Diagnostic.SpeaksOf`: the token that a diagnostic speaks of.
- `Parse.Regular`, `Parse.Regular.settled`: what settles the answer of a reader.
- `Parse.FailsInSight`, `failures_in_sight`: no token behind the one that is reported matters.
- `Reply.Alike`, `read_alike`: only kinds and values matter, and none behind the end of the input.
-/

namespace ExprLang

/-! ## Streams that look alike -/

/-- The kind and the value of a token. -/
def Token.lexeme (t : Token) : Kind × String := (t.kind, t.value)

/-- The two tokens differ in their positions at most; two ends of the input are alike. -/
def Token.Like (t t' : Token) : Prop := t.kind = t'.kind ∧ (t.kind ≠ .eof → t.value = t'.value)

theorem Token.Like.trans {t t₁ t' : Token} (h : t.Like t₁) (h' : t₁.Like t') : t.Like t' :=
  ⟨h.1.trans h'.1, fun hk => (h.2 hk).trans (h'.2 (h.1 ▸ hk))⟩

namespace TokenStream

/-- The kinds and the values of the tokens before the end of the input. -/
def lexemes (s : TokenStream) : List (Kind × String) := s.collect.1.map Token.lexeme

/-- The tokens of the two streams are alike up to the place `n`. -/
def AgreesTo (n : Nat) (s s' : TokenStream) : Prop := ∀ i ≤ n, (s.token i).Like (s'.token i)

variable {s s' : TokenStream} {i j n : Nat}

theorem lexemes_eq (t : Token) (ts : List Token) (p : Position) :
    lexemes ⟨t :: ts, p⟩ = if t.kind = .eof then [] else t.lexeme :: lexemes ⟨ts, p⟩ := by
  by_cases hk : t.kind = .eof <;> simp [lexemes, collect, Token.is, hk]

theorem lexemes_eq_takeWhile (s : TokenStream) :
    s.lexemes = (s.pending.map Token.lexeme).takeWhile fun l => !decide (l.1 = .eof) := by
  rw [List.takeWhile_map]
  rfl

theorem lexemes_proper (s : TokenStream) : ∀ l ∈ s.lexemes, (!decide (l.1 = .eof)) = true := by
  rw [lexemes_eq_takeWhile]
  exact List.all_eq_true.mp List.all_takeWhile

/-- The replay of what a stream collects has the same lexemes. -/
theorem lexemes_collect (s : TokenStream) : (ofTokens s.collect.1).lexemes = s.lexemes := by
  rw [lexemes_eq_takeWhile]
  exact List.takeWhile_eq_self_iff.mpr s.lexemes_proper

/-- The lexemes are those of the tokens at their places, and the end of the input stands after the
    last of them. -/
theorem lexeme_token (s : TokenStream) :
    (∀ i (h : i < s.lexemes.length), (s.token i).lexeme = s.lexemes[i]) ∧
      (s.token s.lexemes.length).kind = .eof := by
  obtain ⟨pending, finish⟩ := s
  induction pending with
  | nil => exact ⟨fun i h => absurd h (Nat.not_lt_zero i), rfl⟩
  | cons t ts ih =>
      rw [lexemes_eq]
      by_cases hk : t.kind = .eof
      · simp only [if_pos hk]
        exact ⟨fun i h => absurd h (Nat.not_lt_zero i), hk⟩
      · simp only [if_neg hk]
        refine ⟨fun i h => ?_, ih.2⟩
        cases i with
        | zero => rfl
        | succ i => exact ih.1 i (Nat.lt_of_succ_lt_succ h)

theorem length_lexemes_le (s : TokenStream) : s.lexemes.length ≤ s.remaining := by
  rw [lexemes, List.length_map]
  exact (List.takeWhile_prefix _).length_le

/-- **Streams with the same lexemes** are alike up to the end of the input. -/
theorem agreesTo_of_lexemes (h : s.lexemes = s'.lexemes) : s.AgreesTo s.lexemes.length s' := by
  intro i hi
  rcases Nat.lt_or_eq_of_le hi with hlt | rfl
  · have heq : (s.token i).lexeme = (s'.token i).lexeme := by
      rw [s.lexeme_token.1 i hlt, s'.lexeme_token.1 i (h ▸ hlt)]
      simp only [h]
    obtain ⟨hkind, hvalue⟩ := Prod.mk.inj heq
    exact ⟨hkind, fun _ => hvalue⟩
  · have hend := s.lexeme_token.2
    refine ⟨hend.trans ?_, fun hne => absurd hend hne⟩
    rw [h]
    exact s'.lexeme_token.2.symm

theorem AgreesTo.mono (h : s.AgreesTo n s') (hle : i ≤ n) : s.AgreesTo i s' :=
  fun j hj => h j (Nat.le_trans hj hle)

/-- What is left of the lexemes when some of them have been taken off. -/
theorem length_lexemes_skip (h : i ≤ s.lexemes.length) :
    (s.skip i).lexemes.length = s.lexemes.length - i := by
  obtain ⟨pending, finish⟩ := s
  induction i generalizing pending with
  | zero => rfl
  | succ i ih =>
      cases pending with
      | nil => exact absurd h (Nat.not_succ_le_zero i)
      | cons t ts =>
          rw [lexemes_eq] at h ⊢
          by_cases hk : t.kind = .eof
          · rw [if_pos hk] at h
            exact absurd h (Nat.not_succ_le_zero i)
          · rw [if_neg hk] at h ⊢
            rw [List.length_cons, Nat.add_sub_add_right]
            exact ih ts (Nat.le_of_succ_le_succ h)

/-! ## The index of a stream -/

/-- The lexemes of the stream and the end of the input, each with its place for its column. -/
def index (s : TokenStream) : TokenStream := .ofKinds (s.lexemes ++ [(.eof, "")])

theorem remaining_index (s : TokenStream) : s.index.remaining = s.lexemes.length + 1 := by
  simp [index, ofKinds, ofTokens, remaining]

theorem token_ofKinds {ks : List (Kind × String)} (h : i < ks.length) :
    (ofKinds ks).token i = ⟨ks[i].1, ks[i].2, ⟨1, i + 1⟩⟩ := by
  simp [ofKinds, ofTokens, token, List.getElem?_eq_getElem h]

theorem position_index (h : i ≤ s.lexemes.length) : (s.index.token i).position = ⟨1, i + 1⟩ := by
  rw [index, token_ofKinds]
  rw [List.length_append]
  exact Nat.lt_succ_of_le h

theorem map_lexeme_ofKinds (ks : List (Kind × String)) :
    (ofKinds ks).pending.map Token.lexeme = ks :=
  List.ext_getElem (by simp [ofKinds, ofTokens]) fun i _ _ => by
    simp [ofKinds, ofTokens, Token.lexeme]

theorem lexemes_index (s : TokenStream) : s.index.lexemes = s.lexemes := by
  rw [lexemes_eq_takeWhile, index, map_lexeme_ofKinds,
    List.takeWhile_append_of_pos s.lexemes_proper]
  exact List.append_nil _

end TokenStream

open TokenStream

section

variable {s s' : TokenStream} {n : Nat}

/-- A stream that looks like `s` up to the place `n`, and the index of `s`. -/
def Coupling.index (s s' : TokenStream) (n : Nat) (hn : n ≤ s.lexemes.length)
    (hagree : s.AgreesTo n s') : Coupling :=
  have halike : ∀ i ≤ n, (s.index.token i).Like (s'.token i) := by
    intro i hi
    have hindex := agreesTo_of_lexemes s.lexemes_index i
    rw [lexemes_index] at hindex
    exact (hindex (Nat.le_trans hi hn)).trans (hagree i hi)
  { streams x x' := ∃ i ≤ n, x = s.index.skip i ∧ x' = s'.skip i
    positions p p' := p' = (s'.token (p.column - 1)).position
    past x := x.remaining < s.index.remaining - n
    kind_eq := by
      rintro _ _ ⟨i, hi, rfl, rfl⟩
      rw [peek_skip, peek_skip]
      exact (halike i hi).1
    value_eq := by
      rintro _ _ ⟨i, hi, rfl, rfl⟩
      rw [peek_skip, peek_skip]
      exact (halike i hi).2
    position := by
      rintro _ _ ⟨i, hi, rfl, rfl⟩
      rw [peek_skip, peek_skip, position_index (Nat.le_trans hi hn)]
      rfl
    advance := by
      rintro _ _ ⟨i, hi, rfl, rfl⟩
      rw [advance_skip, advance_skip]
      rcases Nat.lt_or_eq_of_le hi with hlt | rfl
      · exact .inl ⟨i + 1, hlt, rfl, rfl⟩
      · right
        rw [remaining_skip, remaining_index]
        omega
    past_advance := fun h => Nat.lt_of_le_of_lt (remaining_advance_le _) h
    exists_position p := ⟨_, rfl⟩ }

/-! ## Where a reading stops -/

/-- The diagnostic speaks of the token at the place `i`; or it is an assignment that is not accepted,
    and speaks of an assignment operator in front of it. -/
def Diagnostic.SpeaksOf (d : Diagnostic) (s : TokenStream) (i : Nat) : Prop :=
  (d.problem ≠ .assignmentNotAllowed ∧ d.position = (s.token i).position) ∨
    (d.problem = .assignmentNotAllowed ∧ ∃ j < i,
      (standard.assignOperator (s.token j).kind).isSome ∧ d.position = (s.token j).position)

theorem Diagnostic.SpeaksOf.exists_place {d : Diagnostic} {i : Nat} (h : d.SpeaksOf s i) :
    ∃ j ≤ i, d.position = (s.token j).position := by
  rcases h with ⟨-, hposition⟩ | ⟨-, j, hj, -, hposition⟩
  · exact ⟨i, Nat.le_refl i, hposition⟩
  · exact ⟨j, Nat.le_of_lt hj, hposition⟩

/-- Proper tokens that are passed over stand in front of the end of the input. -/
theorem TokenStream.Passes.length_le {w : List Token} (h : s.Passes w s') :
    s' = s.skip w.length ∧ w.length ≤ s.lexemes.length := by
  obtain ⟨rfl, hproper⟩ := h
  refine ⟨(skip_behind w).symm, Nat.le_of_not_lt fun hlt => ?_⟩
  have hend := (s'.behind w).lexeme_token.2
  rw [token_behind hlt] at hend
  exact (hproper _ (List.getElem_mem hlt)).1 hend

theorem Reply.Orderly.of_ok {α : Type} {v : α} (h : (Reply.ok v s').Orderly standard s) :
    ∃ i ≤ s.lexemes.length, s' = s.skip i := by
  cases h with
  | @ok _ w _ hpasses => exact ⟨w.length, hpasses.length_le.2, hpasses.length_le.1⟩

theorem Reply.Orderly.of_error {α : Type} {d : Diagnostic}
    (h : (Reply.error d s' : Reply α).Orderly standard s) :
    ∃ i ≤ s.lexemes.length, s' = s.skip i ∧ d.SpeaksOf s i := by
  cases h with
  | @stopped problem w _ hpasses hproblem =>
      obtain ⟨rfl, hle⟩ := hpasses.length_le
      refine ⟨w.length, hle, rfl, .inl ?_⟩
      rw [diagnose]
      split
      · exact ⟨Problem.noConfusion, by rw [peek_skip]⟩
      · refine ⟨?_, by rw [peek_skip]⟩
        rintro rfl
        exact hproblem
  | @disallowed operator w _ hpasses hmem hoperator =>
      obtain ⟨hskip, hle⟩ := hpasses.length_le
      obtain ⟨j, hj, hget⟩ := List.getElem_of_mem hmem
      have htoken : s.token j = operator := by rw [hpasses.1, token_behind hj, hget]
      refine ⟨w.length, hle, hskip, .inr ⟨rfl, j, hj, ?_, ?_⟩⟩
      · rwa [htoken]
      · rw [htoken]

end

/-! ## What settles the answer of a reader -/

theorem Reply.Past.past_rest {c : Coupling} {α : Type} {r : Reply α} {x : TokenStream}
    (h : r.Past c) (hrest : r.rest? = some x) : c.past x := by
  cases h with
  | ok hs | error hs => exact Option.some.inj hrest ▸ hs
  | halt => cases hrest

/-- The reader looks at kinds and values, passes over proper tokens, and answers. -/
structure Parse.Regular {α : Type} (p : Parse α) : Prop where
  follows : ∀ c : Coupling, Parse.Follows c Eq p p
  orderly : ∀ s, (p s).Orderly standard s
  answers : ∀ s, (p s).Answers

namespace Parse

/-- What the reader does with the index of `s`, it does with a stream that looks like `s` up to the
    token where it stops. -/
theorem Regular.follows_index {α : Type} {p : Parse α} (hp : p.Regular) {s s' : TokenStream} {i : Nat}
    (hi : i ≤ s.lexemes.length) (hagree : s.AgreesTo i s')
    (hrest : (p s.index).rest? = some (s.index.skip i)) :
    Reply.Follows (.index s s' i hi hagree) Eq (p s.index) (p s') := by
  rcases (hp.follows (.index s s' i hi hagree)).reply ⟨0, Nat.zero_le i, rfl, rfl⟩ with
    hfollows | hpast
  · exact hfollows
  · -- the place where the index stops is not past itself
    have hover := hpast.past_rest hrest
    change (s.index.skip i).remaining < s.index.remaining - i at hover
    rw [remaining_skip] at hover
    exact absurd hover (Nat.lt_irrefl _)

/-- **The answer is settled by the tokens up to the one that the reading stops at.** Wherever they
    are alike, the tree is the same, or the problem is the same and points to the same place. -/
theorem Regular.settled {α : Type} {p : Parse α} (hp : p.Regular) (s : TokenStream) :
    ∃ i ≤ s.lexemes.length,
      (∃ v, ∀ s', s.AgreesTo i s' → p s' = .ok v (s'.skip i)) ∨
      (∃ problem, ∃ j ≤ i, ∀ s', s.AgreesTo i s' →
        p s' = .error ⟨problem, (s'.token j).position⟩ (s'.skip i)) := by
  have hplaces : ∀ {i j}, i ≤ s.lexemes.length → j ≤ i → s.index.skip i = s.index.skip j → i = j := by
    intro i j hi hj hskip
    have hle : i ≤ s.index.remaining := by
      rw [remaining_index]
      exact Nat.le_succ_of_le hi
    exact eq_of_skip hle (Nat.le_trans hj hle) hskip
  have horderly := hp.orderly s.index
  rcases (hp.answers s.index).ok_or_error with ⟨v, r, hread⟩ | ⟨d, r, hread⟩
  · rw [hread] at horderly
    obtain ⟨i, hi, rfl⟩ := horderly.of_ok
    rw [lexemes_index] at hi
    refine ⟨i, hi, .inl ⟨v, fun s' hagree => ?_⟩⟩
    have hfollows := hp.follows_index hi hagree (by rw [hread]; rfl)
    rw [hread] at hfollows
    generalize p s' = r' at hfollows
    cases hfollows with
    | ok hv hs =>
        obtain ⟨j, hj, hskip, rfl⟩ := hs
        rw [hv, hplaces hi hj hskip]
  · rw [hread] at horderly
    obtain ⟨i, hi, rfl, hspeaks⟩ := horderly.of_error
    rw [lexemes_index] at hi
    obtain ⟨j, hj, hposition⟩ := hspeaks.exists_place
    refine ⟨i, hi, .inr ⟨d.problem, j, hj, fun s' hagree => ?_⟩⟩
    have hfollows := hp.follows_index hi hagree (by rw [hread]; rfl)
    rw [hread] at hfollows
    generalize p s' = r' at hfollows
    cases hfollows with
    | error hp hs =>
        obtain ⟨l, hl, hskip, rfl⟩ := hs
        -- the column that the index reports is the place of the token
        rw [position_index (Nat.le_trans hj hi)] at hposition
        subst hposition
        rw [hp, hplaces hi hl hskip]
        rfl

/-! ## The readers of the language -/

theorem regular_read {α : Type} (phrase : Phrase α) (hphrase : ¬phrase.Marked) :
    Regular (standard.read phrase) where
  follows c := standard_read_follows c phrase
  orderly s := standard_read_orderly phrase s fun h => absurd h hphrase
  answers _ := standard_read_answers phrase

theorem regular_typeName : Regular Rule.typeName where
  follows _ := Rule.typeName_follows
  orderly _ := Rule.typeName_orderly
  answers _ := answers_expect_bind fun _ => answers_ok

theorem regular_pattern : Regular Rule.pattern where
  follows _ := Rule.pattern_follows
  orderly _ := Rule.pattern_orderly
  answers _ := answers_expect_bind fun _ => answers_ok

end Parse

/-- No tree that is read stands for a diagnostic. -/
theorem read_nodes_wellShaped {α : Type} {phrase : Phrase α} {s s' : TokenStream} {v : α}
    (hgiven : phrase.given = []) (h : standard.read phrase s = .ok v s') :
    ∀ n ∈ phrase.nodes v, n.WellShaped := by
  have hgrown := standard.derive_wellShaped (depthFor s.remaining) phrase h (by simp [hgiven])
  exact fun n hn => (hgrown.throughout n hn).root

theorem read_program_ne_error {s s' : TokenStream} {ss : List Statement}
    (h : standard.read .program s = .ok ss s') (d : Diagnostic) : ss ≠ [.error d] := by
  rintro rfl
  exact read_nodes_wellShaped rfl h _ List.mem_cons_self

theorem read_expr_ne_error {assignable : Bool} {s s' : TokenStream} {e : Expr}
    (h : standard.read (.expr 0 assignable) s = .ok e s') (d : Diagnostic) : e ≠ .error d := by
  rintro rfl
  exact read_nodes_wellShaped rfl h _ List.mem_cons_self

/-! ## Failures -/

section

open Parse

variable {α : Type} {p : Parse α} {onError : Diagnostic → α} {s s' rest : TokenStream}
  {d : Diagnostic}

/-- The reader `p` fails on `s` for what is in sight: it stops at a token, which is left as the
    current one and which the diagnostic speaks of, and it fails in the same way, at the same place,
    on every stream with the same tokens up to that one. -/
def Parse.FailsInSight (p : Parse α) (failure : α) (d : Diagnostic) (s rest : TokenStream) : Prop :=
  ∃ k ≤ s.lexemes.length, rest = s.skip k ∧ d.SpeaksOf s k ∧
    ∀ s', (∀ i ≤ k, s'.token i = s.token i) → p s' = .ok failure (s'.skip k)

/-- A failure that is put into the tree is one of the reader. -/
theorem Parse.error_of_recover (hne : ∀ {v r}, p s = .ok v r → v ≠ onError d)
    (hinj : ∀ {d d'}, onError d = onError d' → d = d')
    (h : p.recover onError s = .ok (onError d) rest) : p s = .error d rest := by
  unfold Parse.recover at h
  cases hread : p s with
  | ok v r =>
      rw [hread] at h
      cases h
      exact absurd rfl (hne hread)
  | error d' r =>
      rw [hread] at h
      obtain ⟨heq, rfl⟩ := Reply.ok.inj h
      rw [hinj heq]
  | halt cause =>
      rw [hread] at h
      cases h

theorem Parse.Regular.failsInSight (hp : p.Regular) (onError : Diagnostic → α)
    (h : p s = .error d rest) : (p.recover onError).FailsInSight (onError d) d s rest := by
  have hself : ∀ n, s.AgreesTo n s := fun _ _ _ => ⟨rfl, fun _ => rfl⟩
  have horderly := hp.orderly s
  rw [h] at horderly
  obtain ⟨k, hk, rfl, hspeaks⟩ := horderly.of_error
  refine ⟨k, hk, rfl, hspeaks, fun s' hs' => ?_⟩
  obtain ⟨i, hi, ⟨v, hread⟩ | ⟨problem, j, hj, hread⟩⟩ := hp.settled s
  · rw [hread s (hself i)] at h
    cases h
  · rw [hread s (hself i)] at h
    obtain ⟨rfl, hskip⟩ := Reply.error.inj h
    obtain rfl := eq_of_skip (Nat.le_trans hi s.length_lexemes_le)
      (Nat.le_trans hk s.length_lexemes_le) hskip
    have hagree : s.AgreesTo i s' := by
      intro l hl
      rw [hs' l hl]
      exact ⟨rfl, fun _ => rfl⟩
    rw [Parse.recover, hread s' hagree, hs' j hj]

/-- **Failures are settled in sight.** When statements, or an expression, are read with a diagnostic,
    the reading has stopped at the token that the diagnostic speaks of, and no token behind that one
    could have changed it. An assignment that is not accepted is reported at its operator, which has
    been taken off by then. -/
theorem failures_in_sight (s rest : TokenStream) (d : Diagnostic) :
    (standard.readStatements s = .ok [.error d] rest →
      standard.readStatements.FailsInSight [.error d] d s rest) ∧
    ∀ assignable, standard.readExpression assignable s = .ok (.error d) rest →
      (standard.readExpression assignable).FailsInSight (.error d) d s rest := by
  constructor
  · intro h
    have hread : standard.read .program s = .error d rest :=
      error_of_recover (fun hok => read_program_ne_error hok d) (by simp) h
    exact (regular_read .program nofun).failsInSight _ hread
  · intro assignable h
    have hread : standard.read (.expr 0 assignable) s = .error d rest :=
      error_of_recover (fun hok => read_expr_ne_error hok d) (by simp) h
    exact (regular_read (.expr 0 assignable) nofun).failsInSight _ hread

/-- A grouping that is not closed, whatever stands behind the token that is not its parenthesis. -/
theorem failures_in_sight_grouping :
    let s : TokenStream := .ofKinds
      [(.openParen, "("), (.identifier, "a"), (.identifier, "b"), (.closeParen, ")")]
    let d : Diagnostic := ⟨.expected "')'", ⟨1, 3⟩⟩
    standard.readExpression true s = .ok (.error d) (s.skip 2) ∧
      (standard.readExpression true).FailsInSight (.error d) d s (s.skip 2) := by
  intro s d
  have h : standard.readExpression true s = .ok (.error d) (s.skip 2) := by rfl
  exact ⟨h, (failures_in_sight s (s.skip 2) d).2 true h⟩

/-! ## Streams with the same lexemes -/

/-- Two answers, to the streams `s` and `s'`, that differ in positions and in what stands behind the
    end of the input at most: the same tree, or the same problem with tokens at the same place; and
    as many tokens are left. -/
inductive Reply.Alike (onError : Diagnostic → α) (s s' : TokenStream) :
    Reply α → Reply α → Prop where
  | tree {v : α} {r r' : TokenStream} (hv : ∀ d, v ≠ onError d)
      (hunread : r.lexemes.length = r'.lexemes.length) : Alike onError s s' (.ok v r) (.ok v r')
  | failure {problem : Problem} {i : Nat} {r r' : TokenStream} (hi : i ≤ s.lexemes.length)
      (hunread : r.lexemes.length = r'.lexemes.length) :
      Alike onError s s' (.ok (onError ⟨problem, (s.token i).position⟩) r)
        (.ok (onError ⟨problem, (s'.token i).position⟩) r')

theorem Parse.Regular.alike (hp : p.Regular)
    (hne : ∀ {v r}, p s = .ok v r → ∀ d, v ≠ onError d) (h : s.lexemes = s'.lexemes) :
    Reply.Alike onError s s' (p.recover onError s) (p.recover onError s') := by
  obtain ⟨i, hi, hsettled⟩ := hp.settled s
  have hself : s.AgreesTo i s := fun _ _ => ⟨rfl, fun _ => rfl⟩
  have hother : s.AgreesTo i s' := (agreesTo_of_lexemes h).mono hi
  have hunread : (s.skip i).lexemes.length = (s'.skip i).lexemes.length := by
    rw [length_lexemes_skip hi, length_lexemes_skip (h ▸ hi), h]
  rcases hsettled with ⟨v, hread⟩ | ⟨problem, j, hj, hread⟩
  · rw [Parse.recover, Parse.recover, hread s hself, hread s' hother]
    exact .tree (hne (hread s hself)) hunread
  · rw [Parse.recover, Parse.recover, hread s hself, hread s' hother]
    exact .failure (Nat.le_trans hj hi) hunread

/-- **Kinds and values settle the answer.** Streams with the same lexemes before the end of the input
    are read alike, wherever their tokens stand, and whether or not the end of the input is a token
    that others follow. -/
theorem read_alike (h : s.lexemes = s'.lexemes) :
    Reply.Alike (fun d => [.error d]) s s' (standard.readStatements s) (standard.readStatements s') ∧
    (∀ assignable, Reply.Alike .error s s' (standard.readExpression assignable s)
      (standard.readExpression assignable s')) ∧
    Reply.Alike .error s s' (readType s) (readType s') ∧
    Reply.Alike .error s s' (readPattern s) (readPattern s') := by
  refine ⟨?_, fun assignable => ?_, ?_, ?_⟩
  · exact (regular_read .program nofun).alike read_program_ne_error h
  · exact (regular_read (.expr 0 assignable) nofun).alike read_expr_ne_error h
  · refine regular_typeName.alike (fun hok d => ?_) h
    obtain ⟨-, rfl, -⟩ := Rule.typeName_eq_ok.mp hok
    exact TypeName.noConfusion
  · refine regular_pattern.alike (fun hok d => ?_) h
    obtain ⟨-, rfl, -⟩ := Rule.pattern_eq_ok.mp hok
    exact Pattern.noConfusion

/-- Arguments without an end, in a stream and in the replay of what it collects: the end of the input
    is reported where its token stands, and where the last argument stands. -/
theorem read_alike_replay :
    let s : TokenStream := .ofKinds
      [(.identifier, "f"), (.openParen, "("), (.identifier, "a"), (.eof, ""), (.comma, ",")]
    let s' : TokenStream := .ofTokens s.collect.1
    s.lexemes = s'.lexemes ∧
      Reply.Alike (fun d => [.error d]) s s' (standard.readStatements s) (standard.readStatements s') ∧
      standard.readStatements s = .ok [.error ⟨.expected "')'", ⟨1, 4⟩⟩] (s.skip 3) ∧
      standard.readStatements s' = .ok [.error ⟨.expected "')'", ⟨1, 3⟩⟩] (s'.skip 3) := by
  intro s s'
  have h : s.lexemes = s'.lexemes := s.lexemes_collect.symm
  exact ⟨h, (read_alike h).1, by rfl, by rfl⟩

end

end ExprLang
