import ExprLang.Proofs.Reading.Coupling
import ExprLang.Proofs.Reading.Progress

/-!
# `Proofs.Reading.Depth` — the standard table reads without a bound

With the standard table every chain of rules that takes no token is short: `Phrase.rank` goes down
along it. So a depth in proportion to the number of tokens is enough for every phrase and every
stream, and reading always ends with a tree or with a diagnostic. From then on the bound can be
forgotten: `standard_read_eq` unfolds a reading into the rule of its phrase, whose inner readings
are readings of the same kind.

The chains are bounded only as long as some token is left, because passing over the end of the input
takes nothing. At the end of the input every expression fails at once, which is why it is treated
apart (`answers_at_end`).

## Contents
- `Reply.Answers`: a reply that is a tree or a diagnostic.
- `Phrase.rank`, `standard_rule_answers`: one rule of the standard table.
- `standard_derive_answers`: derivations that are deep enough.
- `standard_read_follows`: readings of coupled streams.
- `standard_read_eq`: the standard table, unfolded by one rule.
-/

namespace ExprLang

/-- The reply is a value or a diagnostic. -/
def Reply.Answers {α : Type} (r : Reply α) : Prop := ∀ cause, r ≠ .halt cause

theorem Reply.Answers.ok_or_error {α : Type} {r : Reply α} (h : r.Answers) :
    (∃ a s', r = .ok a s') ∨ ∃ d s', r = .error d s' := by
  cases r with
  | ok a s' => exact Or.inl ⟨a, s', rfl⟩
  | error d s' => exact Or.inr ⟨d, s', rfl⟩
  | halt cause => exact absurd rfl (h cause)

namespace Parse

variable {α β : Type} {s : TokenStream}

theorem answers_ok {a : α} : (Reply.ok a s).Answers := by simp [Reply.Answers]

theorem answers_reject {problem : Problem} : (reject problem s : Reply α).Answers := by
  simp [Reply.Answers]

theorem answers_expect {k : Kind} {what : String} : (expect k what s).Answers := by
  rw [expect_apply]
  split
  · exact answers_ok
  · simp [Reply.Answers]

theorem answers_bind {p : Parse α} {f : α → Parse β} (hp : (p s).Answers)
    (hf : ∀ a s₁, p s = .ok a s₁ → (f a s₁).Answers) : ((p >>= f) s).Answers := by
  rw [bind_apply]
  cases hps : p s with
  | ok a s₁ => exact hf a s₁ hps
  | error d s₁ => simp [Reply.Answers]
  | halt cause => exact absurd hps (hp cause)

theorem answers_advance_bind {f : Token → Parse β} (hf : (f s.peek s.advance).Answers) :
    ((advance >>= f) s).Answers := hf

theorem answers_kind_bind {f : Kind → Parse β} (hf : (f s.peek.kind s).Answers) :
    ((kind >>= f) s).Answers := hf

theorem answers_ite {c : Prop} [Decidable c] {p q : Parse α} (hp : c → (p s).Answers)
    (hq : ¬c → (q s).Answers) : ((if c then p else q) s).Answers := by
  by_cases hc : c
  · simpa only [if_pos hc] using hp hc
  · simpa only [if_neg hc] using hq hc

/-- What follows an expected token starts behind it. -/
theorem answers_expect_bind {k : Kind} {what : String} {f : Token → Parse β}
    (hf : s.peek.kind = k → (f s.peek s.advance).Answers) : ((expect k what >>= f) s).Answers := by
  apply answers_bind answers_expect
  intro t s₁ h
  obtain ⟨hk, rfl, rfl⟩ := expect_eq_ok.mp h
  exact hf hk

end Parse

/-! ## How far a phrase is from taking a token -/

/-- How many rules may be applied within the phrase, one in the other, before one takes a token. -/
def Phrase.rank : {α : Type} → Phrase α → Nat
  | _, .expr _ _ => 2
  | _, .operators _ _ _ | _, .operand | _, .parameters => 1
  | _, .arguments | _, .body | _, .statement => 3
  | _, .statementForm .any | _, .program => 4
  | _, .operandForm _ | _, .postfixForm _ _ | _, .statementForm _ | _, .parameter => 0

theorem Phrase.rank_le {α : Type} (phrase : Phrase α) : phrase.rank ≤ 4 := by
  cases phrase with
  | statementForm form => cases form <;> simp [rank]
  | _ => simp [rank]

/-- Statements with a form of their own start with a token of that form. -/
theorem rank_lt_of_statementForm {k : Kind} {form : StatementForm}
    (h : standard.statementForm k = some form) : (Phrase.statementForm form).rank < 3 := by
  cases k <;> cases h <;> simp [Phrase.rank]

/-- Every infix operator of the standard table has an operator to build a tree with. -/
theorem standard_operator {k : Kind} {powers : InfixPowers}
    (h : standard.infixPowers k = some powers) :
    standard.assignOperator k ≠ none ∨ standard.binaryOperator k ≠ none := by
  cases k <;> cases h <;> simp [standard]

namespace Rule

open Parse

variable {t : Table} {read : {α : Type} → Phrase α → Parse α} {s : TokenStream}

theorem combine_answers {assignable : Bool} {operator : Token} {left right : Expr}
    (h : t.assignOperator operator.kind ≠ none ∨ t.binaryOperator operator.kind ≠ none) :
    (combine t assignable operator left right s).Answers := by
  unfold combine
  cases ha : t.assignOperator operator.kind with
  | some o => cases assignable <;> simp [Reply.Answers]
  | none =>
      cases hb : t.binaryOperator operator.kind with
      | some o => exact answers_ok
      | none => simp [ha, hb] at h

section

variable (hlater : ∀ {α : Type} (phrase : Phrase α) {s' : TokenStream}, s'.remaining < s.remaining →
    (read phrase s').Answers)

include hlater

theorem postfixForm_answers (hadvance : s.advance.remaining < s.remaining) (form : PostfixForm)
    (subject : Expr) : (postfixForm read form subject s).Answers := by
  cases form with
  | member => exact answers_advance_bind (answers_expect_bind fun _ => answers_ok)
  | index =>
      refine answers_advance_bind (answers_bind (hlater _ hadvance) fun key s₁ h₁ => ?_)
      exact answers_expect_bind fun _ => answers_ok
  | call =>
      refine answers_advance_bind (answers_bind (hlater _ hadvance) fun given s₁ h₁ => ?_)
      exact answers_expect_bind fun _ => answers_ok

theorem jumpValue_answers (hadvance : s.advance.remaining < s.remaining) :
    (jumpValue read s).Answers := by
  refine answers_advance_bind (answers_kind_bind (answers_ite (fun _ => ?_) fun _ => ?_))
  · exact answers_expect_bind fun _ => answers_ok
  · apply answers_bind (hlater _ hadvance)
    intro value s₁ h₁
    exact answers_expect_bind fun _ => answers_ok

theorem defaultValue_answers {s' : TokenStream} (hle : s'.remaining < s.remaining) :
    (defaultValue read s').Answers := by
  refine answers_kind_bind (answers_ite (fun _ => answers_advance_bind ?_) fun _ => answers_ok)
  have hadvance := s'.remaining_advance_le
  exact answers_bind (hlater _ (by omega)) fun value s₁ _ => answers_ok

theorem parameter_answers : (parameter read s).Answers := by
  refine answers_bind (answers_expect_bind fun _ => answers_ok) ?_
  intro subject s₁ h₁
  have hle₁ := pattern_takes h₁
  refine answers_kind_bind (answers_ite (fun _ => answers_advance_bind ?_) fun _ => ?_)
  · have hle₂ := s₁.remaining_advance_le
    refine answers_bind (answers_expect_bind fun _ => answers_ok) ?_
    intro type s₂ h₂
    have hle₃ := typeName_takes h₂
    refine answers_bind ?_ fun value s₃ _ => answers_ok
    exact defaultValue_answers hlater (by omega)
  · refine answers_bind ?_ fun value s₂ _ => answers_ok
    exact defaultValue_answers hlater (by omega)

variable (htakes : Takes read)

include htakes

theorem operandForm_answers (hadvance : s.advance.remaining < s.remaining) (form : OperandForm) :
    (operandForm read form s).Answers := by
  cases form with
  | grouping =>
      refine answers_advance_bind (answers_bind (hlater _ hadvance) fun e s₁ h₁ => ?_)
      exact answers_expect_bind fun _ => answers_ok
  | ifElse =>
      refine answers_advance_bind (answers_bind (hlater _ hadvance) fun condition s₁ h₁ => ?_)
      have hle₁ := htakes _ h₁
      apply answers_bind (hlater _ (by omega))
      intro truthy s₂ h₂
      have hle₂ := htakes _ h₂
      have hle₃ := s₂.remaining_advance_le
      refine answers_kind_bind (answers_ite (fun _ => answers_advance_bind ?_) fun _ => answers_ok)
      exact answers_bind (hlater _ (by omega)) fun falsy s₃ _ => answers_ok
  | whileLoop =>
      refine answers_advance_bind (answers_bind (hlater _ hadvance) fun condition s₁ h₁ => ?_)
      have hle₁ := htakes _ h₁
      exact answers_bind (hlater _ (by omega)) fun body s₂ _ => answers_ok
  | forLoop =>
      refine answers_advance_bind (answers_bind ?_ fun subject s₁ h₁ => ?_)
      · exact answers_expect_bind fun _ => answers_ok
      · have hle₁ := pattern_takes h₁
        refine answers_expect_bind fun _ => ?_
        have hle₂ := s₁.remaining_advance_le
        apply answers_bind (hlater _ (by omega))
        intro iterable s₂ h₂
        have hle₃ := htakes _ h₂
        exact answers_bind (hlater _ (by omega)) fun body s₃ _ => answers_ok
  | block =>
      refine answers_expect_bind fun _ => ?_
      apply answers_bind (hlater _ hadvance)
      intro parts s₁ h₁
      exact answers_expect_bind fun _ => answers_ok
  | atom =>
      show ((current >>= _) s).Answers
      rw [current_bind]
      cases s.peek.atom with
      | ok e => exact answers_ok
      | error problem => exact answers_reject

theorem function_answers (hadvance : s.advance.remaining < s.remaining) :
    (function read s).Answers := by
  refine answers_advance_bind (answers_expect_bind fun _ => answers_expect_bind fun _ => ?_)
  have hle₁ := s.advance.remaining_advance_le
  have hle₂ := s.advance.advance.remaining_advance_le
  apply answers_bind (hlater _ (by omega))
  intro parameters s₁ h₁
  have hle₃ := htakes _ h₁
  have hle₄ := s₁.remaining_advance_le
  refine answers_expect_bind fun _ => answers_kind_bind (answers_ite (fun _ => ?_) fun _ => ?_)
  · refine answers_advance_bind (answers_bind ?_ fun result s₂ h₂ => ?_)
    · exact answers_expect_bind fun _ => answers_ok
    · have hle₅ := s₁.advance.remaining_advance_le
      have hle₆ := typeName_takes h₂
      exact answers_bind (hlater _ (by omega)) fun body s₃ _ => answers_ok
  · exact answers_bind (hlater _ (by omega)) fun body s₂ _ => answers_ok

/-- All statements with a form of their own start with their keyword. -/
theorem statementForm_answers (hadvance : s.advance.remaining < s.remaining) (form : StatementForm)
    (hany : form = .any → (read .statement s).Answers) :
    (statementForm read form s).Answers := by
  have hjump := jumpValue_answers hlater hadvance
  cases form with
  | classDef => exact answers_reject
  | function => exact function_answers hlater htakes hadvance
  | letIn =>
      refine answers_advance_bind (answers_bind (hlater _ hadvance) fun p s₁ h₁ => ?_)
      exact answers_expect_bind fun _ => answers_ok
  | returning => exact answers_bind hjump fun _ _ _ => answers_ok
  | breaking => exact answers_bind hjump fun _ _ _ => answers_ok
  | continuing => exact answers_bind hjump fun _ _ _ => answers_ok
  | any => exact hany rfl

/-- A list with commas in between: its first element is read where the list starts. -/
theorem separated_answers {α : Type} {first : Phrase α} {more : Phrase (List α)}
    (hmin : first.minimum = 1) (hfirst : (read first s).Answers) :
    ((do
        if (← kind) = .closeParen then return []
        let a ← read first
        if (← kind) = .comma then
          let _ ← advance
          let rest ← read more
          return a :: rest
        else
          return [a] : Parse (List α)) s).Answers := by
  refine answers_kind_bind (answers_ite (fun _ => answers_ok) fun _ => ?_)
  apply answers_bind hfirst
  intro a s₁ h₁
  have hle₁ := htakes _ h₁
  have hle₂ := s₁.remaining_advance_le
  refine answers_kind_bind (answers_ite (fun _ => answers_advance_bind ?_) fun _ => answers_ok)
  exact answers_bind (hlater _ (by omega)) fun rest s₂ _ => answers_ok

/-- The loop goes on behind a postfix form or an operand, both of which take a token. -/
theorem operators_answers (hadvance : s.advance.remaining < s.remaining) {least : Nat}
    {assignable : Bool} {left : Expr} (hhere : ∀ form, (read (.postfixForm form left) s).Answers) :
    (operators standard read least assignable left s).Answers := by
  rcases standard.stopsAt_or least s.peek.kind with
    hstops | ⟨power, form, hp, hle⟩ | ⟨hp, powers, hi, hle⟩
  · rw [operators_of_stopsAt hstops]
    exact answers_ok
  · rw [operators_of_postfixForm hp hle]
    apply answers_bind (hhere form)
    intro e s₁ h₁
    exact hlater _ (htakes _ h₁)
  · rw [operators_of_infixPowers hp hi hle]
    apply answers_bind (hlater _ hadvance)
    intro right s₁ h₁
    apply answers_bind (combine_answers (standard_operator hi))
    intro e s₂ h₂
    obtain ⟨rfl, -⟩ := combine_eq_ok.mp h₂
    have htaken := htakes _ h₁
    exact hlater _ (by omega)

/-- What follows an expression in a block makes it a statement, or ends the block. -/
theorem body_answers
    (hform : ∀ form, standard.statementForm s.peek.kind = some form →
      (read (.statementForm form) s).Answers)
    (hexpr : (read (.expr 0 true) s).Answers) : (body standard read s).Answers := by
  refine answers_kind_bind (answers_ite (fun _ => answers_ok) fun _ => ?_)
  cases hf : standard.statementForm s.peek.kind with
  | some form =>
      apply answers_bind (hform form hf)
      intro first s₁ h₁
      have htaken := htakes _ h₁
      exact answers_bind (hlater _ htaken) fun _ _ _ => answers_ok
  | none =>
      apply answers_bind hexpr
      intro e s₁ h₁
      have htaken := htakes _ h₁
      have hle := s₁.remaining_advance_le
      refine answers_kind_bind ?_
      generalize s₁.peek.kind = k
      cases k with
      | semicolon =>
          refine answers_advance_bind (answers_bind (hlater _ ?_) fun _ _ _ => answers_ok)
          exact Nat.lt_of_le_of_lt hle htaken
      | closeCurly => exact answers_ok
      | _ => exact answers_reject

end

end Rule

/-! ## The standard table -/

section

open Parse Rule

variable {read : {α : Type} → Phrase α → Parse α} {s : TokenStream}

/-- **One rule of the standard table answers**, as long as a token is left, when the phrases inside
    it answer: where it starts those of a lower rank, and behind its first token all of them. -/
theorem standard_rule_answers (htakes : Takes read) (hpos : 0 < s.remaining) {α : Type}
    (phrase : Phrase α)
    (hhere : ∀ {β : Type} (inner : Phrase β), inner.rank < phrase.rank → (read inner s).Answers)
    (hlater : ∀ {β : Type} (inner : Phrase β) {s' : TokenStream}, s'.remaining < s.remaining →
      (read inner s').Answers) :
    (standard.rule read phrase s).Answers := by
  have hadvance := TokenStream.remaining_advance_lt hpos
  cases phrase with
  | expr least assignable =>
      apply answers_bind (hhere .operand (by simp [Phrase.rank]))
      intro left s₁ h₁
      have htaken := htakes _ h₁
      exact hlater _ htaken
  | operators least assignable left =>
      apply operators_answers hlater htakes hadvance
      intro form
      exact hhere (.postfixForm form left) (by simp [Phrase.rank])
  | operand =>
      refine answers_kind_bind ?_
      cases standard.prefixOperator s.peek.kind with
      | some entry =>
          refine answers_advance_bind (answers_bind (hlater _ hadvance) ?_)
          exact fun _ _ _ => answers_ok
      | none => exact hhere (.operandForm _) (by simp [Phrase.rank])
  | operandForm form => exact operandForm_answers hlater htakes hadvance form
  | postfixForm form subject => exact postfixForm_answers hlater hadvance form subject
  | arguments =>
      exact separated_answers hlater htakes rfl (hhere (.expr 0 false) (by simp [Phrase.rank]))
  | body =>
      apply body_answers hlater htakes
      · intro form hf
        exact hhere (.statementForm form) (rank_lt_of_statementForm hf)
      · exact hhere (.expr 0 true) (by simp [Phrase.rank])
  | statement =>
      refine answers_kind_bind ?_
      cases hf : standard.statementForm s.peek.kind with
      | some form => exact hhere (.statementForm form) (rank_lt_of_statementForm hf)
      | none =>
          apply answers_bind (hhere (.expr 0 true) (by simp [Phrase.rank]))
          intro e s₁ h₁
          exact answers_expect_bind fun _ => answers_ok
  | statementForm form =>
      refine statementForm_answers hlater htakes hadvance form ?_
      rintro rfl
      exact hhere .statement (by simp [Phrase.rank])
  | parameter => exact parameter_answers hlater
  | parameters =>
      exact separated_answers hlater htakes rfl (hhere .parameter (by simp [Phrase.rank]))
  | program =>
      refine answers_kind_bind (answers_ite (fun _ => answers_ok) fun _ => ?_)
      apply answers_bind (hhere .statement (by simp [Phrase.rank]))
      intro first s₁ h₁
      have htaken := htakes _ h₁
      exact answers_bind (hlater _ htaken) fun _ _ _ => answers_ok

/-- At the end of the input every phrase is done within a few rules. -/
theorem answers_at_end (depth : Nat) {α : Type} (phrase : Phrase α) (p : Position) :
    (standard.derive (depth + 6) phrase ⟨[], p⟩).Answers := by
  intro cause h
  -- six rules are few enough to be run on the empty stream
  cases phrase with
  | operandForm form => cases form <;> cases h
  | postfixForm form => cases form <;> cases h
  | statementForm form => cases form <;> cases h
  | _ => cases h

/-- **A derivation that is deep enough answers**, by induction on its depth. -/
theorem standard_derive_answers {depth : Nat} {α : Type} (phrase : Phrase α)
    (h : 8 * s.remaining + 6 + phrase.rank ≤ depth) :
    (standard.derive depth phrase s).Answers := by
  induction depth generalizing α s with
  | zero => omega
  | succ depth ih =>
      rcases Nat.eq_zero_or_pos s.remaining with hzero | hpos
      · -- no token is left to count by, but six more rules are
        obtain ⟨pending, finish⟩ := s
        obtain rfl : pending = [] := List.length_eq_zero_iff.mp hzero
        obtain ⟨extra, hextra⟩ := Nat.exists_eq_add_of_le' (show 6 ≤ depth + 1 by omega)
        rw [hextra]
        exact answers_at_end extra phrase finish
      · refine standard_rule_answers (standard.derive_takes depth) hpos phrase ?_ ?_
        · intro β inner hrank
          exact ih inner (by omega)
        · -- a token pays for eight rules, and the rank of the next phrase takes four of them
          intro β inner s' hlt
          have hrank := inner.rank_le
          exact ih inner (by omega)

/-- The depth that is set aside for a stream is enough for every phrase. -/
theorem standard_read_answers {α : Type} (phrase : Phrase α) :
    (standard.read phrase s).Answers := by
  have hrank := phrase.rank_le
  exact standard_derive_answers phrase (by simp only [depthFor]; omega)

/-- A derivation that is deep enough for the stream is a reading of it. -/
theorem derive_eq_read {depth : Nat} (hdepth : depthFor s.remaining ≤ depth) {α : Type}
    (phrase : Phrase α) : standard.derive depth phrase s = standard.read phrase s :=
  standard.derive_mono hdepth phrase s (standard_read_answers phrase _)

/-- A derivation of any depth gives the answer that reading gives, or none. -/
theorem standard_derive_follows_read (depth : Nat) :
    Coupling.same.Reads (standard.derive depth) standard.read := by
  refine fun phrase => ⟨?_, False.elim⟩
  rintro s _ rfl
  have hdeeper : Parse.Follows .same Eq (standard.derive depth phrase)
      (standard.derive (max depth (depthFor s.remaining)) phrase) :=
    standard.derive_follows .same (Nat.le_max_left _ _) phrase
  have hreply := hdeeper.reply (show Coupling.same.streams s s from rfl)
  rw [derive_eq_read (Nat.le_max_right depth (depthFor s.remaining))] at hreply
  exact hreply

/-- **Readings of coupled streams run in lockstep**, whatever depth is set aside for each. -/
theorem standard_read_follows (c : Coupling) : c.Reads standard.read standard.read := by
  intro α phrase
  constructor
  · intro s s' hs
    have hfollows : Parse.Follows c Eq
        (standard.derive (max (depthFor s.remaining) (depthFor s'.remaining)) phrase)
        (standard.derive (max (depthFor s.remaining) (depthFor s'.remaining)) phrase) :=
      standard.derive_follows c (Nat.le_refl _) phrase
    have hreply := hfollows.reply hs
    rw [derive_eq_read (Nat.le_max_left _ _), derive_eq_read (Nat.le_max_right _ _)] at hreply
    exact hreply
  · intro s hs
    have hfollows : Parse.Follows c Eq (standard.derive (depthFor s.remaining) phrase)
        (standard.derive (depthFor s.remaining) phrase) :=
      standard.derive_follows c (Nat.le_refl _) phrase
    exact hfollows.past hs

/-- **Reading is its own rule**: the bound on the depth plays no part. -/
theorem standard_read_eq {α : Type} (phrase : Phrase α) (s : TokenStream) :
    standard.read phrase s = standard.rule standard.read phrase s := by
  have hanswers : (standard.read phrase s).Answers := standard_read_answers phrase
  -- a reading is one rule over a derivation, and the readings inside it give the same answers
  have hfollows : Parse.Follows .same Eq (standard.derive (depthFor s.remaining) phrase)
      (standard.rule standard.read phrase) :=
    Table.rule_follows (standard_derive_follows_read (8 * s.remaining + 15)) phrase
  exact ((hfollows.reply_of_never (fun _ => id) rfl).eq_of_same (hanswers _)).symm

end
end ExprLang
