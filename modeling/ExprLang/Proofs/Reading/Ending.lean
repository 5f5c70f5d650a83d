import ExprLang.Proofs.Reading.Depth

/-!
# `Proofs.Reading.Ending` — reading ends

A stream answers with the end of the input for ever, so nothing about a stream makes a reader stop.
What does is that a phrase which is no loop takes a token whenever it is read with success, and that
a loop goes on to its next round only behind such a phrase. The second half is said without looking
into a rule: on a stream `s`, the answer of a loop does not depend on how loops are read on `s`, or
on any stream that is no shorter.

From this it follows that a depth in proportion to the number of tokens is enough for every phrase
(`standard_derive_answers`). All of it holds of every list of tokens, also of one without the end of
the input, or with that or malformed tokens in the middle.

## Contents
- `Phrase.Repeats`: the phrases that are read in rounds.
- `AgreeBelow`: readers that differ only in how they read loops on streams no shorter than a given
  one.
- `Table.rule_eq_of_agreeBelow`: every round of a loop takes a token.
- `reading_ends`: reading with the standard table.
-/

namespace ExprLang

/-! ## Loops -/

/-- The phrase is read in rounds: operators behind an expression, arguments, the statements of a
    block, parameters, and the statements of a program. -/
def Phrase.Repeats : {α : Type} → Phrase α → Prop
  | _, .operators _ _ _ | _, .arguments | _, .body | _, .parameters | _, .program => True
  | _, _ => False

instance {α : Type} (phrase : Phrase α) : Decidable phrase.Repeats :=
  match phrase with
  | .operators _ _ _ | .arguments | .body | .parameters | .program => isTrue trivial
  | .expr _ _ | .operand | .operandForm _ | .postfixForm _ _ | .statement | .statementForm _
  | .parameter => isFalse id

/-- All other phrases are made of one token at least. -/
theorem Phrase.minimum_of_not_repeats {α : Type} {phrase : Phrase α} (h : ¬phrase.Repeats) :
    phrase.minimum = 1 := by
  cases phrase with
  | operators | arguments | body | parameters | program => exact absurd trivial h
  | _ => rfl

/-- The two readers read all phrases alike, except that they may differ in how they read a loop on a
    stream that is no shorter than `s`. -/
def AgreeBelow (s : TokenStream) (read read' : {α : Type} → Phrase α → Parse α) : Prop :=
  ∀ {α : Type} (phrase : Phrase α) (s' : TokenStream),
    (phrase.Repeats → s'.remaining < s.remaining) → read phrase s' = read' phrase s'

namespace AgreeBelow

variable {read read' : {α : Type} → Phrase α → Parse α} {s : TokenStream} {α : Type}

theorem once (h : AgreeBelow s read read') {phrase : Phrase α} (hphrase : ¬phrase.Repeats)
    (s' : TokenStream) : read phrase s' = read' phrase s' :=
  h phrase s' fun hrepeats => absurd hrepeats hphrase

theorem shorter (h : AgreeBelow s read read') (phrase : Phrase α) {s' : TokenStream}
    (hlt : s'.remaining < s.remaining) : read phrase s' = read' phrase s' :=
  h phrase s' fun _ => hlt

end AgreeBelow

/-! ## Every round takes a token -/

/-- A reader that answers leaves a value, once its failures are values too. -/
theorem Parse.recover_of_answers {α : Type} {p : Parse α} {onError : Diagnostic → α}
    {s : TokenStream} (h : (p s).Answers) : ∃ a rest, p.recover onError s = .ok a rest := by
  rcases h.ok_or_error with ⟨a, rest, hp⟩ | ⟨d, rest, hp⟩
  · exact ⟨a, rest, by rw [recover, hp]⟩
  · exact ⟨onError d, rest, by rw [recover, hp]⟩

namespace Rule

open Parse

variable {t : Table} {read read' : {α : Type} → Phrase α → Parse α} {s : TokenStream}
  (htakes : Takes read) (hagree : AgreeBelow s read read')

include htakes hagree

/-- The operators go on behind a postfix form, or behind an operator and its right operand. -/
theorem operators_eq_of_agreeBelow {least : Nat} {assignable : Bool} {left : Expr} :
    operators t read least assignable left s = operators t read' least assignable left s := by
  rcases t.stopsAt_or least s.peek.kind with
    hstops | ⟨power, form, hp, hle⟩ | ⟨hp, powers, hi, hle⟩
  · rw [operators_of_stopsAt hstops, operators_of_stopsAt hstops]
  · rw [operators_of_postfixForm hp hle, operators_of_postfixForm hp hle]
    refine bind_eq_of_eq (hagree.once id s) fun e s₁ h₁ => ?_
    have htaken := htakes _ h₁
    exact hagree.shorter _ htaken
  · rw [operators_of_infixPowers hp hi hle, operators_of_infixPowers hp hi hle]
    refine bind_eq_of_eq (hagree.once id s.advance) fun right s₁ h₁ => bind_eq_of_eq rfl fun e s₂ h₂ => ?_
    obtain ⟨rfl, -⟩ := combine_eq_ok.mp h₂
    have htaken := htakes _ h₁
    have hadvance := s.remaining_advance_le
    exact hagree.shorter _ (Nat.lt_of_lt_of_le htaken hadvance)

/-- A list with commas in between goes on behind an element and its comma. -/
theorem separated_eq_of_agreeBelow {α : Type} {first : Phrase α} {more : Phrase (List α)}
    (hfirst : ¬first.Repeats) :
    (do
        if (← kind) = .closeParen then return []
        let a ← read first
        if (← kind) = .comma then
          let _ ← advance
          let rest ← read more
          return a :: rest
        else
          return [a] : Parse (List α)) s =
      (do
        if (← kind) = .closeParen then return []
        let a ← read' first
        if (← kind) = .comma then
          let _ ← advance
          let rest ← read' more
          return a :: rest
        else
          return [a] : Parse (List α)) s := by
  rw [kind_bind, kind_bind]
  by_cases hclose : s.peek.kind = .closeParen
  · rw [if_pos hclose, if_pos hclose]
  · rw [if_neg hclose, if_neg hclose]
    refine bind_eq_of_eq (hagree.once hfirst s) fun a s₁ h₁ => ?_
    have htaken := htakes _ h₁
    have hadvance := s₁.remaining_advance_le
    rw [Phrase.minimum_of_not_repeats hfirst] at htaken
    rw [kind_bind, kind_bind]
    by_cases hcomma : s₁.peek.kind = .comma
    · rw [if_pos hcomma, if_pos hcomma, advance_bind, advance_bind]
      exact bind_eq_of_eq (hagree.shorter _ (by omega)) fun _ _ _ => rfl
    · rw [if_neg hcomma, if_neg hcomma]

/-- A body goes on behind a statement, or behind an expression and its semicolon. -/
theorem body_eq_of_agreeBelow : body t read s = body t read' s := by
  rw [body, body, kind_bind, kind_bind]
  by_cases hend : s.peek.kind = .closeCurly ∨ s.peek.kind = .eof
  · rw [if_pos hend, if_pos hend]
  · rw [if_neg hend, if_neg hend]
    cases t.statementForm s.peek.kind with
    | some form =>
        refine bind_eq_of_eq (hagree.once id s) fun first s₁ h₁ => ?_
        have htaken := htakes _ h₁
        exact bind_eq_of_eq (hagree.shorter _ htaken) fun _ _ _ => rfl
    | none =>
        refine bind_eq_of_eq (hagree.once id s) fun e s₁ h₁ => ?_
        have htaken := htakes _ h₁
        have hadvance := s₁.remaining_advance_le
        rw [kind_bind, kind_bind]
        generalize s₁.peek.kind = k
        cases k with
        | semicolon =>
            have hlt : s₁.advance.remaining < s.remaining := Nat.lt_of_le_of_lt hadvance htaken
            dsimp only
            rw [advance_bind, advance_bind]
            exact bind_eq_of_eq (hagree.shorter _ hlt) fun _ _ _ => rfl
        | _ => rfl

/-- A program goes on behind a statement. -/
theorem program_eq_of_agreeBelow : program read s = program read' s := by
  rw [program, program, kind_bind, kind_bind]
  by_cases hend : s.peek.kind = .eof
  · rw [if_pos hend, if_pos hend]
  · rw [if_neg hend, if_neg hend]
    refine bind_eq_of_eq (hagree.once id s) fun first s₁ h₁ => ?_
    have htaken := htakes _ h₁
    exact bind_eq_of_eq (hagree.shorter _ htaken) fun _ _ _ => rfl

end Rule

open Rule in
/-- **Every round of a loop takes a token**, whatever the table says: what a loop is read as on `s`
    depends on loops only as far as they are read on shorter streams. -/
theorem Table.rule_eq_of_agreeBelow (t : Table) {read read' : {α : Type} → Phrase α → Parse α}
    {s : TokenStream} (htakes : Takes read) (hagree : AgreeBelow s read read') {α : Type}
    {phrase : Phrase α} (hrepeats : phrase.Repeats) : t.rule read phrase s = t.rule read' phrase s := by
  cases phrase with
  | operators least assignable left => exact operators_eq_of_agreeBelow htakes hagree
  | arguments => exact separated_eq_of_agreeBelow htakes hagree id
  | body => exact body_eq_of_agreeBelow htakes hagree
  | parameters => exact separated_eq_of_agreeBelow htakes hagree id
  | program => exact program_eq_of_agreeBelow htakes hagree
  | _ => exact absurd hrepeats id

/-! ## The standard table -/

/-- Reading takes what it must. -/
theorem standard_read_takes : Takes standard.read :=
  fun {_} phrase {s} {_} {_} h => standard.derive_takes (depthFor s.remaining) phrase h

/-- **Reading ends**, on every list of tokens:
    - statements and expressions are read to a tree, into which a diagnostic may have been put;
    - a depth of eight rules for each token, and sixteen more, is enough for every phrase: any such
      depth gives a tree or a diagnostic, and always the same;
    - whatever is no loop, such as an expression, a statement or a block, takes a token when it is
      read with success, down to any depth;
    - every round of a loop takes a token: loops may be read in any way on streams that are no
      shorter, and it makes no difference to what a loop is read as. -/
theorem reading_ends (s : TokenStream) :
    ((∃ statements rest, standard.readStatements s = .ok statements rest) ∧
      ∀ assignable, ∃ e rest, standard.readExpression assignable s = .ok e rest) ∧
    (∀ {α : Type} (phrase : Phrase α) (depth : Nat), 8 * (s.remaining + 2) ≤ depth →
      (standard.derive depth phrase s).Answers ∧
      standard.derive depth phrase s = standard.read phrase s) ∧
    (∀ {α : Type} (phrase : Phrase α) (depth : Nat) (v : α) (rest : TokenStream),
      ¬phrase.Repeats → standard.derive depth phrase s = .ok v rest →
        rest.remaining < s.remaining) ∧
    (∀ {α : Type} (loop : Phrase α) (read' : {α : Type} → Phrase α → Parse α),
      loop.Repeats → AgreeBelow s standard.read read' →
        standard.rule read' loop s = standard.read loop s) := by
  refine ⟨⟨?_, fun assignable => ?_⟩, fun phrase depth hdepth => ?_,
    fun phrase depth v rest honce h => ?_, fun loop read' hrepeats hagree => ?_⟩
  · exact Parse.recover_of_answers (standard_read_answers .program)
  · exact Parse.recover_of_answers (standard_read_answers (.expr 0 assignable))
  · have heq : standard.derive depth phrase s = standard.read phrase s := derive_eq_read hdepth phrase
    have hanswers : (standard.read phrase s).Answers := standard_read_answers phrase
    exact ⟨heq ▸ hanswers, heq⟩
  · have htaken := standard.derive_takes depth phrase h
    rw [Phrase.minimum_of_not_repeats honce] at htaken
    exact htaken
  · rw [standard_read_eq]
    exact (standard.rule_eq_of_agreeBelow standard_read_takes hagree hrepeats).symm

/-- The end of the input stands in the middle of a call here, and a comma behind it. A reader that
    reads no loop on a stream as long as this one is as good as any for the program that begins
    here. -/
theorem reading_ends_inside_call :
    let s := TokenStream.ofKinds [(.identifier, "f"), (.openParen, "("), (.eof, ""), (.comma, ",")]
    let read' : {α : Type} → Phrase α → Parse α := fun phrase s' =>
      if phrase.Repeats ∧ s.remaining ≤ s'.remaining then .halt .outOfFuel
      else standard.read phrase s'
    (∃ statements rest, standard.readStatements s = .ok statements rest) ∧
    (standard.derive 48 .program s).Answers ∧
    s.advance.remaining < s.remaining ∧
    standard.rule read' .program s = standard.read .program s := by
  intro s read'
  obtain ⟨⟨hstatements, -⟩, henough, honce, hloops⟩ := reading_ends s
  refine ⟨hstatements, (henough .program 48 (by decide)).1, ?_, hloops .program read' trivial ?_⟩
  · exact honce .operand 2 (.name "f") s.advance id rfl
  · intro α phrase s' hshorter
    exact (if_neg fun h => absurd (hshorter h.1) (Nat.not_lt.mpr h.2)).symm

end ExprLang
