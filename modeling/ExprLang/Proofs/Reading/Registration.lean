import ExprLang.Proofs.Reading.Depth

/-!
# `Proofs.Reading.Registration` — no infix operator is ever missing

A table keeps the powers of infix operators apart from the operators themselves, and reading relies
on them being in step: a token that has infix powers must have an operator to build a tree with. All
entries are made by `register`, which never enters powers alone and never takes an entry out. So the
kinds with infix powers are at all times those with an operator, and the one rule that asks for the
operator of a token has found its powers first.

## Contents
- `Table.Matched`: powers and operators in step.
- `Table.Matched.register`: kept by every entry.
- `Parse.Equipped`: readers that never miss an operator.
- `Table.rule_equipped`, `Table.derive_equipped`: one rule, and a whole derivation.
- `Session`, `Session.Reachable`: a table and a stream, changed by entries and by readings.
- `operators_registered`: no reading in a session misses an operator.
-/

namespace ExprLang

/-! ## Powers and operators in step -/

namespace Table

/-- The kinds with infix powers are those with a binary operator or an assignment operator. -/
def Matched (t : Table) : Prop :=
  ∀ k, (t.infixPowers k).isSome ↔ (t.binaryOperator k).isSome ∨ (t.assignOperator k).isSome

theorem matched_standard : standard.Matched := by
  intro k
  cases k <;> decide

/-- An entry is there from then on, and the others are as they were. -/
theorem isSome_enter {α : Type} (f : Kind → Option α) (kind : Kind) (v : α) (k : Kind) :
    (enter f kind v k).isSome ↔ k = kind ∨ (f k).isSome := by
  by_cases hk : k = kind
  · rw [hk, enter_self]
    simp
  · rw [enter_of_ne f v hk]
    simp [hk]

variable {t : Table}

/-- **Every entry keeps them in step**, also one in place of another. -/
theorem Matched.register (h : t.Matched) (entry : Registration) : (t.register entry).Matched := by
  intro k
  have hk := h k
  cases entry with
  | binaryOperator kind powers operator =>
      simp only [Table.register, isSome_enter, hk, or_assoc]
  | assignOperator kind operator =>
      simp only [Table.register, isSome_enter, hk, or_left_comm]
  | _ => exact hk

/-- In a matched table, infix powers come with an operator. -/
theorem Matched.operator (h : t.Matched) {k : Kind} {powers : InfixPowers}
    (hk : t.infixPowers k = some powers) :
    t.assignOperator k ≠ none ∨ t.binaryOperator k ≠ none := by
  have hsome : (t.infixPowers k).isSome := by rw [hk]; rfl
  rcases (h k).mp hsome with hbinary | hassign
  · exact Or.inr (Option.isSome_iff_ne_none.mp hbinary)
  · exact Or.inl (Option.isSome_iff_ne_none.mp hassign)

end Table

/-! ## Readers that never miss an operator -/

/-- The reader never ends for want of an operator. -/
def Parse.Equipped {α : Type} (p : Parse α) : Prop := ∀ s k, p s ≠ .halt (.noOperator k)

namespace Parse

variable {α β : Type}

theorem Equipped.of_answers {p : Parse α} (h : ∀ s, (p s).Answers) : p.Equipped :=
  fun s k => h s (.noOperator k)

theorem equipped_pure {a : α} : (pure a : Parse α).Equipped := .of_answers fun _ => answers_ok

theorem equipped_reject {problem : Problem} : (reject problem : Parse α).Equipped :=
  .of_answers fun _ => answers_reject

theorem equipped_expect {k : Kind} {what : String} : (expect k what).Equipped :=
  .of_answers fun _ => answers_expect

/-- **A sequence never misses an operator** if neither of its halves does. -/
theorem Equipped.bind {p : Parse α} {f : α → Parse β} (hp : p.Equipped)
    (hf : ∀ a, (f a).Equipped) : (p >>= f).Equipped := by
  intro s k
  rw [bind_apply]
  cases hps : p s with
  | ok a s₁ => exact hf a s₁ k
  | error d s₁ => simp
  | halt cause =>
      intro h
      cases h
      exact hp s k hps

theorem equipped_current_bind {f : Token → Parse β} (hf : ∀ t, (f t).Equipped) :
    (current >>= f).Equipped := fun s => hf s.peek s

theorem equipped_kind_bind {f : Kind → Parse β} (hf : ∀ k, (f k).Equipped) :
    (kind >>= f).Equipped := fun s => hf s.peek.kind s

theorem equipped_advance_bind {f : Token → Parse β} (hf : ∀ t, (f t).Equipped) :
    (advance >>= f).Equipped := fun s => hf s.peek s.advance

theorem equipped_expect_bind {k : Kind} {what : String} {f : Token → Parse β}
    (hf : ∀ t, (f t).Equipped) : (expect k what >>= f).Equipped := equipped_expect.bind hf

theorem equipped_ite {c : Prop} [Decidable c] {p q : Parse α} (hp : p.Equipped) (hq : q.Equipped) :
    (if c then p else q).Equipped := by
  by_cases hc : c
  · rwa [if_pos hc]
  · rwa [if_neg hc]

theorem Equipped.recover {p : Parse α} (h : p.Equipped) (onError : Diagnostic → α) :
    (p.recover onError).Equipped := by
  intro s k
  rw [Parse.recover]
  cases hps : p s with
  | ok a s₁ => simp
  | error d s₁ => simp
  | halt cause =>
      intro hhalt
      cases hhalt
      exact h s k hps

end Parse

/-- A reader that never misses an operator, whatever phrase it reads. -/
def ReadsEquipped (read : {α : Type} → Phrase α → Parse α) : Prop :=
  ∀ {α : Type} (phrase : Phrase α), (read phrase).Equipped

/-! ## The rules -/

namespace Rule

open Parse

variable {t : Table} {read : {α : Type} → Phrase α → Parse α}

theorem typeName_equipped : typeName.Equipped := equipped_expect_bind fun _ => equipped_pure

theorem pattern_equipped : pattern.Equipped := equipped_expect_bind fun _ => equipped_pure

theorem atom_equipped : atom.Equipped := by
  refine equipped_current_bind fun token => ?_
  cases token.atom with
  | ok e => exact equipped_advance_bind fun _ => equipped_pure
  | error problem => exact equipped_reject

section

variable (hread : ReadsEquipped read)

include hread

/-- **The one rule that asks for an operator** has found the powers of its token. -/
theorem operators_equipped (ht : t.Matched) {least : Nat} {assignable : Bool} {left : Expr} :
    (operators t read least assignable left).Equipped := by
  refine equipped_current_bind fun token => ?_
  cases t.postfixForm token.kind with
  | some entry =>
      obtain ⟨power, form⟩ := entry
      exact equipped_ite equipped_pure ((hread _).bind fun _ => hread _)
  | none =>
      cases hpowers : t.infixPowers token.kind with
      | none => exact equipped_pure
      | some powers =>
          refine equipped_ite equipped_pure (equipped_advance_bind fun _ => ?_)
          refine (hread _).bind fun right => ?_
          have hcombine : (combine t assignable token left right).Equipped :=
            .of_answers fun _ => combine_answers (ht.operator hpowers)
          exact hcombine.bind fun _ => hread _

theorem operand_equipped : (operand t read).Equipped := by
  refine equipped_kind_bind fun k => ?_
  cases t.prefixOperator k with
  | some entry => exact equipped_advance_bind fun _ => (hread _).bind fun _ => equipped_pure
  | none => exact hread _

theorem operandForm_equipped (form : OperandForm) : (operandForm read form).Equipped := by
  cases form with
  | grouping =>
      refine equipped_advance_bind fun _ => (hread _).bind fun _ => ?_
      exact equipped_expect_bind fun _ => equipped_pure
  | ifElse =>
      refine equipped_advance_bind fun _ => (hread _).bind fun _ => (hread _).bind fun _ => ?_
      refine equipped_kind_bind fun _ => equipped_ite ?_ equipped_pure
      exact equipped_advance_bind fun _ => (hread _).bind fun _ => equipped_pure
  | whileLoop =>
      refine equipped_advance_bind fun _ => (hread _).bind fun _ => ?_
      exact (hread _).bind fun _ => equipped_pure
  | forLoop =>
      refine equipped_advance_bind fun _ => pattern_equipped.bind fun _ => ?_
      refine equipped_expect_bind fun _ => (hread _).bind fun _ => ?_
      exact (hread _).bind fun _ => equipped_pure
  | block =>
      refine equipped_expect_bind fun _ => (hread _).bind fun _ => ?_
      exact equipped_expect_bind fun _ => equipped_pure
  | atom => exact atom_equipped

theorem postfixForm_equipped (form : PostfixForm) (subject : Expr) :
    (postfixForm read form subject).Equipped := by
  cases form with
  | member => exact equipped_advance_bind fun _ => equipped_expect_bind fun _ => equipped_pure
  | index =>
      refine equipped_advance_bind fun _ => (hread _).bind fun _ => ?_
      exact equipped_expect_bind fun _ => equipped_pure
  | call =>
      refine equipped_advance_bind fun _ => (hread _).bind fun _ => ?_
      exact equipped_expect_bind fun _ => equipped_pure

/-- A list with commas in between misses nothing that its elements do not. -/
theorem separated_equipped {α : Type} {first : Phrase α} {more : Phrase (List α)} :
    (do
        if (← kind) = .closeParen then return []
        let a ← read first
        if (← kind) = .comma then
          let _ ← advance
          let rest ← read more
          return a :: rest
        else
          return [a] : Parse (List α)).Equipped := by
  refine equipped_kind_bind fun _ => equipped_ite equipped_pure ((hread _).bind fun _ => ?_)
  refine equipped_kind_bind fun _ => equipped_ite ?_ equipped_pure
  exact equipped_advance_bind fun _ => (hread _).bind fun _ => equipped_pure

theorem body_equipped : (body t read).Equipped := by
  refine equipped_kind_bind fun k => equipped_ite equipped_pure ?_
  cases t.statementForm k with
  | some form => exact (hread _).bind fun _ => (hread _).bind fun _ => equipped_pure
  | none =>
      refine (hread _).bind fun e => equipped_kind_bind fun k' => ?_
      cases k' with
      | semicolon => exact equipped_advance_bind fun _ => (hread _).bind fun _ => equipped_pure
      | closeCurly => exact equipped_pure
      | _ => exact equipped_reject

theorem statement_equipped : (Rule.statement t read).Equipped := by
  refine equipped_kind_bind fun k => ?_
  cases t.statementForm k with
  | some form => exact hread _
  | none => exact (hread _).bind fun _ => equipped_expect_bind fun _ => equipped_pure

theorem jumpValue_equipped : (jumpValue read).Equipped := by
  refine equipped_advance_bind fun _ => equipped_kind_bind fun _ => equipped_ite ?_ ?_
  · exact equipped_expect_bind fun _ => equipped_pure
  · exact (hread _).bind fun _ => equipped_expect_bind fun _ => equipped_pure

theorem function_equipped : (function read).Equipped := by
  refine equipped_advance_bind fun _ => equipped_expect_bind fun _ => equipped_expect_bind fun _ => ?_
  refine (hread _).bind fun _ => equipped_expect_bind fun _ => ?_
  refine equipped_kind_bind fun _ => equipped_ite ?_ ((hread _).bind fun _ => equipped_pure)
  refine equipped_advance_bind fun _ => typeName_equipped.bind fun _ => ?_
  exact (hread _).bind fun _ => equipped_pure

theorem statementForm_equipped (form : StatementForm) : (statementForm read form).Equipped := by
  cases form with
  | classDef => exact equipped_reject
  | function => exact function_equipped hread
  | letIn =>
      refine equipped_advance_bind fun _ => (hread _).bind fun _ => ?_
      exact equipped_expect_bind fun _ => equipped_pure
  | returning => exact (jumpValue_equipped hread).bind fun _ => equipped_pure
  | breaking => exact (jumpValue_equipped hread).bind fun _ => equipped_pure
  | continuing => exact (jumpValue_equipped hread).bind fun _ => equipped_pure
  | any => exact hread _

theorem defaultValue_equipped : (defaultValue read).Equipped := by
  refine equipped_kind_bind fun _ => equipped_ite ?_ equipped_pure
  exact equipped_advance_bind fun _ => (hread _).bind fun _ => equipped_pure

theorem parameter_equipped : (parameter read).Equipped := by
  have hvalue := defaultValue_equipped hread
  refine pattern_equipped.bind fun _ => equipped_kind_bind fun _ => equipped_ite ?_ ?_
  · refine equipped_advance_bind fun _ => typeName_equipped.bind fun _ => ?_
    exact hvalue.bind fun _ => equipped_pure
  · exact hvalue.bind fun _ => equipped_pure

end
end Rule

namespace Table

open Parse Rule

variable {t : Table}

/-- **One rule never misses an operator** when the readings inside it do not. -/
theorem rule_equipped (ht : t.Matched) {read : {α : Type} → Phrase α → Parse α}
    (hread : ReadsEquipped read) : ReadsEquipped (t.rule read) := by
  intro α phrase
  cases phrase with
  | expr least assignable => exact (hread _).bind fun _ => hread _
  | operators least assignable left => exact operators_equipped hread ht
  | operand => exact operand_equipped hread
  | operandForm form => exact operandForm_equipped hread form
  | postfixForm form subject => exact postfixForm_equipped hread form subject
  | arguments => exact separated_equipped hread
  | body => exact body_equipped hread
  | statement => exact statement_equipped hread
  | statementForm form => exact statementForm_equipped hread form
  | parameter => exact parameter_equipped hread
  | parameters => exact separated_equipped hread
  | program =>
      refine equipped_kind_bind fun _ => equipped_ite equipped_pure ?_
      exact (hread _).bind fun _ => (hread _).bind fun _ => equipped_pure

/-- **A whole derivation never misses an operator**, by induction on its depth. -/
theorem derive_equipped (ht : t.Matched) (depth : Nat) : ReadsEquipped (t.derive depth) := by
  induction depth with
  | zero =>
      intro α phrase s k h
      cases h
  | succ depth ih => exact rule_equipped ht ih

theorem read_equipped (ht : t.Matched) : ReadsEquipped t.read :=
  fun phrase s => derive_equipped ht (depthFor s.remaining) phrase s

end Table

/-! ## Sessions -/

/-- A table and a stream that is read with it. -/
structure Session where
  table : Table
  stream : TokenStream

/-- The session has come about from the standard table by entries and by readings. A reading, with
    whatever reader, moves the stream on, also when it fails, and leaves the table as it is. -/
inductive Session.Reachable : Session → Prop where
  | start (stream : TokenStream) : Reachable ⟨standard, stream⟩
  | register {session : Session} (h : Reachable session) (entry : Registration) :
      Reachable ⟨session.table.register entry, session.stream⟩
  | read {session : Session} (h : Reachable session) {α : Type} (p : Parse α) {v : α}
      {rest : TokenStream} (hread : p session.stream = .ok v rest) :
      Reachable ⟨session.table, rest⟩
  | fail {session : Session} (h : Reachable session) {α : Type} (p : Parse α) {d : Diagnostic}
      {rest : TokenStream} (hread : p session.stream = .error d rest) :
      Reachable ⟨session.table, rest⟩

/-- **One step of a session keeps its table matched**, and so does a whole session. -/
theorem Session.Reachable.matched {session : Session} (h : session.Reachable) :
    session.table.Matched := by
  induction h with
  | start => exact Table.matched_standard
  | register _ entry ih => exact ih.register entry
  | read _ _ _ ih | fail _ _ _ ih => exact ih

/-- **No operator is ever missing.** Whatever has been registered and read before, the kinds with
    infix powers are those with an operator, and no phrase, on no stream and down to no depth, is
    read to the point where a token has infix powers and no operator. -/
theorem operators_registered {session : Session} (h : session.Reachable) :
    (∀ k, (session.table.infixPowers k).isSome ↔
      (session.table.binaryOperator k).isSome ∨ (session.table.assignOperator k).isSome) ∧
    (∀ (depth : Nat) {α : Type} (phrase : Phrase α) (s : TokenStream) (k : Kind),
      session.table.derive depth phrase s ≠ .halt (.noOperator k)) ∧
    (∀ (s : TokenStream) (k : Kind),
      session.table.readStatements s ≠ .halt (.noOperator k) ∧
      (∀ assignable, session.table.readExpression assignable s ≠ .halt (.noOperator k)) ∧
      readType s ≠ .halt (.noOperator k) ∧ readPattern s ≠ .halt (.noOperator k)) := by
  have hmatched := h.matched
  have hread : ReadsEquipped session.table.read := Table.read_equipped hmatched
  refine ⟨hmatched, fun depth α phrase => Table.derive_equipped hmatched depth phrase, ?_⟩
  intro s k
  refine ⟨(hread .program).recover _ s k, ?_, Rule.typeName_equipped.recover _ s k,
    Rule.pattern_equipped.recover _ s k⟩
  exact fun assignable => (hread (.expr 0 assignable)).recover _ s k

/-- A sum that has become an assignment, `a + b`, and after it an assignment that may be a power. -/
theorem operators_registered_sum :
    let t := standard.register (.assignOperator .plus .add)
    let t' := t.register (.binaryOperator .assignment ⟨26, 25⟩ .power)
    let s : TokenStream := .ofKinds [(.identifier, "a"), (.plus, "+"), (.identifier, "b")]
    Session.Reachable ⟨t', ⟨[], ⟨1, 3⟩⟩⟩ ∧
      t.readExpression true s = .ok (.assign .add (.name "a") (.name "b")) ⟨[], ⟨1, 3⟩⟩ ∧
      ∀ k, t'.readExpression true s ≠ .halt (.noOperator k) := by
  intro t t' s
  have hread : t.readExpression true s =
      .ok (.assign .add (.name "a") (.name "b")) ⟨[], ⟨1, 3⟩⟩ := by rfl
  have hstart : Session.Reachable ⟨t, s⟩ := (Session.Reachable.start s).register _
  have hrest : Session.Reachable ⟨t, ⟨[], ⟨1, 3⟩⟩⟩ := hstart.read (t.readExpression true) hread
  have hsession : Session.Reachable ⟨t', ⟨[], ⟨1, 3⟩⟩⟩ := hrest.register _
  exact ⟨hsession, hread, fun k => ((operators_registered hsession).2.2 s k).2.1 true⟩

end ExprLang
