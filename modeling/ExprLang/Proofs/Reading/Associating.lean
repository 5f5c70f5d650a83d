import ExprLang.Proofs.Reading.Chains

/-!
# `Proofs.Reading.Associating` — the side to which an operator associates

In a chain whose operators all have the same powers there is only one question: whether the right
operand of an operator may start with another one. It may exactly if the left power is at least the
right one, and then it always does. So the chain nests to the left if the right power is above the
left one, and to the right otherwise; equal powers nest to the right.

Nothing here follows the loop. That a chain is read as a balanced bracketing says which right
operands are possible, and of the bracketings of a chain only one is left.

## Contents
- `Bracketing.first`, `Bracketing.steps`: the chain that a bracketing was made of.
- `LeansLeft`, `LeansRight`: bracketings that nest to one side.
- `Table.Balanced.leansLeft`, `Table.Balanced.leansRight`: equal powers throughout.
- `leftNested`, `rightNested`: the trees they stand for.
- `chain_associates`: a chain of one registered operator.
-/

namespace ExprLang

/-! ## The chain of a bracketing -/

theorem joined_append (steps steps' : List (Token × Token)) :
    joined (steps ++ steps') = joined steps ++ joined steps' := List.flatMap_append

/-- The steps of a chain can be read off its tokens. -/
theorem joined_injective {steps steps' : List (Token × Token)} (h : joined steps = joined steps') :
    steps = steps' := by
  induction steps generalizing steps' with
  | nil =>
      cases steps' with
      | nil => rfl
      | cons step' steps' => cases h
  | cons step steps ih =>
      cases steps' with
      | nil => cases h
      | cons step' steps' =>
          rw [joined_cons, joined_cons, List.cons.injEq, List.cons.injEq] at h
          rw [Prod.ext h.1 h.2.1, ih h.2.2]

namespace Bracketing

/-- The first token of the tree. -/
def first : Bracketing → Token
  | operand token => token
  | operation _ left _ => left.first

/-- The operators of the tree in their order, each with the token behind it. -/
def steps : Bracketing → List (Token × Token)
  | operand _ => []
  | operation operator left right => left.steps ++ (operator, right.first) :: right.steps

/-- The tokens of a tree are a chain. -/
theorem tokens_eq_chain (b : Bracketing) : b.tokens = b.first :: joined b.steps := by
  induction b with
  | operand token => rfl
  | operation operator left right hleft hright =>
      unfold tokens first steps
      rw [hleft, hright, joined_append, joined_cons, List.cons_append]

/-- Every operator has a single token on its right. -/
inductive LeansLeft : Bracketing → Prop where
  | operand {token} : LeansLeft (.operand token)
  | operation {operator left token} (h : LeansLeft left) :
      LeansLeft (.operation operator left (.operand token))

/-- Every operator has a single token on its left. -/
inductive LeansRight : Bracketing → Prop where
  | operand {token} : LeansRight (.operand token)
  | operation {operator token right} (h : LeansRight right) :
      LeansRight (.operation operator (.operand token) right)

end Bracketing

open Bracketing

/-! ## Equal powers throughout -/

namespace Table

variable {t : Table} {powers : InfixPowers} {b l r : Bracketing} {operator : Token}

/-- The operators of the tree all have these powers. -/
def Uniform (t : Table) (powers : InfixPowers) (b : Bracketing) : Prop :=
  ∀ step ∈ b.steps, t.infixPowers step.1.kind = some powers

theorem Uniform.parts (h : t.Uniform powers (.operation operator l r)) :
    t.Uniform powers l ∧ t.infixPowers operator.kind = some powers ∧ t.Uniform powers r := by
  obtain ⟨hleft, hmore⟩ := List.forall_mem_append.mp h
  obtain ⟨hoperator, hright⟩ := List.forall_mem_cons.mp hmore
  exact ⟨hleft, hoperator, hright⟩

theorem Joins.powers_eq {k : Kind} {powers' : InfixPowers} (h : t.Joins k powers')
    (hentry : t.infixPowers k = some powers) : powers' = powers :=
  Option.some.inj (h.entry.symm.trans hentry)

/-- **With a right power above the left one** no operator goes on with a right operand. -/
theorem Balanced.leansLeft {next : Kind} (h : t.Balanced b next) (huniform : t.Uniform powers b)
    (hlt : powers.left < powers.right) : LeansLeft b := by
  induction b generalizing next with
  | operand token => exact .operand
  | operation operator l r hl _ =>
      obtain ⟨hleft, -, powers', hjoins, hspine, -⟩ := h
      obtain ⟨hleftUniform, hentry, hrightUniform⟩ := huniform.parts
      obtain rfl := hjoins.powers_eq hentry
      cases r with
      | operand token => exact .operation (hl hleft hleftUniform)
      | operation inner l' r' =>
          -- the operator at the root of the right operand would have to bind more tightly
          obtain ⟨inside, hinside, hle⟩ := hspine inner List.mem_cons_self
          obtain rfl := hinside.powers_eq hrightUniform.parts.2.1
          exact absurd hlt (Nat.not_lt_of_le hle)

/-- **With a right power of at most the left one** every right operand goes on, and nothing is left
    for an operator to take as its left one but a single token. -/
theorem Balanced.leansRight {next : Kind} (h : t.Balanced b next) (huniform : t.Uniform powers b)
    (hle : powers.right ≤ powers.left) : LeansRight b := by
  induction b generalizing next with
  | operand token => exact .operand
  | operation operator l r _ hr =>
      obtain ⟨hleft, hright, powers', hjoins, -, -⟩ := h
      obtain ⟨hleftUniform, hentry, hrightUniform⟩ := huniform.parts
      obtain rfl := hjoins.powers_eq hentry
      cases l with
      | operand token => exact .operation (hr hright hrightUniform)
      | operation inner l' r' =>
          -- the right operand of `inner` stopped in front of an operator that it had to take
          obtain ⟨-, -, inside, hinside, -, hstops⟩ := hleft
          obtain rfl := hinside.powers_eq hleftUniform.parts.2.1
          exact absurd (hstops _ hjoins.leftPower_eq) (Nat.not_lt_of_le hle)

end Table

/-! ## Trees that nest to one side -/

/-- The operator joins each operand to all that stand in front of it. -/
def leftNested (o : BinaryOperator) (subject : Expr) (operands : List Expr) : Expr :=
  operands.foldl (.binary o) subject

/-- The operator joins each operand to all that stand behind it. -/
def rightNested (o : BinaryOperator) (subject : Expr) : List Expr → Expr
  | [] => subject
  | next :: more => .binary o subject (rightNested o next more)

section

variable {t : Table} {o : BinaryOperator} {b : Bracketing} {e subject : Expr} {operands : List Expr}
  (ho : ∀ step ∈ b.steps, t.binaryOperator step.1.kind = some o)
  (hfirst : b.first.atom = .ok subject)
  (hoperands : b.steps.map (fun step => step.2.atom) = operands.map Except.ok)

include ho hfirst hoperands

theorem Table.Builds.eq_leftNested (h : t.Builds b e) (hleans : LeansLeft b) :
    e = leftNested o subject operands := by
  induction hleans generalizing e operands with
  | operand =>
      cases h with
      | operand hatom =>
          obtain rfl := List.map_eq_nil_iff.mp hoperands.symm
          exact Except.ok.inj (hatom.symm.trans hfirst)
  | @operation operator left token _ ih =>
      cases h with
      | @operation _ _ _ leftTree rightTree o' ho' hleft hright =>
          obtain ⟨hbefore, hlast⟩ := List.forall_mem_append.mp ho
          obtain rfl := Option.some.inj (ho'.symm.trans (hlast _ List.mem_cons_self))
          have happend : operands.map Except.ok =
              left.steps.map (fun step => step.2.atom) ++ [token.atom] := by
            rw [← hoperands]
            exact List.map_append
          obtain ⟨front, last, rfl, hfront, hsingle⟩ := List.map_eq_append_iff.mp happend
          obtain ⟨value, rfl, hvalue⟩ := List.map_eq_singleton_iff.mp hsingle
          cases hright with
          | operand hatom =>
              obtain rfl := Except.ok.inj (hvalue.trans hatom)
              rw [ih hbefore hfirst hfront.symm hleft]
              simp [leftNested]

theorem Table.Builds.eq_rightNested (h : t.Builds b e) (hleans : LeansRight b) :
    e = rightNested o subject operands := by
  induction hleans generalizing e subject operands with
  | operand =>
      cases h with
      | operand hatom =>
          obtain rfl := List.map_eq_nil_iff.mp hoperands.symm
          exact Except.ok.inj (hatom.symm.trans hfirst)
  | @operation operator token right _ ih =>
      cases h with
      | @operation _ _ _ leftTree rightTree o' ho' hleft hright =>
          obtain ⟨hhead, hbehind⟩ := List.forall_mem_cons.mp ho
          obtain rfl := Option.some.inj (ho'.symm.trans hhead)
          obtain ⟨next, more, rfl, hnext, hmore⟩ := List.map_eq_cons_iff.mp hoperands.symm
          cases hleft with
          | operand hatom =>
              obtain rfl := Except.ok.inj (hatom.symm.trans hfirst)
              rw [ih hbehind hnext.symm hmore.symm hright]
              rfl

end

/-- **An operator associates by its powers.** Registered at any powers for a kind of token that is
    neither a postfix form nor an assignment, an operator reads a chain of single tokens up to the
    end of the input as the tree that nests to the left if its right power is above its left one,
    and else, also at equal powers, as the tree that nests to the right. -/
theorem chain_associates {kind : Kind} {powers : InfixPowers} {o : BinaryOperator}
    (hkind : kind ≠ .eof) (hform : standard.postfixForm kind = none)
    (hassign : standard.assignOperator kind = none) {first : Token} {subject : Expr}
    {steps : List (Token × Token)} {operands : List Expr} {s : TokenStream}
    (hfirst : first.atom = .ok subject) (hoperators : ∀ step ∈ steps, step.1.kind = kind)
    (hoperands : steps.map (fun step => step.2.atom) = operands.map Except.ok)
    (hend : s.peek.kind = .eof) (assignable : Bool) :
    let t := standard.register (.binaryOperator kind powers o)
    (powers.left < powers.right →
      t.readExpression assignable (s.behind (first :: joined steps)) =
        .ok (leftNested o subject operands) s) ∧
    (powers.right ≤ powers.left →
      t.readExpression assignable (s.behind (first :: joined steps)) =
        .ok (rightNested o subject operands) s) := by
  intro t
  have ht : t.InfixExtension := Table.InfixExtension.standard.register kind powers o
  have hjoins : t.Joins kind powers := ⟨Table.enter_self _ _ _, hform, hassign⟩
  have hsteps : t.Steps steps := by
    intro step hstep
    refine ⟨⟨powers, by rw [hoperators step hstep]; exact hjoins⟩, ?_⟩
    have hmem : step.2.atom ∈ operands.map Except.ok := hoperands ▸ List.mem_map_of_mem hstep
    obtain ⟨e, -, he⟩ := List.mem_map.mp hmem
    exact ⟨e, he.symm⟩
  have hends : t.Ends s.peek.kind := by
    rw [hend]
    exact ⟨rfl, Table.enter_of_ne _ _ hkind.symm⟩
  obtain ⟨b, e, hread, hbuilds, htokens, hbalanced⟩ :=
    Table.read_chain ht hfirst hsteps hends assignable
  rw [b.tokens_eq_chain] at htokens
  obtain ⟨hfirst', hchain⟩ := List.cons.inj htokens
  obtain rfl := joined_injective hchain
  subst hfirst'
  have huniform : t.Uniform powers b := by
    intro step hstep
    rw [hoperators step hstep]
    exact hjoins.entry
  have ho : ∀ step ∈ b.steps, t.binaryOperator step.1.kind = some o := by
    intro step hstep
    rw [hoperators step hstep]
    exact Table.enter_self _ _ _
  have hexpression : t.readExpression assignable (s.behind (b.first :: joined b.steps)) =
      .ok e s := by
    unfold Table.readExpression Parse.recover
    rw [hread]
  rw [hexpression]
  refine ⟨fun hlt => ?_, fun hle => ?_⟩
  · rw [hbuilds.eq_leftNested ho hfirst hoperands (hbalanced.leansLeft huniform hlt)]
  · rw [hbuilds.eq_rightNested ho hfirst hoperands (hbalanced.leansRight huniform hle)]

/-- `a & b & c`, with an operator that the standard table does not have: at powers 10 and 11 it nests
    to the left, and at powers 10 and 10 to the right. -/
theorem chain_associates_ampersand :
    let token (kind : Kind) (value : String) (column : Nat) : Token := ⟨kind, value, ⟨1, column⟩⟩
    let first := token .identifier "a" 1
    let steps := [(token .ampersand "&" 3, token .identifier "b" 5),
      (token .ampersand "&" 7, token .identifier "c" 9)]
    let operands : List Expr := [.name "b", .name "c"]
    let s : TokenStream := ⟨[.endOfInput ⟨1, 10⟩], ⟨1, 10⟩⟩
    let t (powers : InfixPowers) := standard.register (.binaryOperator .ampersand powers .or)
    (Kind.ampersand ≠ .eof ∧ standard.postfixForm .ampersand = none ∧
      standard.assignOperator .ampersand = none ∧ first.atom = .ok (.name "a") ∧
      (∀ step ∈ steps, step.1.kind = .ampersand) ∧
      steps.map (fun step => step.2.atom) = operands.map Except.ok ∧ s.peek.kind = .eof) ∧
    (t ⟨10, 11⟩).readExpression true (s.behind (first :: joined steps)) =
      .ok (.binary .or (.binary .or (.name "a") (.name "b")) (.name "c")) s ∧
    (t ⟨10, 10⟩).readExpression true (s.behind (first :: joined steps)) =
      .ok (.binary .or (.name "a") (.binary .or (.name "b") (.name "c"))) s := by
  intro token first steps operands s t
  have hkind : Kind.ampersand ≠ .eof := by decide
  have hoperators : ∀ step ∈ steps, step.1.kind = .ampersand := by decide
  have hboth (powers : InfixPowers) :
      (powers.left < powers.right →
        (t powers).readExpression true (s.behind (first :: joined steps)) =
          .ok (leftNested .or (.name "a") operands) s) ∧
      (powers.right ≤ powers.left →
        (t powers).readExpression true (s.behind (first :: joined steps)) =
          .ok (rightNested .or (.name "a") operands) s) :=
    chain_associates hkind rfl rfl rfl hoperators rfl rfl true
  exact ⟨⟨hkind, rfl, rfl, rfl, hoperators, rfl, rfl⟩, (hboth ⟨10, 11⟩).1 (by decide),
    (hboth ⟨10, 10⟩).2 (by decide)⟩

/-- Equal powers do not associate to the left: at powers 10 and 10, `a & b & c` is not read as the
    tree that nests to the left. -/
theorem equal_powers_not_leftNested :
    ¬∀ powers : InfixPowers, powers.left ≤ powers.right →
      let token (kind : Kind) (value : String) (column : Nat) : Token :=
        ⟨kind, value, ⟨1, column⟩⟩
      let s : TokenStream := ⟨[.endOfInput ⟨1, 10⟩], ⟨1, 10⟩⟩
      (standard.register (.binaryOperator .ampersand powers .or)).readExpression true
        (s.behind (token .identifier "a" 1 ::
          joined [(token .ampersand "&" 3, token .identifier "b" 5),
            (token .ampersand "&" 7, token .identifier "c" 9)])) =
        .ok (leftNested .or (.name "a") [.name "b", .name "c"]) s := by
  intro h
  have hleft := h ⟨10, 10⟩ (Nat.le_refl 10)
  -- what is read is the other tree
  cases hleft.symm.trans (b := Reply.ok (rightNested .or (.name "a") [.name "b", .name "c"]) _) rfl

end ExprLang
