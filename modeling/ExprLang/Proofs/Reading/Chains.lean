import ExprLang.Proofs.Grammar.Powers
import ExprLang.Proofs.Reading.Registration
import ExprLang.Proofs.Reading.Stream

/-!
# `Proofs.Reading.Chains` — how a chain of operators is bracketed

A chain is an operand and then operators with an operand each. Which tree is read from it is decided
by the powers of the operators alone, and these may be any numbers: equal, zero, or upside down. A
tree of operators over tokens, a `Bracketing`, keeps the tokens in its nodes, so that the powers of
a node can be looked up also where two kinds of token have the same operator.

The invariant that carries the proof is `Table.Balanced`. It is local: every node is held against
the operators on the left spine of its right child and against the one token that stands behind it,
which for a left child is the operator above it, and for a right child whatever stands behind the
node itself. So a tree that becomes the left child of a larger one is balanced there for the same
reason that it was complete: the operator behind it.

## Contents
- `Bracketing`, with `tokens` and `leftSpine`; `Bracketing.Stands`: the places in a tree.
- `Table.Builds`: the tree of the language that a bracketing stands for.
- `Table.InfixExtension`: the standard table with more infix operators.
- `Table.Balanced`: every right operand as long as its operator lets it be.
- `Table.Climbs`, `derive_operators_climbs`: the operator loop on a chain.
- `chain_bracketed`: a whole chain.
-/

namespace ExprLang

/-! ## Bracketings -/

/-- A tree of infix operators over single tokens. -/
inductive Bracketing where
  | operand (token : Token)
  | operation (operator : Token) (left right : Bracketing)

namespace Bracketing

/-- The tokens of the tree in their order. -/
def tokens : Bracketing → List Token
  | operand token => [token]
  | operation operator left right => left.tokens ++ operator :: right.tokens

/-- The operators from the root of the tree down along the left operands. -/
def leftSpine : Bracketing → List Token
  | operand _ => []
  | operation operator left _ => operator :: left.leftSpine

/-- The tree `b` stands within a tree that goes on with the tokens `after` behind it. -/
inductive Stands (b : Bracketing) : List Token → Bracketing → Prop where
  | whole : Stands b [] b
  | left {operator : Token} {l r : Bracketing} {after : List Token} (h : Stands b after l) :
      Stands b (after ++ operator :: r.tokens) (.operation operator l r)
  | right {operator : Token} {l r : Bracketing} {after : List Token} (h : Stands b after r) :
      Stands b after (.operation operator l r)

/-- The tokens of a part stand among those of the whole, in front of what follows it. -/
theorem Stands.tokens_eq {b whole : Bracketing} {after : List Token} (h : b.Stands after whole) :
    ∃ before, whole.tokens = before ++ b.tokens ++ after := by
  induction h with
  | whole => exact ⟨[], by simp⟩
  | @left operator l r after _ ih =>
      obtain ⟨before, hbefore⟩ := ih
      exact ⟨before, by simp [tokens, hbefore]⟩
  | @right operator l r after _ ih =>
      obtain ⟨before, hbefore⟩ := ih
      exact ⟨l.tokens ++ operator :: before, by simp [tokens, hbefore]⟩

end Bracketing

/-- The tokens of operators with an operand each. -/
def joined (steps : List (Token × Token)) : List Token := steps.flatMap fun step => [step.1, step.2]

@[simp] theorem joined_nil : joined [] = [] := rfl

@[simp] theorem joined_cons (operator operand : Token) (steps : List (Token × Token)) :
    joined ((operator, operand) :: steps) = operator :: operand :: joined steps := rfl

theorem length_joined (steps : List (Token × Token)) :
    (joined steps).length = 2 * steps.length := by
  induction steps with
  | nil => rfl
  | cons step steps ih =>
      rw [joined_cons, List.length_cons, List.length_cons, ih, List.length_cons]
      omega

namespace Table

variable {t : Table}

/-- The binary expression that a bracketing stands for. -/
inductive Builds (t : Table) : Bracketing → Expr → Prop where
  | operand {token : Token} {e : Expr} (h : token.atom = .ok e) : Builds t (.operand token) e
  | operation {operator : Token} {l r : Bracketing} {left right : Expr} {o : BinaryOperator}
      (ho : t.binaryOperator operator.kind = some o) (hleft : Builds t l left)
      (hright : Builds t r right) : Builds t (.operation operator l r) (.binary o left right)

/-! ## More infix operators -/

/-- The table is the standard one with entries of infix operators made in it, with any powers. -/
inductive InfixExtension : Table → Prop where
  | standard : InfixExtension standard
  | register {t : Table} (h : InfixExtension t) (kind : Kind) (powers : InfixPowers)
      (operator : BinaryOperator) :
      InfixExtension (t.register (.binaryOperator kind powers operator))

/-- What starts an operand is as it was, and no operator is missing. -/
theorem InfixExtension.keeps (h : t.InfixExtension) :
    t.prefixOperator = ExprLang.standard.prefixOperator ∧
      t.operandForm = ExprLang.standard.operandForm ∧ t.Matched := by
  induction h with
  | standard => exact ⟨rfl, rfl, matched_standard⟩
  | register _ kind powers operator ih => exact ⟨ih.1, ih.2.1, ih.2.2.register _⟩

/-- Tokens of the kind `k` join operands, at these powers, and do nothing else behind one. -/
structure Joins (t : Table) (k : Kind) (powers : InfixPowers) : Prop where
  entry : t.infixPowers k = some powers
  noPostfix : t.postfixForm k = none
  noAssign : t.assignOperator k = none

/-- Tokens of the kind `k` neither join operands nor go on with one. -/
def Ends (t : Table) (k : Kind) : Prop := t.postfixForm k = none ∧ t.infixPowers k = none

/-- The operator goes on with an expression that is read at the power `least`. -/
def GoesOn (t : Table) (least : Nat) (operator : Token) : Prop :=
  ∃ powers, t.Joins operator.kind powers ∧ least ≤ powers.left

theorem Ends.stopsAt {k : Kind} (h : t.Ends k) (least : Nat) : t.StopsAt least k := by
  simp [StopsAt, leftPower, h.1, h.2]

/-- An operator that joins operands and assigns nothing has a binary operator. -/
theorem InfixExtension.binaryOperator (ht : t.InfixExtension) {k : Kind} {powers : InfixPowers}
    (h : t.Joins k powers) : ∃ o, t.binaryOperator k = some o := by
  rcases ht.keeps.2.2.operator h.entry with hassign | hbinary
  · exact absurd h.noAssign hassign
  · exact Option.ne_none_iff_exists'.mp hbinary

theorem Joins.leftPower_eq {k : Kind} {powers : InfixPowers} (h : t.Joins k powers) :
    t.leftPower k = some powers.left := leftPower_of_infixPowers h.noPostfix h.entry

theorem Joins.stopsAt {k : Kind} {powers : InfixPowers} (h : t.Joins k powers) {least : Nat}
    (hlt : powers.left < least) : t.StopsAt least k := by
  intro power hpower
  rw [h.leftPower_eq] at hpower
  cases hpower
  exact hlt

/-! ## Right operands of the right length -/

/-- **Every right operand is as long as its operator lets it be**, when a token of the kind `next`
    stands behind the tree: the operators on the left spine of the operand bind tightly enough to be
    in it, and the token behind it does not. -/
def Balanced (t : Table) : Bracketing → Kind → Prop
  | .operand _, _ => True
  | .operation operator l r, next =>
    t.Balanced l operator.kind ∧ t.Balanced r next ∧ ∃ powers, t.Joins operator.kind powers ∧
      (∀ inner ∈ r.leftSpine, t.GoesOn powers.right inner) ∧ t.StopsAt powers.right next

/-- The parts of a balanced tree are balanced, each with the token that stands behind it. -/
theorem Balanced.of_stands {b whole : Bracketing} {after : List Token} (h : b.Stands after whole)
    {next : Kind} (hwhole : t.Balanced whole next) :
    t.Balanced b ((after.head?.map Token.kind).getD next) := by
  induction h generalizing next with
  | whole => exact hwhole
  | @left operator l r after _ ih =>
      have hleft := ih hwhole.1
      cases after with
      | nil => exact hleft
      | cons first more => exact hleft
  | right _ ih => exact ih hwhole.2.1

/-- What stands behind a part, within the tree, is an operator of it. -/
theorem Balanced.joins_head {b whole : Bracketing} {after : List Token} (h : b.Stands after whole)
    {next : Kind} (hwhole : t.Balanced whole next) :
    ∀ behind ∈ after.head?, ∃ powers, t.Joins behind.kind powers := by
  induction h generalizing next with
  | whole => simp
  | @left operator l r after _ ih =>
      cases after with
      | nil =>
          obtain ⟨-, -, powers, hjoins, -⟩ := hwhole
          simpa using ⟨powers, hjoins⟩
      | cons first more => exact ih hwhole.1
  | right _ ih => exact ih hwhole.2.1

/-! ## The operator loop on a chain -/

/-- Behind the tree `l`, the operator loop at the power `least` has taken some of the `steps` and
    left the `rest`: the tree is now `b`, which stands for `e`. -/
structure Climbs (t : Table) (s : TokenStream) (least : Nat) (l : Bracketing)
    (steps rest : List (Token × Token)) (b : Bracketing) (e : Expr) : Prop where
  left : rest <:+ steps
  tokens : b.tokens ++ joined rest = l.tokens ++ joined steps
  builds : t.Builds b e
  balanced : t.Balanced b (s.behind (joined rest)).peek.kind
  spine : ∀ inner ∈ b.leftSpine, inner ∈ l.leftSpine ∨ t.GoesOn least inner
  stops : t.StopsAt least (s.behind (joined rest)).peek.kind

/-- The steps are operators with single tokens as their operands. -/
def Steps (t : Table) (steps : List (Token × Token)) : Prop :=
  ∀ step ∈ steps, (∃ powers, t.Joins step.1.kind powers) ∧ ∃ e, step.2.atom = .ok e

section

variable {s : TokenStream} {least : Nat} {l b : Bracketing} {steps rest : List (Token × Token)}
  {left e : Expr}

theorem Steps.suffix (h : t.Steps steps) (hrest : rest <:+ steps) : t.Steps rest :=
  fun step hstep => h step (hrest.subset hstep)

/-- The loop ends where the next token does not bind tightly enough. -/
theorem Climbs.done (hbuilds : t.Builds l left)
    (hbalanced : t.Balanced l (s.behind (joined steps)).peek.kind)
    (hstops : t.StopsAt least (s.behind (joined steps)).peek.kind) :
    t.Climbs s least l steps steps l left where
  left := List.suffix_refl steps
  tokens := rfl
  builds := hbuilds
  balanced := hbalanced
  spine := fun _ => Or.inl
  stops := hstops

variable {operator operand : Token} {powers : InfixPowers} {right : Expr} {r : Bracketing}

/-- **One round of the loop keeps the tree balanced**: the right operand is complete, and what is
    left behind it stands behind the new tree. -/
theorem Climbs.balanced_operation (hjoins : t.Joins operator.kind powers)
    (hleft : t.Balanced l operator.kind)
    (hright : t.Climbs s powers.right (.operand operand) steps rest r right) :
    t.Balanced (.operation operator l r) (s.behind (joined rest)).peek.kind := by
  refine ⟨hleft, hright.balanced, powers, hjoins, fun inner hinner => ?_, hright.stops⟩
  -- a single token has no operators that the right operand could have started with
  rcases hright.spine inner hinner with hnone | hgoes
  · cases hnone
  · exact hgoes

/-- **A round of the loop and the rounds after it**: the right operand and then the rest of the
    steps, taken by the tree that the operator makes. -/
theorem Climbs.round (hgoes : t.GoesOn least operator)
    (hright : t.Climbs s powers.right (.operand operand) steps rest r right)
    {rest' : List (Token × Token)}
    (hlater : t.Climbs s least (.operation operator l r) rest rest' b e) :
    t.Climbs s least l ((operator, operand) :: steps) rest' b e where
  left := (hlater.left.trans hright.left).trans (List.suffix_cons _ _)
  tokens := by
    have htokens : r.tokens ++ joined rest = operand :: joined steps := hright.tokens
    rw [hlater.tokens, joined_cons, ← htokens]
    simp [Bracketing.tokens]
  builds := hlater.builds
  balanced := hlater.balanced
  spine := by
    intro inner hinner
    rcases hlater.spine inner hinner with hspine | hgoes'
    · rcases List.mem_cons.mp hspine with rfl | hspine
      · exact Or.inr hgoes
      · exact Or.inl hspine
    · exact Or.inr hgoes'
  stops := hlater.stops

end

/-- A single token is read as an operand, whatever else the table has for its kind. -/
theorem derive_operand_of_atom (ht : t.InfixExtension) {s : TokenStream} {e : Expr}
    (hpeek : s.peek.atom = .ok e) (depth : Nat) :
    t.derive (depth + 2) .operand s = .ok e s.advance := by
  obtain ⟨hunary, hform, -⟩ := ht.keeps
  have hatom := Token.atom_eq_ok_iff.mp hpeek
  refine Rule.operand_eq_ok.mpr (Or.inr ⟨?_, ?_⟩)
  · rw [hunary]
    exact hatom.standard_eq_none.1
  · have hnone : t.operandForm s.peek.kind = none := by
      rw [hform]
      exact hatom.standard_eq_none.2
    rw [hnone]
    exact Rule.atom_eq_ok.mpr ⟨hpeek, rfl⟩

/-- **The operator loop climbs a chain**, at every depth that has two rules for every step, by
    induction on the number of steps: the right operand takes some of them, and what it makes of the
    tree takes some of the others. -/
theorem derive_operators_climbs (ht : t.InfixExtension) {s : TokenStream}
    (hend : t.Ends s.peek.kind) (assignable : Bool) {steps : List (Token × Token)}
    (hsteps : t.Steps steps) {depth : Nat} (hdepth : 2 * steps.length + 2 ≤ depth) (least : Nat)
    {l : Bracketing} {left : Expr}
    (hbuilds : t.Builds l left) (hbalanced : t.Balanced l (s.behind (joined steps)).peek.kind) :
    ∃ b e rest, t.derive depth (.operators least assignable left) (s.behind (joined steps)) =
        .ok e (s.behind (joined rest)) ∧ t.Climbs s least l steps rest b e := by
  induction hn : steps.length using Nat.strongRecOn generalizing steps depth least l left with
  | _ n ih =>
  obtain ⟨depth, rfl⟩ : ∃ d, depth = d + 1 := ⟨depth - 1, by omega⟩
  have hdone (hstops : t.StopsAt least (s.behind (joined steps)).peek.kind) :
      ∃ b e rest, t.derive (depth + 1) (.operators least assignable left)
        (s.behind (joined steps)) = .ok e (s.behind (joined rest)) ∧
          t.Climbs s least l steps rest b e :=
    ⟨l, left, steps, Rule.operators_of_stopsAt hstops, .done hbuilds hbalanced hstops⟩
  cases steps with
  | nil => exact hdone (hend.stopsAt least)
  | cons step steps =>
      obtain ⟨operator, operand⟩ := step
      obtain ⟨⟨powers, hjoins⟩, subject, hsubject⟩ := hsteps (operator, operand) (by simp)
      by_cases hlt : powers.left < least
      · exact hdone (hjoins.stopsAt hlt)
      · have hle := Nat.not_lt.mp hlt
        have hlater : t.Steps steps := hsteps.suffix (List.suffix_cons _ _)
        simp only [List.length_cons] at hn hdepth
        -- the right operand: its first token, and the steps that bind tightly enough
        obtain ⟨depth, rfl⟩ : ∃ d, depth = d + 3 := ⟨depth - 3, by omega⟩
        have henough : 2 * steps.length + 2 ≤ depth + 2 := by omega
        have hoperand : t.Builds (.operand operand) subject := .operand hsubject
        obtain ⟨r, right, rest, hread, hright⟩ :=
          ih steps.length (by omega) hlater henough powers.right hoperand trivial rfl
        have hfirst := derive_operand_of_atom ht (s := s.behind (operand :: joined steps))
          hsubject depth
        have hexpr : t.derive (depth + 3) (.expr powers.right assignable)
            (s.behind (operand :: joined steps)) = .ok right (s.behind (joined rest)) :=
          Rule.expr_eq_ok.mpr ⟨subject, _, hfirst, hread⟩
        -- what the operator makes of both
        obtain ⟨o, ho⟩ := ht.binaryOperator hjoins
        have hcombine : Rule.combine t assignable operator left right (s.behind (joined rest)) =
            .ok (.binary o left right) (s.behind (joined rest)) :=
          Rule.combine_eq_ok.mpr ⟨rfl, Or.inr ⟨hjoins.noAssign, o, ho, rfl⟩⟩
        -- the rounds after this one
        have hlength := hright.left.length_le
        have henough' : 2 * rest.length + 2 ≤ depth + 3 := by omega
        obtain ⟨b, e, rest', hloop, hclimbs⟩ :=
          ih rest.length (by omega) (hlater.suffix hright.left) henough' least
            (.operation ho hbuilds hright.builds) (hright.balanced_operation hjoins hbalanced) rfl
        refine ⟨b, e, rest', ?_, hright.round ⟨powers, hjoins, hle⟩ hclimbs⟩
        exact Rule.operators_eq_ok.mpr (Or.inr (Or.inr ⟨powers, right, .binary o left right, _,
          hjoins.noPostfix, hjoins.entry, hle, hexpr, hcombine, hloop⟩))

/-- **A whole chain is read as a balanced tree of its tokens**, when nothing behind it goes on with
    it. -/
theorem read_chain (ht : t.InfixExtension) {first : Token} {subject : Expr}
    (hfirst : first.atom = .ok subject) {steps : List (Token × Token)} (hsteps : t.Steps steps)
    {s : TokenStream} (hend : t.Ends s.peek.kind) (assignable : Bool) :
    ∃ b e, t.read (.expr 0 assignable) (s.behind (first :: joined steps)) = .ok e s ∧
      t.Builds b e ∧ b.tokens = first :: joined steps ∧ t.Balanced b s.peek.kind := by
  have hremaining : (s.behind (first :: joined steps)).remaining =
      2 * steps.length + 1 + s.remaining := by
    rw [TokenStream.remaining_behind, List.length_cons, length_joined]
  obtain ⟨depth, hdepth⟩ : ∃ d, depthFor (s.behind (first :: joined steps)).remaining = d + 3 :=
    ⟨depthFor (s.behind (first :: joined steps)).remaining - 3, by simp only [depthFor]; omega⟩
  have henough : 2 * steps.length + 2 ≤ depth + 2 := by
    rw [hremaining] at hdepth
    simp only [depthFor] at hdepth
    omega
  obtain ⟨b, e, rest, hread, hclimbs⟩ :=
    derive_operators_climbs ht hend assignable hsteps henough 0 (.operand hfirst) trivial
  -- every operator binds at least as tightly as zero, so none is left
  have hrest : rest = [] := by
    cases rest with
    | nil => rfl
    | cons step rest =>
        obtain ⟨⟨powers, hjoins⟩, -⟩ := hsteps.suffix hclimbs.left step (by simp)
        exact absurd (hclimbs.stops powers.left hjoins.leftPower_eq) (Nat.not_lt_zero _)
  subst hrest
  have hoperand := derive_operand_of_atom ht (s := s.behind (first :: joined steps)) hfirst depth
  have htokens : b.tokens = first :: joined steps := by
    simpa [Bracketing.tokens] using hclimbs.tokens
  refine ⟨b, e, ?_, hclimbs.builds, htokens, hclimbs.balanced⟩
  rw [read, hdepth]
  exact Rule.expr_eq_ok.mpr ⟨subject, _, hoperand, hread⟩

end Table

/-- **A chain is read as the tree that its powers say**, whatever they are. With infix operators
    registered at any powers, a chain of single tokens that is followed by neither a postfix form
    nor an infix operator is read with success and to its end, as a tree of its tokens in their
    order. In it, every operator on the left spine of a right operand binds at least as tightly as
    the right power of the operator before it, and the operator that follows a right operand in the
    chain does not. -/
theorem chain_bracketed {t : Table} (ht : t.InfixExtension) {first : Token}
    {steps : List (Token × Token)} {s : TokenStream} (hfirst : ∃ e, first.atom = .ok e)
    (hsteps : ∀ step ∈ steps,
      (∃ powers, t.infixPowers step.1.kind = some powers) ∧ t.postfixForm step.1.kind = none ∧
        t.assignOperator step.1.kind = none ∧ ∃ e, step.2.atom = .ok e)
    (hend : t.postfixForm s.peek.kind = none ∧ t.infixPowers s.peek.kind = none)
    (assignable : Bool) :
    ∃ b e, t.read (.expr 0 assignable) (s.behind (first :: joined steps)) = .ok e s ∧
      t.Builds b e ∧ b.tokens = first :: joined steps ∧
      ∀ operator l r after, Bracketing.Stands (.operation operator l r) after b →
        (∃ before, first :: joined steps = before ++ (l.tokens ++ operator :: r.tokens) ++ after) ∧
        ∃ powers, t.infixPowers operator.kind = some powers ∧
          (∀ inner ∈ r.leftSpine, ∃ powers', t.infixPowers inner.kind = some powers' ∧
            powers.right ≤ powers'.left) ∧
          ∀ following ∈ after.head?, ∃ powers', t.infixPowers following.kind = some powers' ∧
            powers'.left < powers.right := by
  obtain ⟨subject, hsubject⟩ := hfirst
  have hjoined : t.Steps steps := by
    intro step hstep
    obtain ⟨⟨powers, hpowers⟩, hpostfix, hassign, hatom⟩ := hsteps step hstep
    exact ⟨⟨powers, hpowers, hpostfix, hassign⟩, hatom⟩
  obtain ⟨b, e, hread, hbuilds, htokens, hbalanced⟩ :=
    Table.read_chain ht hsubject hjoined hend assignable
  refine ⟨b, e, hread, hbuilds, htokens, fun operator l r after hstands => ⟨?_, ?_⟩⟩
  · rw [← htokens]
    exact hstands.tokens_eq
  · obtain ⟨-, -, powers, hjoins, hspine, hstops⟩ := hbalanced.of_stands hstands
    refine ⟨powers, hjoins.entry, fun inner hinner => ?_, fun following hfollowing => ?_⟩
    · obtain ⟨powers', hinner, hle⟩ := hspine inner hinner
      exact ⟨powers', hinner.entry, hle⟩
    · obtain ⟨powers', hfollows⟩ := hbalanced.joins_head hstands following hfollowing
      rw [Option.mem_def.mp hfollowing] at hstops
      exact ⟨powers', hfollows.entry, hstops _ hfollows.leftPower_eq⟩

/-- `a + b * c * d + e`, where sums bind at nothing on either side, and the right power of a product
    is the lower one: a sum as the right operand of a sum, and a product as that of a product. -/
theorem chain_bracketed_lowered :
    let t := (standard.register (.binaryOperator .plus ⟨0, 0⟩ .add)).register
      (.binaryOperator .star ⟨9, 2⟩ .multiply)
    let token (kind : Kind) (value : String) (column : Nat) : Token := ⟨kind, value, ⟨1, column⟩⟩
    let first := token .identifier "a" 1
    let steps : List (Token × Token) :=
      [(token .plus "+" 2, token .identifier "b" 3), (token .star "*" 4, token .identifier "c" 5),
        (token .star "*" 6, token .identifier "d" 7), (token .plus "+" 8, token .identifier "e" 9)]
    let s : TokenStream := ⟨[], ⟨1, 10⟩⟩
    let e : Expr := .binary .add (.name "a") (.binary .add
      (.binary .multiply (.name "b") (.binary .multiply (.name "c") (.name "d"))) (.name "e"))
    t.read (.expr 0 true) (s.behind (first :: joined steps)) = .ok e s ∧
      ∃ b, t.Builds b e ∧ b.tokens = first :: joined steps ∧
        ∀ operator l r after, Bracketing.Stands (.operation operator l r) after b →
          ∃ powers, t.infixPowers operator.kind = some powers ∧
            (∀ inner ∈ r.leftSpine, ∃ powers', t.infixPowers inner.kind = some powers' ∧
              powers.right ≤ powers'.left) ∧
            ∀ following ∈ after.head?, ∃ powers', t.infixPowers following.kind = some powers' ∧
              powers'.left < powers.right := by
  intro t token first steps s e
  have hvalue : t.read (.expr 0 true) (s.behind (first :: joined steps)) = .ok e s := by rfl
  have ht : t.InfixExtension := (Table.InfixExtension.standard.register _ _ _).register _ _ _
  have hfirst : ∃ e, first.atom = .ok e := ⟨_, rfl⟩
  have hsteps : ∀ step ∈ steps,
      (∃ powers, t.infixPowers step.1.kind = some powers) ∧ t.postfixForm step.1.kind = none ∧
        t.assignOperator step.1.kind = none ∧ ∃ e, step.2.atom = .ok e := by
    simp only [steps, List.forall_mem_cons]
    exact ⟨⟨⟨_, rfl⟩, rfl, rfl, _, rfl⟩, ⟨⟨_, rfl⟩, rfl, rfl, _, rfl⟩, ⟨⟨_, rfl⟩, rfl, rfl, _, rfl⟩,
      ⟨⟨_, rfl⟩, rfl, rfl, _, rfl⟩, by simp⟩
  have hend : t.postfixForm s.peek.kind = none ∧ t.infixPowers s.peek.kind = none := ⟨rfl, rfl⟩
  obtain ⟨b, e', hread, hbuilds, htokens, hplaces⟩ := chain_bracketed ht hfirst hsteps hend true
  rw [hvalue] at hread
  cases hread
  exact ⟨hvalue, b, hbuilds, htokens, fun operator l r after h => (hplaces operator l r after h).2⟩

end ExprLang
