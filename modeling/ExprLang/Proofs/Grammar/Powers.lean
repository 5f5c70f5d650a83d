import ExprLang.Proofs.Grammar.Derivation
import ExprLang.Proofs.Reading.Success

/-!
# `Proofs.Grammar.Powers` — the layers of the grammar as binding powers

The grammar orders its operators by layers, the standard table by binding powers. A layer has one
**left power**, that of all its operators, and one **bound**: an expression of the layer is complete
when the next token binds less tightly than that. The bound is also the power that the operators of
the layer read their right operand at, whichever side they associate to.

Everything that the two correctness proofs know about the numbers in the table is stated here.

## Contents
- `Layer.rank`, `Layer.leftPower`, `Layer.bound`, `Layer.Above`: layers as numbers.
- `Derives.loosen`: an expression belongs to every looser layer.
- `standard_of_binary?` and its like: the entries of the table, read as productions.
- `Token.atom_eq_ok_iff`: single tokens.
-/

namespace ExprLang

namespace Layer

/-- The place of a layer in the order from loose to tight. -/
def rank : Layer → Nat
  | disjunction => 0
  | conjunction => 1
  | equality => 2
  | comparison => 3
  | sum => 4
  | product => 5
  | power => 6
  | prefixed => 7
  | postfixed => 8
  | primary => 9

/-- How tightly the operators of a layer bind the operand on their left. -/
def leftPower : Layer → Nat
  | disjunction => 5
  | conjunction => 7
  | equality => 15
  | comparison => 17
  | sum => 21
  | product => 23
  | power => 26
  | prefixed | postfixed | primary => 33

/-- An expression of the layer can be read on only by a token that binds less tightly than this
    without becoming part of a tighter expression. -/
def bound : Layer → Nat
  | disjunction => 6
  | conjunction => 8
  | equality => 16
  | comparison => 18
  | sum => 22
  | product => 24
  | power => 25
  | prefixed => 27
  | postfixed | primary => 34

/-- Whatever binds at least as tightly as `least` belongs to the layer `l` or to a tighter one. -/
def Above (l : Layer) (least : Nat) : Prop :=
  l.rank ≤ prefixed.rank ∧ ∀ l' : Layer, l'.rank < l.rank → l'.leftPower < least

theorem disjunction_above (least : Nat) : disjunction.Above least :=
  ⟨by decide, fun _ h => absurd h (Nat.not_lt_zero _)⟩

theorem prefixed_above : prefixed.Above 27 := by
  refine ⟨Nat.le_refl _, fun l' h => ?_⟩
  cases l' <;> first | decide | exact absurd h (by decide)

theorem rank_of_next? {l l' : Layer} (h : l.next? = some l') : l'.rank = l.rank + 1 := by
  cases l <;> cases h <;> rfl

theorem bound_le_of_next? {l l' : Layer} (h : l.next? = some l') : l.bound ≤ l'.bound := by
  cases l <;> cases h <;> decide

theorem leftPower_le_of_next? {l l' : Layer} (h : l.next? = some l') :
    l.leftPower ≤ l'.leftPower := by
  cases l <;> cases h <;> decide

theorem rank_inj {l l' : Layer} (h : l.rank = l'.rank) : l = l' := by
  cases l <;> cases l' <;> first | rfl | cases h

/-- Every operator binds more tightly than an assignment. -/
theorem four_lt_bound (l : Layer) : 4 < l.bound := by
  cases l <;> decide

/-! ### The operands of a binary operator -/

theorem leftPower_le_operands (l : Layer) : l.leftPower ≤ l.operands.1.leftPower := by
  cases l <;> decide

theorem bound_le_bound_operands (l : Layer) : l.bound ≤ l.operands.2.bound := by
  cases l <;> decide

section

variable {l : Layer} (hl : l.rank < prefixed.rank)

include hl

/-- What can stand on the left of an operator of the layer `l` is anything that it can follow. -/
theorem rank_operands_le {l' : Layer} (h : l.leftPower < l'.bound) :
    l.operands.1.rank ≤ l'.rank := by
  cases l <;> cases l' <;>
    first | decide | exact absurd h (by decide) | exact absurd hl (by decide)

theorem leftPower_lt_bound_operands : l.leftPower < l.operands.1.bound := by
  cases l <;> first | decide | exact absurd hl (by decide)

theorem bound_le_leftPower_operands : l.bound ≤ l.operands.2.leftPower := by
  cases l <;> first | decide | exact absurd hl (by decide)

theorem operands_above : l.operands.2.Above l.bound := by
  refine ⟨by cases l <;> first | decide | exact absurd hl (by decide), fun l' h => ?_⟩
  cases l <;> cases l' <;> first | decide | exact absurd h (by decide)

end

end Layer

/-- **An expression belongs to every looser layer.** -/
theorem Derives.loosen {l l' : Layer} (hle : l.rank ≤ l'.rank) {w : List Token} {e : Expr}
    (h : Derives (.layer l') w e) : Derives (.layer l) w e := by
  obtain ⟨n, hn⟩ := Nat.exists_eq_add_of_le hle
  induction n generalizing l with
  | zero => exact Layer.rank_inj hn ▸ h
  | succ n ih =>
      cases hnext : l.next? with
      | none =>
          have hlast : l = .primary := by cases l <;> first | rfl | cases hnext
          subst hlast
          cases l' <;> simp [Layer.rank] at hn <;> omega
      | some l₁ =>
          have hrank := Layer.rank_of_next? hnext
          exact .tighter hnext (ih (by omega) (by omega))

/-! ## The standard table, read as productions -/

section

variable {k : Kind}

theorem standard_of_binary? {l : Layer} {o : BinaryOperator} (h : k.binary? = some (l, o)) :
    l.rank < Layer.prefixed.rank ∧ standard.postfixForm k = none ∧
      standard.infixPowers k = some ⟨l.leftPower, l.bound⟩ ∧ standard.assignOperator k = none ∧
      standard.binaryOperator k = some o := by
  cases k <;> cases h <;> exact ⟨by decide, rfl, rfl, rfl, rfl⟩

theorem standard_of_assign? {o : AssignOperator} (h : k.assign? = some o) :
    standard.postfixForm k = none ∧ standard.infixPowers k = some ⟨4, 3⟩ ∧
      standard.assignOperator k = some o := by
  cases k <;> cases h <;> exact ⟨rfl, rfl, rfl⟩

/-- An assignment operator does not go on with the expression in front of it. -/
theorem stopsAt_of_assign? {o : AssignOperator} (h : k.assign? = some o) :
    standard.StopsAt Layer.disjunction.bound k ∧ k ≠ .kwElse := by
  obtain ⟨hp, hi, -⟩ := standard_of_assign? h
  refine ⟨fun power hpower => ?_, ?_⟩
  · rw [Table.leftPower_of_infixPowers hp hi] at hpower
    cases hpower
    decide
  · rintro rfl
    cases h

theorem standard_prefixOperator (k : Kind) :
    standard.prefixOperator k = k.unary?.map fun o => (27, o) := by
  cases k <;> rfl

/-- An infix operator of the table is an assignment operator or a binary operator. -/
theorem infixPowers_cases {powers : InfixPowers} (h : standard.infixPowers k = some powers) :
    (∃ o, k.assign? = some o) ∨ ∃ l o, k.binary? = some (l, o) := by
  cases k <;> first | exact Or.inl ⟨_, rfl⟩ | exact Or.inr ⟨_, _, rfl⟩ | cases h

theorem postfixForm_cases {power : Nat} {form : PostfixForm}
    (h : standard.postfixForm k = some (power, form)) :
    power = 33 ∧ (form = .member ∧ k = .dot ∨ form = .index ∧ k = .openBracket ∨
      form = .call ∧ k = .openParen) := by
  cases k <;> cases h <;> simp

theorem leftPower_bounds {power : Nat} (h : standard.leftPower k = some power) :
    4 ≤ power ∧ power < 34 := by
  cases k <;> cases h <;> decide

/-- What can stand in front of a postfix form is a postfix or a primary expression. -/
theorem postfixed_le_of_postfixForm {l : Layer} {power : Nat} {form : PostfixForm}
    (hbound : standard.StopsAt l.bound k) (h : standard.postfixForm k = some (power, form)) :
    Layer.postfixed.rank ≤ l.rank := by
  have hlt : power < l.bound := hbound _ (Table.leftPower_of_postfixForm h)
  obtain ⟨rfl, -⟩ := postfixForm_cases h
  cases l <;> first | decide | exact absurd hlt (by decide)

/-- Nothing binds more tightly than a postfix form. -/
theorem stopsAt_of_lt {least : Nat} (h : 33 < least) : standard.StopsAt least k :=
  fun _ hpower => Nat.lt_of_lt_of_le (leftPower_bounds hpower).2 h

theorem stopsAt_of_leftPower {least : Nat} (h : standard.leftPower k = none) :
    standard.StopsAt least k := by
  intro power hpower
  rw [h] at hpower
  cases hpower

/-- Nothing binds more loosely than an assignment. -/
theorem leftPower_of_stopsAt {least : Nat} (hle : least ≤ 4) (h : standard.StopsAt least k) :
    standard.leftPower k = none := by
  cases hpower : standard.leftPower k with
  | none => rfl
  | some power =>
      have hlt := h power hpower
      have hge := (leftPower_bounds hpower).1
      omega

theorem statementForm_cases {form : StatementForm} (h : standard.statementForm k = some form) :
    (form = .classDef ∧ k = .kwClass) ∨ (form = .function ∧ k = .kwFn) ∨
      (form = .letIn ∧ k = .kwLet) ∨ (form = .returning ∧ k = .kwReturn) ∨
      (form = .breaking ∧ k = .kwBreak) ∨ (form = .continuing ∧ k = .kwContinue) := by
  cases k <;> cases h <;> simp

theorem operandForm_cases {form : OperandForm} (h : standard.operandForm k = some form) :
    (form = .grouping ∧ k = .openParen) ∨ (form = .ifElse ∧ k = .kwIf) ∨
      (form = .whileLoop ∧ k = .kwWhile) ∨ (form = .forLoop ∧ k = .kwFor) ∨
      (form = .block ∧ k = .openCurly) := by
  cases k <;> cases h <;> simp

/-- A token that can start an expression starts no statement of another form, and ends nothing. -/
theorem standard_of_opens (h : k.opens = true) :
    standard.statementForm k = none ∧ k ≠ .eof ∧ k ≠ .closeCurly ∧ k ≠ .closeParen ∧
      k ≠ .semicolon := by
  cases k <;> cases h <;> simp [standard]

theorem ne_of_opensStatement (h : k.opensStatement = true) : k ≠ .eof ∧ k ≠ .closeCurly := by
  constructor <;> rintro rfl <;> cases h

end

/-! ## Single tokens -/

theorem Token.atom_eq_ok_iff {t : Token} {e : Expr} : t.atom = .ok e ↔ Atom t e := by
  constructor
  · intro h
    unfold Token.atom at h
    split at h
    next hk => cases h; exact .name hk
    next hk =>
      cases hn : Numeral.integer? t.value with
      | some n => rw [hn] at h; cases h; exact .int hk hn
      | none => rw [hn] at h; cases h
    next hk =>
      cases hx : Numeral.binary64? t.value with
      | some x => rw [hx] at h; cases h; exact .float hk hx
      | none => rw [hx] at h; cases h
    next hk =>
      cases hc : Literal.charValue? t.value with
      | some c => rw [hc] at h; cases h; exact .char hk hc
      | none => rw [hc] at h; cases h
    next hk => cases h; exact .string hk
    next hk => cases h; exact .true hk
    next hk => cases h; exact .false hk
    next hk => cases h; exact .null hk
    next => cases h
  · intro h
    cases h <;> simp [Token.atom, *]

theorem Atom.standard_eq_none {t : Token} {e : Expr} (h : Atom t e) :
    standard.prefixOperator t.kind = none ∧ standard.operandForm t.kind = none := by
  cases h <;> simp [standard, *]

end ExprLang
