import ExprLang.Grammar.Derive

/-!
# `Proofs.Reading.Success` — what it takes for a rule to succeed

For every rule one equivalence: the rule answers with a tree exactly if the readings inside it do,
one after the other, with the tokens in between that it asks for. Everything that is said of
successful readings — that they take tokens, that their tokens derive their trees, that derived
tokens are read — follows from these equivalences alone, and none of them looks into a rule again.

## Contents
- `bind_eq_ok` and its like: single steps.
- `Table.leftPower`, `Table.stopsAt`: how tightly the next token goes on with what was read.
- `Rule.expr_eq_ok` … `Rule.program_eq_ok`: the rules.
-/

namespace ExprLang

/-! ## Single steps -/

namespace Parse

variable {α β : Type} {s s' : TokenStream}

/-- **A sequence succeeds** if both of its halves do, the second one where the first one ended. -/
theorem bind_eq_ok {p : Parse α} {f : α → Parse β} {b : β} :
    (p >>= f) s = .ok b s' ↔ ∃ a s₁, p s = .ok a s₁ ∧ f a s₁ = .ok b s' := by
  rw [bind_apply]
  cases p s with
  | ok a s₁ =>
      refine ⟨fun h => ⟨a, s₁, rfl, h⟩, ?_⟩
      rintro ⟨_, _, h₁, h⟩
      cases h₁
      exact h
  | error d s₁ => simp
  | halt cause => simp

/-- Two sequences are read alike if their first halves are, and their second halves behind them. -/
theorem bind_eq_of_eq {p p' : Parse α} {f f' : α → Parse β} (hp : p s = p' s)
    (hf : ∀ a s₁, p s = .ok a s₁ → f a s₁ = f' a s₁) : (p >>= f) s = (p' >>= f') s := by
  rw [bind_apply, bind_apply, ← hp]
  cases hps : p s with
  | ok a s₁ => exact hf a s₁ hps
  | error d s₁ => rfl
  | halt cause => rfl

/-- It does not matter how the steps of a sequence are put together. -/
theorem bind_bind {γ : Type} (p : Parse α) (f : α → Parse β) (g : β → Parse γ) :
    ((p >>= f) >>= g) s = (p >>= fun a => f a >>= g) s := by
  rw [bind_apply, bind_apply, bind_apply]
  cases p s <;> rfl

theorem current_bind (f : Token → Parse β) : (current >>= f) s = f s.peek s := rfl
theorem kind_bind (f : Kind → Parse β) : (kind >>= f) s = f s.peek.kind s := rfl
theorem advance_bind (f : Token → Parse β) : (advance >>= f) s = f s.peek s.advance := rfl

theorem expectOr_eq_ok {k : Kind} {problem : Problem} {t : Token} :
    expectOr k problem s = .ok t s' ↔ s.peek.kind = k ∧ s.peek = t ∧ s.advance = s' := by
  by_cases hk : s.peek.kind = k <;> simp [expectOr, Token.is, hk]

theorem expect_eq_ok {k : Kind} {what : String} {t : Token} :
    expect k what s = .ok t s' ↔ s.peek.kind = k ∧ s.peek = t ∧ s.advance = s' :=
  expectOr_eq_ok

/-- A branch on a condition succeeds in one of two ways. -/
theorem ite_eq_ok {c : Prop} [Decidable c] {p q : Parse α} {a : α} :
    (if c then p else q) s = .ok a s' ↔ c ∧ p s = .ok a s' ∨ ¬c ∧ q s = .ok a s' := by
  by_cases hc : c <;> simp [hc]

end Parse

/-! ## How a token goes on with the expression before it -/

/-- How tightly a token of kind `k` binds the expression on its left, if it goes on with one: a
    postfix form before an infix operator. -/
def Table.leftPower (t : Table) (k : Kind) : Option Nat :=
  match t.postfixForm k with
  | some (power, _) => some power
  | none => (t.infixPowers k).map (·.left)

/-- A token of kind `k` ends every expression that is read at the power `least`. -/
def Table.StopsAt (t : Table) (least : Nat) (k : Kind) : Prop :=
  ∀ power, t.leftPower k = some power → power < least

namespace Table

variable {t : Table} {least : Nat} {k : Kind}

theorem leftPower_of_postfixForm {power : Nat} {form : PostfixForm}
    (h : t.postfixForm k = some (power, form)) : t.leftPower k = some power := by
  simp [leftPower, h]

theorem leftPower_of_infixPowers {powers : InfixPowers} (hp : t.postfixForm k = none)
    (h : t.infixPowers k = some powers) : t.leftPower k = some powers.left := by
  simp [leftPower, hp, h]

theorem StopsAt.mono {least' : Nat} (h : t.StopsAt least k) (hle : least ≤ least') :
    t.StopsAt least' k :=
  fun power hpower => Nat.lt_of_lt_of_le (h power hpower) hle

/-- **A token goes on with an expression in one of two ways**, and otherwise ends it. -/
theorem stopsAt_or (t : Table) (least : Nat) (k : Kind) :
    t.StopsAt least k ∨
      (∃ power form, t.postfixForm k = some (power, form) ∧ least ≤ power) ∨
      (t.postfixForm k = none ∧ ∃ powers, t.infixPowers k = some powers ∧ least ≤ powers.left) := by
  have hstops : ∀ power, t.leftPower k = some power → power < least → t.StopsAt least k := by
    intro power hpower hlt power' hpower'
    rw [hpower] at hpower'
    exact Option.some.inj hpower' ▸ hlt
  cases hp : t.postfixForm k with
  | some entry =>
      obtain ⟨power, form⟩ := entry
      rcases Nat.lt_or_ge power least with hlt | hge
      · exact Or.inl (hstops power (leftPower_of_postfixForm hp) hlt)
      · exact Or.inr (Or.inl ⟨power, form, rfl, hge⟩)
  | none =>
      cases hi : t.infixPowers k with
      | some powers =>
          rcases Nat.lt_or_ge powers.left least with hlt | hge
          · exact Or.inl (hstops powers.left (leftPower_of_infixPowers hp hi) hlt)
          · exact Or.inr (Or.inr ⟨rfl, powers, rfl, hge⟩)
      | none => exact Or.inl (by simp [StopsAt, leftPower, hp, hi])

end Table

/-! ## The rules -/

namespace Rule

open Parse

variable {t : Table} {read : {α : Type} → Phrase α → Parse α} {s s' : TokenStream}

theorem typeName_eq_ok {type : TypeName} :
    typeName s = .ok type s' ↔
      s.peek.kind = .identifier ∧ .named s.peek.value = type ∧ s.advance = s' := by
  simp [typeName, bind_eq_ok, expect_eq_ok, and_assoc]

theorem pattern_eq_ok {subject : Pattern} :
    pattern s = .ok subject s' ↔
      s.peek.kind = .identifier ∧ .named s.peek.value = subject ∧ s.advance = s' := by
  simp [pattern, bind_eq_ok, expect_eq_ok, and_assoc]

theorem atom_eq_ok {e : Expr} :
    atom s = .ok e s' ↔ s.peek.atom = .ok e ∧ s.advance = s' := by
  simp only [atom, current_bind]
  cases ha : s.peek.atom with
  | ok e₁ => simp [advance_bind]
  | error problem => simp

/-! ### Expressions -/

theorem expr_eq_ok {least : Nat} {assignable : Bool} {e : Expr} :
    expr read least assignable s = .ok e s' ↔
      ∃ left s₁, read .operand s = .ok left s₁ ∧
        read (.operators least assignable left) s₁ = .ok e s' :=
  bind_eq_ok

theorem combine_eq_ok {assignable : Bool} {operator : Token} {left right e : Expr} :
    combine t assignable operator left right s = .ok e s' ↔
      s = s' ∧
        ((∃ o, t.assignOperator operator.kind = some o ∧ assignable = true ∧
            .assign o left right = e) ∨
          (t.assignOperator operator.kind = none ∧
            ∃ o, t.binaryOperator operator.kind = some o ∧ .binary o left right = e)) := by
  unfold combine
  cases ha : t.assignOperator operator.kind with
  | some o => cases assignable <;> simp [and_comm]
  | none => cases hb : t.binaryOperator operator.kind <;> simp [and_comm]

/-! The operator loop goes one of three ways, and the next token says which. -/

section

variable {least : Nat} {assignable : Bool} {left : Expr}

/-- It ends at a token that does not bind tightly enough. -/
theorem operators_of_stopsAt (h : t.StopsAt least s.peek.kind) :
    operators t read least assignable left s = .ok left s := by
  simp only [operators, bind_apply, current_apply]
  cases hp : t.postfixForm s.peek.kind with
  | some entry =>
      have hlt := h _ (Table.leftPower_of_postfixForm hp)
      simp only [if_pos hlt, pure_apply]
  | none =>
      cases hi : t.infixPowers s.peek.kind with
      | some powers =>
          have hlt := h _ (Table.leftPower_of_infixPowers hp hi)
          simp only [if_pos hlt, pure_apply]
      | none => rfl

/-- It goes on behind a postfix form. -/
theorem operators_of_postfixForm {power : Nat} {form : PostfixForm}
    (hp : t.postfixForm s.peek.kind = some (power, form)) (hle : least ≤ power) :
    operators t read least assignable left s =
      (read (.postfixForm form left) >>= fun e => read (.operators least assignable e)) s := by
  simp only [operators, bind_apply, current_apply, hp]
  rw [if_neg (Nat.not_lt.mpr hle)]
  rfl

/-- It goes on behind an infix operator and the operand on its right. -/
theorem operators_of_infixPowers {powers : InfixPowers}
    (hp : t.postfixForm s.peek.kind = none) (hi : t.infixPowers s.peek.kind = some powers)
    (hle : least ≤ powers.left) :
    operators t read least assignable left s =
      (read (.expr powers.right assignable) >>= fun right =>
        combine t assignable s.peek left right >>= fun e =>
          read (.operators least assignable e)) s.advance := by
  simp only [operators, bind_apply, current_apply, hp, hi]
  rw [if_neg (Nat.not_lt.mpr hle)]
  rfl

theorem operators_eq_ok {e : Expr} :
    operators t read least assignable left s = .ok e s' ↔
      (t.StopsAt least s.peek.kind ∧ left = e ∧ s = s') ∨
      (∃ power form e₁ s₁, t.postfixForm s.peek.kind = some (power, form) ∧ least ≤ power ∧
        read (.postfixForm form left) s = .ok e₁ s₁ ∧
        read (.operators least assignable e₁) s₁ = .ok e s') ∨
      (∃ powers right e₁ s₁, t.postfixForm s.peek.kind = none ∧
        t.infixPowers s.peek.kind = some powers ∧ least ≤ powers.left ∧
        read (.expr powers.right assignable) s.advance = .ok right s₁ ∧
        combine t assignable s.peek left right s₁ = .ok e₁ s₁ ∧
        read (.operators least assignable e₁) s₁ = .ok e s') := by
  constructor
  · intro h
    rcases t.stopsAt_or least s.peek.kind with
      hstops | ⟨power, form, hp, hle⟩ | ⟨hp, powers, hi, hle⟩
    · rw [operators_of_stopsAt hstops] at h
      cases h
      exact Or.inl ⟨hstops, rfl, rfl⟩
    · rw [operators_of_postfixForm hp hle] at h
      obtain ⟨e₁, s₁, h₁, h⟩ := bind_eq_ok.mp h
      exact Or.inr (Or.inl ⟨power, form, e₁, s₁, hp, hle, h₁, h⟩)
    · rw [operators_of_infixPowers hp hi hle] at h
      obtain ⟨right, s₁, h₁, hrest⟩ := bind_eq_ok.mp h
      obtain ⟨e₁, s₂, h₂, hloop⟩ := bind_eq_ok.mp hrest
      obtain rfl : s₁ = s₂ := (combine_eq_ok.mp h₂).1
      exact Or.inr (Or.inr ⟨powers, right, e₁, s₁, hp, hi, hle, h₁, h₂, hloop⟩)
  · rintro (⟨hstops, rfl, rfl⟩ | ⟨power, form, e₁, s₁, hp, hle, h₁, h⟩ |
      ⟨powers, right, e₁, s₁, hp, hi, hle, h₁, h₂, h⟩)
    · exact operators_of_stopsAt hstops
    · rw [operators_of_postfixForm hp hle]
      exact bind_eq_ok.mpr ⟨e₁, s₁, h₁, h⟩
    · rw [operators_of_infixPowers hp hi hle]
      exact bind_eq_ok.mpr ⟨right, s₁, h₁, bind_eq_ok.mpr ⟨e₁, s₁, h₂, h⟩⟩

end

theorem operand_eq_ok {e : Expr} :
    operand t read s = .ok e s' ↔
      (∃ power o subject, t.prefixOperator s.peek.kind = some (power, o) ∧
        read (.expr power false) s.advance = .ok subject s' ∧ .unary o subject = e) ∨
      (t.prefixOperator s.peek.kind = none ∧
        read (.operandForm ((t.operandForm s.peek.kind).getD .atom)) s = .ok e s') := by
  simp only [operand, kind_bind]
  cases hp : t.prefixOperator s.peek.kind with
  | some entry =>
      obtain ⟨power, o⟩ := entry
      simp only [advance_bind, bind_eq_ok, pure_apply, Reply.ok.injEq]
      constructor
      · rintro ⟨subject, _, h, rfl, rfl⟩
        exact Or.inl ⟨power, o, subject, rfl, h, rfl⟩
      · rintro (⟨_, _, subject, hentry, h, rfl⟩ | ⟨hentry, -⟩)
        · cases hentry
          exact ⟨subject, _, h, rfl, rfl⟩
        · cases hentry
  | none => simp

theorem grouping_eq_ok {e : Expr} :
    grouping read s = .ok e s' ↔
      ∃ inner s₁, read (.expr 0 false) s.advance = .ok inner s₁ ∧ s₁.peek.kind = .closeParen ∧
        inner = e ∧ s₁.advance = s' := by
  simp [grouping, advance_bind, bind_eq_ok, expect_eq_ok, and_assoc]

theorem ifElse_eq_ok {e : Expr} :
    ifElse read s = .ok e s' ↔
      ∃ condition s₁ truthy s₂, read (.expr 0 false) s.advance = .ok condition s₁ ∧
        read (.operandForm .block) s₁ = .ok truthy s₂ ∧
        ((s₂.peek.kind = .kwElse ∧ ∃ falsy,
            read (.operandForm .block) s₂.advance = .ok falsy s' ∧
            .ifElse condition truthy (some falsy) = e) ∨
          (s₂.peek.kind ≠ .kwElse ∧ .ifElse condition truthy none = e ∧ s₂ = s')) := by
  simp [ifElse, advance_bind, kind_bind, ite_eq_ok, bind_eq_ok]

theorem whileLoop_eq_ok {e : Expr} :
    whileLoop read s = .ok e s' ↔
      ∃ condition s₁ body, read (.expr 0 false) s.advance = .ok condition s₁ ∧
        read (.operandForm .block) s₁ = .ok body s' ∧ .whileLoop condition body = e := by
  simp [whileLoop, advance_bind, bind_eq_ok]

theorem forLoop_eq_ok {e : Expr} :
    forLoop read s = .ok e s' ↔
      ∃ subject s₁ iterable s₂ body, pattern s.advance = .ok subject s₁ ∧
        s₁.peek.kind = .kwIn ∧ read (.expr 0 false) s₁.advance = .ok iterable s₂ ∧
        read (.operandForm .block) s₂ = .ok body s' ∧ .forLoop subject iterable body = e := by
  simp [forLoop, advance_bind, expect_eq_ok, bind_eq_ok, and_assoc]

theorem block_eq_ok {e : Expr} :
    block read s = .ok e s' ↔
      s.peek.kind = .openCurly ∧ ∃ statements result s₁,
        read .body s.advance = .ok (statements, result) s₁ ∧ s₁.peek.kind = .closeCurly ∧
        .block statements result = e ∧ s₁.advance = s' := by
  simp [block, expect_eq_ok, bind_eq_ok, and_assoc]

theorem member_eq_ok {subject e : Expr} :
    member subject s = .ok e s' ↔
      s.advance.peek.kind = .identifier ∧ .member subject s.advance.peek.value = e ∧
        s.advance.advance = s' := by
  simp [member, advance_bind, bind_eq_ok, expect_eq_ok, and_assoc]

theorem index_eq_ok {subject e : Expr} :
    index read subject s = .ok e s' ↔
      ∃ key s₁, read (.expr 0 false) s.advance = .ok key s₁ ∧ s₁.peek.kind = .closeBracket ∧
        .index subject key = e ∧ s₁.advance = s' := by
  simp [index, advance_bind, bind_eq_ok, expect_eq_ok, and_assoc]

theorem call_eq_ok {subject e : Expr} :
    call read subject s = .ok e s' ↔
      ∃ given s₁, read .arguments s.advance = .ok given s₁ ∧ s₁.peek.kind = .closeParen ∧
        .call subject given = e ∧ s₁.advance = s' := by
  simp [call, advance_bind, bind_eq_ok, expect_eq_ok, and_assoc]

theorem arguments_eq_ok {es : List Expr} :
    arguments read s = .ok es s' ↔
      (s.peek.kind = .closeParen ∧ es = [] ∧ s = s') ∨
      (s.peek.kind ≠ .closeParen ∧ ∃ first s₁, read (.expr 0 false) s = .ok first s₁ ∧
        ((s₁.peek.kind = .comma ∧ ∃ more, read .arguments s₁.advance = .ok more s' ∧
            first :: more = es) ∨
          (s₁.peek.kind ≠ .comma ∧ [first] = es ∧ s₁ = s'))) := by
  simp [arguments, kind_bind, advance_bind, bind_eq_ok, ite_eq_ok]

theorem parameters_eq_ok {ps : List Parameter} :
    parameters read s = .ok ps s' ↔
      (s.peek.kind = .closeParen ∧ ps = [] ∧ s = s') ∨
      (s.peek.kind ≠ .closeParen ∧ ∃ first s₁, read .parameter s = .ok first s₁ ∧
        ((s₁.peek.kind = .comma ∧ ∃ more, read .parameters s₁.advance = .ok more s' ∧
            first :: more = ps) ∨
          (s₁.peek.kind ≠ .comma ∧ [first] = ps ∧ s₁ = s'))) := by
  simp [parameters, kind_bind, advance_bind, bind_eq_ok, ite_eq_ok]

theorem statement_eq_ok {statement : Statement} :
    Rule.statement t read s = .ok statement s' ↔
      (∃ form, t.statementForm s.peek.kind = some form ∧
        read (.statementForm form) s = .ok statement s') ∨
      (t.statementForm s.peek.kind = none ∧ ∃ e s₁, read (.expr 0 true) s = .ok e s₁ ∧
        s₁.peek.kind = .semicolon ∧ .expr e = statement ∧ s₁.advance = s') := by
  simp only [Rule.statement, kind_bind]
  cases hf : t.statementForm s.peek.kind with
  | some form => simp
  | none => simp [bind_eq_ok, expect_eq_ok, and_assoc]

theorem jumpValue_eq_ok {value : Option Expr} :
    jumpValue read s = .ok value s' ↔
      (s.advance.peek.kind = .semicolon ∧ none = value ∧ s.advance.advance = s') ∨
      (s.advance.peek.kind ≠ .semicolon ∧ s.advance.peek.kind ≠ .closeCurly ∧
        ∃ e s₁, read (.expr 0 false) s.advance = .ok e s₁ ∧ s₁.peek.kind = .semicolon ∧
          some e = value ∧ s₁.advance = s') := by
  by_cases hk : s.advance.peek.kind = .semicolon
  · simp [jumpValue, advance_bind, kind_bind, bind_eq_ok, expect_eq_ok, hk]
    exact and_comm
  · simp [jumpValue, advance_bind, kind_bind, bind_eq_ok, expect_eq_ok, ite_eq_ok, hk, and_assoc]

theorem letIn_eq_ok {statement : Statement} :
    letIn read s = .ok statement s' ↔
      ∃ p s₁, read .parameter s.advance = .ok p s₁ ∧ s₁.peek.kind = .semicolon ∧
        .letIn p = statement ∧ s₁.advance = s' := by
  simp [letIn, advance_bind, bind_eq_ok, expect_eq_ok, and_assoc]

theorem defaultValue_eq_ok {value : Option Expr} :
    defaultValue read s = .ok value s' ↔
      (s.peek.kind = .assignment ∧ ∃ e, read (.expr 0 false) s.advance = .ok e s' ∧
        some e = value) ∨
      (s.peek.kind ≠ .assignment ∧ none = value ∧ s = s') := by
  simp [defaultValue, advance_bind, kind_bind, bind_eq_ok, ite_eq_ok]

theorem parameter_eq_ok {p : Parameter} :
    parameter read s = .ok p s' ↔
      ∃ subject s₁, pattern s = .ok subject s₁ ∧
        ((s₁.peek.kind = .colon ∧ ∃ type s₂ value, typeName s₁.advance = .ok type s₂ ∧
            defaultValue read s₂ = .ok value s' ∧ ⟨subject, some type, value⟩ = p) ∨
          (s₁.peek.kind ≠ .colon ∧ ∃ value, defaultValue read s₁ = .ok value s' ∧
            ⟨subject, none, value⟩ = p)) := by
  simp [parameter, advance_bind, kind_bind, bind_eq_ok, ite_eq_ok]

theorem function_eq_ok {statement : Statement} :
    function read s = .ok statement s' ↔
      s.advance.peek.kind = .identifier ∧ s.advance.advance.peek.kind = .openParen ∧
      ∃ ps s₁, read .parameters s.advance.advance.advance = .ok ps s₁ ∧
        s₁.peek.kind = .closeParen ∧
        ((s₁.advance.peek.kind = .arrow ∧ ∃ result s₂ body,
            typeName s₁.advance.advance = .ok result s₂ ∧
            read (.operandForm .block) s₂ = .ok body s' ∧
            .function ⟨s.advance.peek.value, ps, some result, body⟩ = statement) ∨
          (s₁.advance.peek.kind ≠ .arrow ∧ ∃ body,
            read (.operandForm .block) s₁.advance = .ok body s' ∧
            .function ⟨s.advance.peek.value, ps, none, body⟩ = statement)) := by
  simp [function, advance_bind, kind_bind, bind_eq_ok, expect_eq_ok, ite_eq_ok, and_assoc]

theorem program_eq_ok {ss : List Statement} :
    program read s = .ok ss s' ↔
      (s.peek.kind = .eof ∧ ss = [] ∧ s = s') ∨
      (s.peek.kind ≠ .eof ∧ ∃ first s₁ more, read .statement s = .ok first s₁ ∧
        read .program s₁ = .ok more s' ∧ first :: more = ss) := by
  simp [program, kind_bind, bind_eq_ok, ite_eq_ok]

/-- A statement in front of the rest of a body. -/
theorem consBody_eq_ok {p : Parse (List Statement × Option Expr)} {first : Statement}
    {ss : List Statement} {result : Option Expr} :
    (do let (more, r) ← p; return (first :: more, r) : Parse _) s = .ok (ss, result) s' ↔
      ∃ more, p s = .ok (more, result) s' ∧ first :: more = ss := by
  simp only [bind_eq_ok, pure_apply, Reply.ok.injEq, Prod.mk.injEq]
  constructor
  · rintro ⟨⟨more, r⟩, s₁, h, ⟨rfl, rfl⟩, rfl⟩
    exact ⟨more, h, rfl⟩
  · rintro ⟨more, h, rfl⟩
    exact ⟨(more, result), s', h, ⟨rfl, rfl⟩, rfl⟩

theorem body_eq_ok {ss : List Statement} {result : Option Expr} :
    body t read s = .ok (ss, result) s' ↔
      ((s.peek.kind = .closeCurly ∨ s.peek.kind = .eof) ∧ ss = [] ∧ none = result ∧ s = s') ∨
      (s.peek.kind ≠ .closeCurly ∧ s.peek.kind ≠ .eof ∧
        ((∃ form first s₁ more, t.statementForm s.peek.kind = some form ∧
            read (.statementForm form) s = .ok first s₁ ∧
            read .body s₁ = .ok (more, result) s' ∧ first :: more = ss) ∨
          (t.statementForm s.peek.kind = none ∧ ∃ e s₁, read (.expr 0 true) s = .ok e s₁ ∧
            ((s₁.peek.kind = .semicolon ∧ ∃ more, read .body s₁.advance = .ok (more, result) s' ∧
                .expr e :: more = ss) ∨
              (s₁.peek.kind = .closeCurly ∧ ss = [] ∧ some e = result ∧ s₁ = s'))))) := by
  simp only [body, kind_bind, ite_eq_ok]
  have hend : (pure ([], none) : Parse (List Statement × Option Expr)) s = .ok (ss, result) s' ↔
      ss = [] ∧ none = result ∧ s = s' := by simp [and_assoc, eq_comm]
  rw [hend, not_or, and_assoc]
  refine or_congr Iff.rfl (and_congr_right fun _ => and_congr_right fun _ => ?_)
  cases hf : t.statementForm s.peek.kind with
  | some form =>
      rw [bind_eq_ok]
      simp [consBody_eq_ok]
  | none =>
      simp only [bind_eq_ok, kind_bind]
      simp
      refine exists_congr fun e => exists_congr fun s₁ => and_congr_right fun _ => ?_
      -- what follows the expression is one of two kinds, or a problem
      generalize s₁.peek.kind = k
      cases k
      all_goals simp [advance_bind, consBody_eq_ok, and_assoc]

end Rule
end ExprLang
