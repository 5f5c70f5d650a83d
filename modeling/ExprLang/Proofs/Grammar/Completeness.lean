import ExprLang.Proofs.Grammar.Powers
import ExprLang.Proofs.Reading.Depth
import ExprLang.Proofs.Reading.Stream

/-!
# `Proofs.Grammar.Completeness` — what is derived is read

Tokens that derive a tree are read as this tree, whatever stands behind them, as long as it does not
go on with them. The proof is one induction on the derivation. For the layers of expressions, which
are not phrases of their own, it is stated with a continuation: reading an expression that starts
with tokens of the layer comes down to reading the operators behind them (`Category.ReadAs`). So a
layer may be entered at any power up to its own, and the operators that follow are still to come.

## Contents
- `Kind.Ends`: tokens that no expression goes on with.
- `Category.ReadAs`: what the induction shows for each category.
- `read_operators_of_binary?` and its like: single steps of the operator loop.
- `Derives.readAs`: the induction.
-/

namespace ExprLang

/-- No expression goes on with a token of this kind. -/
def Kind.Ends (k : Kind) : Prop := standard.leftPower k = none ∧ k ≠ .kwElse

/-- The tokens are read as the tree, if what follows them does not go on with them. -/
def Category.ReadAs : (c : Category) → List Token → c.Tree → Prop
  | .layer l, w, e => ∀ (least : Nat) (assignable : Bool) (rest : TokenStream),
    least ≤ l.leftPower → standard.StopsAt l.bound rest.peek.kind → rest.peek.kind ≠ .kwElse →
    standard.read (.expr least assignable) (rest.behind w) =
      standard.read (.operators least assignable e) rest
  | .expression assignable, w, e => ∀ (least : Nat) (rest : TokenStream),
    least ≤ 4 → rest.peek.kind.Ends →
    standard.read (.expr least assignable) (rest.behind w) = .ok e rest
  | .block, w, e => ∀ rest : TokenStream,
    standard.read (.operandForm .block) (rest.behind w) = .ok e rest
  | .body, w, parts => ∀ rest : TokenStream, rest.peek.kind = .closeCurly →
    standard.read .body (rest.behind w) = .ok parts rest
  | .arguments, w, es => ∀ rest : TokenStream, rest.peek.kind = .closeParen →
    standard.read .arguments (rest.behind w) = .ok es rest
  | .statement, w, st => ∀ rest : TokenStream,
    standard.read .statement (rest.behind w) = .ok st rest
  | .value, w, v => ∀ (t : Token) (rest : TokenStream), rest.peek.kind = .semicolon →
    Rule.jumpValue standard.read (rest.behind (t :: w)) = .ok v rest.advance
  | .parameter, w, p => ∀ rest : TokenStream, rest.peek.kind.Ends → rest.peek.kind ≠ .colon →
    standard.read .parameter (rest.behind w) = .ok p rest
  | .default, w, v => ∀ rest : TokenStream, rest.peek.kind.Ends →
    Rule.defaultValue standard.read (rest.behind w) = .ok v rest
  | .parameters, w, ps => ∀ rest : TokenStream, rest.peek.kind = .closeParen →
    standard.read .parameters (rest.behind w) = .ok ps rest
  | .program, w, ss => ∀ rest : TokenStream, rest.peek.kind = .eof →
    standard.read .program (rest.behind w) = .ok ss rest

/-! ## Single steps -/

open Parse Rule TokenStream

section

variable {least : Nat} {assignable : Bool} {left e : Expr} {s rest : TokenStream}

theorem read_operators_of_stopsAt (h : standard.StopsAt least s.peek.kind) :
    standard.read (.operators least assignable left) s = .ok left s := by
  rw [standard_read_eq]
  exact operators_of_stopsAt h

/-- An operand that is read leaves the operators behind it. -/
theorem read_expr_of_operand (h : standard.read .operand s = .ok e rest) :
    standard.read (.expr least assignable) s =
      standard.read (.operators least assignable e) rest := by
  rw [standard_read_eq]
  show (standard.read .operand >>= _) s = _
  rw [bind_apply, h]

/-- An operand that is called for by its first token. -/
theorem read_operand_of_operandForm {form : OperandForm}
    (hp : standard.prefixOperator s.peek.kind = none)
    (hf : (standard.operandForm s.peek.kind).getD .atom = form)
    (h : operandForm standard.read form s = .ok e rest) :
    standard.read .operand s = .ok e rest := by
  rw [standard_read_eq]
  refine operand_eq_ok.mpr (Or.inr ⟨hp, ?_⟩)
  rw [hf, standard_read_eq]
  exact h

/-- A postfix form that is read leaves the operators behind it. -/
theorem read_operators_of_postfixForm {form : PostfixForm}
    (hf : standard.postfixForm s.peek.kind = some (33, form)) (hle : least ≤ 33)
    (h : postfixForm standard.read form left s = .ok e rest) :
    standard.read (.operators least assignable left) s =
      standard.read (.operators least assignable e) rest := by
  rw [standard_read_eq]
  show operators standard standard.read least assignable left s = _
  have hform : standard.read (.postfixForm form left) s = .ok e rest :=
    (standard_read_eq _ s).trans h
  rw [operators_of_postfixForm hf hle, bind_apply, hform]

/-- An infix operator, with an operand on its right that is read, leaves the operators behind. -/
theorem read_operators_of_infixPowers {powers : InfixPowers} {right : Expr} {t : Token}
    {v : List Token} (hp : standard.postfixForm t.kind = none)
    (hi : standard.infixPowers t.kind = some powers) (hle : least ≤ powers.left)
    (hright : standard.read (.expr powers.right assignable) (rest.behind v) = .ok right rest)
    (hcombine : combine standard assignable t left right rest = .ok e rest) :
    standard.read (.operators least assignable left) (rest.behind (t :: v)) =
      standard.read (.operators least assignable e) rest := by
  rw [standard_read_eq]
  show operators standard standard.read least assignable left (rest.behind (t :: v)) = _
  rw [operators_of_infixPowers (s := rest.behind (t :: v)) hp hi hle]
  rw [advance_behind_cons, peek_behind_cons]
  simp only [bind_apply, hright, hcombine]

end

/-! ## Expressions -/

section

variable {u v w : List Token} {e left right subject : Expr} {t t' : Token} {l : Layer}

theorem tighter_readAs {l' : Layer} (hl : l.next? = some l')
    (h : (Category.layer l').ReadAs w e) : (Category.layer l).ReadAs w e := by
  intro least assignable rest hle hstops helse
  exact h least assignable rest (Nat.le_trans hle (Layer.leftPower_le_of_next? hl))
    (hstops.mono (Layer.bound_le_of_next? hl)) helse

/-- A phrase for an operand is read at every power. -/
theorem layer_readAs_of_operand
    (h : ∀ rest : TokenStream, rest.peek.kind ≠ .kwElse → standard.StopsAt l.bound rest.peek.kind →
      standard.read .operand (rest.behind w) = .ok e rest) : (Category.layer l).ReadAs w e := by
  intro least assignable rest _ hstops helse
  exact read_expr_of_operand (h rest helse hstops)

theorem binary_readAs {o : BinaryOperator} (ho : t.kind.binary? = some (l, o))
    (hleft : (Category.layer l.operands.1).ReadAs u left)
    (hright : (Category.layer l.operands.2).ReadAs v right) :
    (Category.layer l).ReadAs (u ++ t :: v) (.binary o left right) := by
  intro least assignable rest hle hstops helse
  obtain ⟨hl, hp, hi, hno, ho'⟩ := standard_of_binary? ho
  -- the operator does not go on with the operand on its left
  have hbehind : standard.StopsAt l.operands.1.bound t.kind := by
    intro power hpower
    rw [Table.leftPower_of_infixPowers hp hi] at hpower
    cases hpower
    exact Layer.leftPower_lt_bound_operands hl
  have helse' : t.kind ≠ .kwElse := by
    intro hk
    rw [hk] at ho
    cases ho
  -- the operand on its right is complete, since what follows stops the whole layer
  have hvalue : standard.read (.expr l.bound assignable) (rest.behind v) = .ok right rest := by
    rw [hright l.bound assignable rest (Layer.bound_le_leftPower_operands hl)
      (hstops.mono (Layer.bound_le_bound_operands _)) helse]
    exact read_operators_of_stopsAt hstops
  rw [behind_append, hleft least assignable (rest.behind (t :: v))
    (Nat.le_trans hle (Layer.leftPower_le_operands _)) hbehind helse']
  refine read_operators_of_infixPowers hp hi hle hvalue ?_
  exact combine_eq_ok.mpr ⟨rfl, Or.inr ⟨hno, o, ho', rfl⟩⟩

theorem unary_readAs {o : UnaryOperator} (ho : t.kind.unary? = some o)
    (h : (Category.layer .prefixed).ReadAs w subject) :
    (Category.layer .prefixed).ReadAs (t :: w) (.unary o subject) := by
  apply layer_readAs_of_operand
  intro rest helse hstops
  have hprefix : standard.prefixOperator t.kind = some (27, o) := by
    rw [standard_prefixOperator, ho]
    rfl
  rw [standard_read_eq]
  refine operand_eq_ok.mpr (Or.inl ⟨27, o, subject, hprefix, ?_, rfl⟩)
  rw [advance_behind_cons, h 27 false rest (by decide) hstops helse]
  exact read_operators_of_stopsAt hstops

/-- A postfix form goes on with the expression before it. -/
theorem postfix_readAs (form : PostfixForm)
    (hf : standard.postfixForm t.kind = some (33, form)) (hk : t.kind ≠ .kwElse)
    (hsubject : (Category.layer .postfixed).ReadAs u subject)
    (h : ∀ rest : TokenStream,
      postfixForm standard.read form subject (rest.behind (t :: v)) = .ok e rest) :
    (Category.layer .postfixed).ReadAs (u ++ t :: v) e := by
  intro least assignable rest hle _ _
  rw [behind_append, hsubject least assignable (rest.behind (t :: v)) hle
    (stopsAt_of_lt (by decide)) hk]
  exact read_operators_of_postfixForm hf hle (h rest)

/-- An operand with a form of its own starts with the token that calls for this form. -/
theorem primary_readAs (form : OperandForm) (hp : standard.prefixOperator t.kind = none)
    (hf : (standard.operandForm t.kind).getD .atom = form)
    (h : ∀ rest : TokenStream, rest.peek.kind ≠ .kwElse →
      operandForm standard.read form (rest.behind (t :: w)) = .ok e rest) :
    (Category.layer .primary).ReadAs (t :: w) e :=
  layer_readAs_of_operand fun rest helse _ => read_operand_of_operandForm hp hf (h rest helse)

/-- An expression is read up to a token that ends it. -/
theorem read_expr_before {assignable : Bool} {k : Kind}
    (h : (Category.expression assignable).ReadAs w e) (hk : t.kind = k) (hends : k.Ends)
    (rest : TokenStream) (v : List Token) :
    standard.read (.expr 0 assignable) (rest.behind (w ++ t :: v)) =
      .ok e (rest.behind (t :: v)) := by
  rw [behind_append]
  refine h 0 (rest.behind (t :: v)) (Nat.zero_le 4) ?_
  rw [peek_behind_cons, hk]
  exact hends

/-- An expression is read up to the block behind it. -/
theorem read_expr_before_block (h : (Category.expression false).ReadAs u e)
    (hv : StartsWith (· = .openCurly) v) (rest : TokenStream) (w : List Token) :
    standard.read (.expr 0 false) (rest.behind (u ++ (v ++ w))) =
      .ok e ((rest.behind w).behind v) := by
  obtain ⟨t, v', rfl, ht⟩ := hv
  rw [← behind_append, List.cons_append]
  exact read_expr_before h (of_decide_eq_true ht) ⟨rfl, by decide⟩ rest (v' ++ w)

theorem grouping_readAs (ht : t.kind = .openParen) (h : (Category.expression false).ReadAs w e)
    (ht' : t'.kind = .closeParen) : (Category.layer .primary).ReadAs (t :: (w ++ [t'])) e := by
  apply primary_readAs .grouping (by rw [ht]; rfl) (by rw [ht]; rfl)
  intro rest _
  have hinner := read_expr_before h ht' ⟨rfl, by decide⟩ rest []
  exact grouping_eq_ok.mpr ⟨e, rest.behind [t'], hinner, ht', rfl, rfl⟩

variable {condition truthy falsy body iterable : Expr}

theorem ifThen_readAs (ht : t.kind = .kwIf)
    (hcondition : (Category.expression false).ReadAs u condition)
    (hv : StartsWith (· = .openCurly) v) (htruthy : Category.block.ReadAs v truthy) :
    (Category.layer .primary).ReadAs (t :: (u ++ v)) (.ifElse condition truthy none) := by
  apply primary_readAs .ifElse (by rw [ht]; rfl) (by rw [ht]; rfl)
  intro rest helse
  have h₁ := read_expr_before_block hcondition hv rest []
  rw [List.append_nil] at h₁
  -- an `else` behind the block would belong to this conditional
  exact ifElse_eq_ok.mpr ⟨condition, _, truthy, rest, h₁, htruthy rest, Or.inr ⟨helse, rfl, rfl⟩⟩

theorem ifElse_readAs (ht : t.kind = .kwIf)
    (hcondition : (Category.expression false).ReadAs u condition)
    (hv : StartsWith (· = .openCurly) v) (htruthy : Category.block.ReadAs v truthy)
    (ht' : t'.kind = .kwElse) (hfalsy : Category.block.ReadAs w falsy) :
    (Category.layer .primary).ReadAs (t :: (u ++ (v ++ t' :: w)))
      (.ifElse condition truthy (some falsy)) := by
  apply primary_readAs .ifElse (by rw [ht]; rfl) (by rw [ht]; rfl)
  intro rest _
  have h₁ := read_expr_before_block hcondition hv rest (t' :: w)
  exact ifElse_eq_ok.mpr ⟨condition, _, truthy, rest.behind (t' :: w), h₁, htruthy _,
    Or.inl ⟨ht', falsy, hfalsy rest, rfl⟩⟩

theorem whileLoop_readAs (ht : t.kind = .kwWhile)
    (hcondition : (Category.expression false).ReadAs u condition)
    (hv : StartsWith (· = .openCurly) v) (hbody : Category.block.ReadAs v body) :
    (Category.layer .primary).ReadAs (t :: (u ++ v)) (.whileLoop condition body) := by
  apply primary_readAs .whileLoop (by rw [ht]; rfl) (by rw [ht]; rfl)
  intro rest _
  have h₁ := read_expr_before_block hcondition hv rest []
  rw [List.append_nil] at h₁
  exact whileLoop_eq_ok.mpr ⟨condition, _, body, h₁, hbody rest, rfl⟩

theorem forLoop_readAs {name : Token} (ht : t.kind = .kwFor) (hname : name.kind = .identifier)
    (ht' : t'.kind = .kwIn) (hiterable : (Category.expression false).ReadAs u iterable)
    (hv : StartsWith (· = .openCurly) v) (hbody : Category.block.ReadAs v body) :
    (Category.layer .primary).ReadAs (t :: name :: t' :: (u ++ v))
      (.forLoop (.named name.value) iterable body) := by
  apply primary_readAs .forLoop (by rw [ht]; rfl) (by rw [ht]; rfl)
  intro rest _
  have h₁ := read_expr_before_block hiterable hv rest []
  rw [List.append_nil] at h₁
  refine forLoop_eq_ok.mpr ⟨.named name.value, rest.behind (t' :: (u ++ v)), iterable, _, body, ?_,
    ht', h₁, hbody rest, rfl⟩
  exact pattern_eq_ok.mpr ⟨hname, rfl, rfl⟩

theorem blockPrimary_readAs (hw : StartsWith (· = .openCurly) w)
    (h : Category.block.ReadAs w e) : (Category.layer .primary).ReadAs w e := by
  obtain ⟨t, w', rfl, ht⟩ := hw
  have hk : t.kind = .openCurly := of_decide_eq_true ht
  apply primary_readAs .block (by rw [hk]; rfl) (by rw [hk]; rfl)
  intro rest _
  have hblock := h rest
  rwa [standard_read_eq] at hblock

theorem atom_readAs (h : Atom t e) : (Category.layer .primary).ReadAs [t] e := by
  obtain ⟨hp, hf⟩ := h.standard_eq_none
  apply primary_readAs .atom hp (by rw [hf]; rfl)
  intro rest _
  exact atom_eq_ok.mpr ⟨Token.atom_eq_ok_iff.mpr h, rfl⟩

theorem plain_readAs {assignable : Bool} (h : (Category.layer .disjunction).ReadAs w e) :
    (Category.expression assignable).ReadAs w e := by
  intro least rest hle hends
  rw [h least assignable rest (Nat.le_succ_of_le hle) (stopsAt_of_leftPower hends.1) hends.2]
  exact read_operators_of_stopsAt (stopsAt_of_leftPower hends.1)

theorem assign_readAs {o : AssignOperator} (ho : t.kind.assign? = some o)
    (hsubject : (Category.layer .disjunction).ReadAs u subject)
    (hvalue : (Category.expression true).ReadAs v e) :
    (Category.expression true).ReadAs (u ++ t :: v) (.assign o subject e) := by
  intro least rest hle hends
  obtain ⟨hp, hi, ho'⟩ := standard_of_assign? ho
  obtain ⟨hbehind, helse⟩ := stopsAt_of_assign? ho
  rw [behind_append]
  rw [hsubject least true (rest.behind (t :: v)) (Nat.le_succ_of_le hle) hbehind helse]
  rw [read_operators_of_infixPowers hp hi hle (hvalue 3 rest (by decide) hends)
    (combine_eq_ok.mpr ⟨rfl, Or.inl ⟨o, ho', rfl, rfl⟩⟩)]
  exact read_operators_of_stopsAt (stopsAt_of_leftPower hends.1)

theorem member_readAs {name : Token} (h : (Category.layer .postfixed).ReadAs u subject)
    (ht : t.kind = .dot) (hname : name.kind = .identifier) :
    (Category.layer .postfixed).ReadAs (u ++ [t, name]) (.member subject name.value) := by
  apply postfix_readAs .member (by rw [ht]; rfl) (by simp [ht]) h
  intro rest
  exact member_eq_ok.mpr ⟨hname, rfl, rfl⟩

theorem index_readAs (h : (Category.layer .postfixed).ReadAs u subject)
    (ht : t.kind = .openBracket) (hkey : (Category.expression false).ReadAs v e)
    (ht' : t'.kind = .closeBracket) :
    (Category.layer .postfixed).ReadAs (u ++ t :: (v ++ [t'])) (.index subject e) := by
  apply postfix_readAs .index (by rw [ht]; rfl) (by simp [ht]) h
  intro rest
  have h₁ := read_expr_before hkey ht' ⟨rfl, by decide⟩ rest []
  exact index_eq_ok.mpr ⟨e, rest.behind [t'], h₁, ht', rfl, rfl⟩

theorem call_readAs {given : List Expr} (h : (Category.layer .postfixed).ReadAs u subject)
    (ht : t.kind = .openParen) (hgiven : Category.arguments.ReadAs v given)
    (ht' : t'.kind = .closeParen) :
    (Category.layer .postfixed).ReadAs (u ++ t :: (v ++ [t'])) (.call subject given) := by
  apply postfix_readAs .call (by rw [ht]; rfl) (by simp [ht]) h
  intro rest
  have h₁ := hgiven (rest.behind [t']) ht'
  rw [← behind_append] at h₁
  exact call_eq_ok.mpr ⟨given, rest.behind [t'], h₁, ht', rfl, rfl⟩

theorem argumentsNil_readAs : Category.arguments.ReadAs [] [] := by
  intro rest hk
  rw [standard_read_eq]
  exact arguments_eq_ok.mpr (Or.inl ⟨hk, rfl, rfl⟩)

/-- A list of arguments starts with its first one. -/
theorem arguments_kind_ne (h : StartsWith Kind.opens u) (rest : TokenStream) :
    (rest.behind u).peek.kind ≠ .closeParen := by
  obtain ⟨t, u', rfl, ht⟩ := h
  exact (standard_of_opens ht).2.2.2.1

theorem argumentsOne_readAs (hstarts : StartsWith Kind.opens w)
    (h : (Category.expression false).ReadAs w e) : Category.arguments.ReadAs w [e] := by
  intro rest hk
  have h₁ : standard.read (.expr 0 false) (rest.behind w) = .ok e rest :=
    h 0 rest (by decide) (by rw [hk]; exact ⟨rfl, by decide⟩)
  rw [standard_read_eq]
  exact arguments_eq_ok.mpr (Or.inr ⟨arguments_kind_ne hstarts rest, e, rest, h₁,
    Or.inr ⟨by simp [hk], rfl, rfl⟩⟩)

theorem argumentsCons_readAs {es : List Expr} (hstarts : StartsWith Kind.opens u)
    (h : (Category.expression false).ReadAs u e) (ht : t.kind = .comma)
    (hmore : Category.arguments.ReadAs v es) :
    Category.arguments.ReadAs (u ++ t :: v) (e :: es) := by
  intro rest hk
  have h₁ := read_expr_before h ht ⟨rfl, by decide⟩ rest v
  rw [standard_read_eq]
  exact arguments_eq_ok.mpr (Or.inr ⟨arguments_kind_ne hstarts.append rest, e, rest.behind (t :: v),
    h₁, Or.inl ⟨ht, es, hmore rest hk, rfl⟩⟩)

end

/-! ## Blocks, parameters and statements -/

section

variable {u v w a : List Token} {e : Expr} {t t' name : Token} {ss : List Statement}
  {st : Statement} {result : Option Expr} {p : Parameter} {ps : List Parameter}

theorem block_readAs (ht : t.kind = .openCurly) (h : Category.body.ReadAs w (ss, result))
    (ht' : t'.kind = .closeCurly) :
    Category.block.ReadAs (t :: (w ++ [t'])) (.block ss result) := by
  intro rest
  have h₁ := h (rest.behind [t']) ht'
  rw [← behind_append] at h₁
  rw [standard_read_eq]
  exact block_eq_ok.mpr ⟨ht, ss, result, rest.behind [t'], h₁, ht', rfl, rfl⟩

theorem bodyNil_readAs : Category.body.ReadAs [] ([], none) := by
  intro rest hk
  rw [standard_read_eq]
  exact body_eq_ok.mpr (Or.inl ⟨Or.inl hk, rfl, rfl, rfl⟩)

theorem bodyResult_readAs (hstarts : StartsWith Kind.opens w)
    (h : (Category.expression true).ReadAs w e) : Category.body.ReadAs w ([], some e) := by
  intro rest hk
  have h₁ : standard.read (.expr 0 true) (rest.behind w) = .ok e rest :=
    h 0 rest (by decide) (by rw [hk]; exact ⟨rfl, by decide⟩)
  obtain ⟨t, w', rfl, ht⟩ := hstarts
  obtain ⟨hform, heof, hclose, -⟩ := standard_of_opens ht
  rw [standard_read_eq]
  exact body_eq_ok.mpr (Or.inr ⟨hclose, heof, Or.inr ⟨hform, e, rest, h₁,
    Or.inr ⟨hk, rfl, rfl, rfl⟩⟩⟩)

/-- A statement is read alike in a block and outside of one. -/
theorem bodyCons_readAs (hstarts : StartsWith Kind.opensStatement u)
    (h : Category.statement.ReadAs u st) (hmore : Category.body.ReadAs v (ss, result)) :
    Category.body.ReadAs (u ++ v) (st :: ss, result) := by
  intro rest hk
  have hfirst : standard.read .statement (rest.behind (u ++ v)) = .ok st (rest.behind v) := by
    rw [behind_append]
    exact h (rest.behind v)
  have hv := hmore rest hk
  obtain ⟨t, u', rfl, ht⟩ := hstarts
  obtain ⟨heof, hclose⟩ := ne_of_opensStatement ht
  -- both rules look at the same token first: a form of its own, or an expression
  rw [standard_read_eq] at hfirst ⊢
  refine body_eq_ok.mpr (Or.inr ⟨hclose, heof, ?_⟩)
  rcases statement_eq_ok.mp hfirst with ⟨form, hform, h₁⟩ | ⟨hform, e, s₁, h₁, hsemi, rfl, hs₁⟩
  · exact Or.inl ⟨form, st, rest.behind v, ss, hform, h₁, hv, rfl⟩
  · rw [← hs₁] at hv
    exact Or.inr ⟨hform, e, s₁, h₁, Or.inl ⟨hsemi, ss, hv, rfl⟩⟩

theorem exprStatement_readAs (hstarts : StartsWith Kind.opens w)
    (h : (Category.expression true).ReadAs w e) (ht : t.kind = .semicolon) :
    Category.statement.ReadAs (w ++ [t]) (.expr e) := by
  intro rest
  have h₁ := read_expr_before h ht ⟨rfl, by decide⟩ rest []
  obtain ⟨first, w', rfl, hfirst⟩ := hstarts
  rw [standard_read_eq]
  exact statement_eq_ok.mpr (Or.inr ⟨(standard_of_opens hfirst).1, e, rest.behind [t], h₁, ht, rfl,
    rfl⟩)

/-- A statement with a form of its own starts with the keyword of this form. -/
theorem statement_readAs {form : StatementForm} (hform : standard.statementForm t.kind = some form)
    (h : ∀ rest : TokenStream,
      statementForm standard.read form (rest.behind (t :: w)) = .ok st rest) :
    Category.statement.ReadAs (t :: w) st := by
  intro rest
  rw [standard_read_eq]
  refine statement_eq_ok.mpr (Or.inl ⟨form, hform, ?_⟩)
  rw [standard_read_eq]
  exact h rest

theorem letIn_readAs (ht : t.kind = .kwLet) (h : Category.parameter.ReadAs w p)
    (ht' : t'.kind = .semicolon) : Category.statement.ReadAs (t :: (w ++ [t'])) (.letIn p) := by
  apply statement_readAs (by rw [ht]; rfl)
  intro rest
  have h₁ := h (rest.behind [t']) (by rw [peek_behind_cons, ht']; exact ⟨rfl, by decide⟩)
    (by simp [ht'])
  rw [← behind_append] at h₁
  exact letIn_eq_ok.mpr ⟨p, rest.behind [t'], h₁, ht', rfl, rfl⟩

/-- All jumps are read by the rule of their value. -/
theorem statementForm_of_jump? {k : Kind} {f : Option Expr → Statement} (h : k.jump? = some f)
    (read : {α : Type} → Phrase α → Parse α) :
    ∃ form, standard.statementForm k = some form ∧
      statementForm read form = jumpValue read >>= fun value => pure (f value) := by
  cases k <;> cases h <;> exact ⟨_, rfl, rfl⟩

theorem jump_readAs {f : Option Expr → Statement} {value : Option Expr}
    (hf : t.kind.jump? = some f) (h : Category.value.ReadAs w value) (ht' : t'.kind = .semicolon) :
    Category.statement.ReadAs (t :: (w ++ [t'])) (f value) := by
  obtain ⟨form, hform, hrule⟩ := statementForm_of_jump? hf standard.read
  apply statement_readAs hform
  intro rest
  have h₁ := h t (rest.behind [t']) ht'
  rw [← behind_append] at h₁
  rw [hrule]
  exact bind_eq_ok.mpr ⟨value, rest, h₁, rfl⟩

theorem valueNone_readAs : Category.value.ReadAs [] none := by
  intro t rest hk
  exact jumpValue_eq_ok.mpr (Or.inl ⟨hk, rfl, rfl⟩)

theorem valueSome_readAs (hstarts : StartsWith Kind.opens w)
    (h : (Category.expression false).ReadAs w e) : Category.value.ReadAs w (some e) := by
  intro t rest hk
  have h₁ : standard.read (.expr 0 false) (rest.behind w) = .ok e rest :=
    h 0 rest (by decide) (by rw [hk]; exact ⟨rfl, by decide⟩)
  obtain ⟨first, w', rfl, hfirst⟩ := hstarts
  obtain ⟨-, -, hclose, -, hsemi⟩ := standard_of_opens hfirst
  exact jumpValue_eq_ok.mpr (Or.inr ⟨hsemi, hclose, e, rest, h₁, hk, rfl, rfl⟩)

theorem defaultNone_readAs : Category.default.ReadAs [] none := by
  intro rest hends
  refine defaultValue_eq_ok.mpr (Or.inr ⟨?_, rfl, rfl⟩)
  -- the sign of an assignment would go on with an expression
  intro hk
  have hpower := hends.1
  rw [behind_nil, hk] at *
  cases hpower

theorem defaultSome_readAs (ht : t.kind = .assignment)
    (h : (Category.expression false).ReadAs w e) : Category.default.ReadAs (t :: w) (some e) := by
  intro rest hends
  exact defaultValue_eq_ok.mpr (Or.inl ⟨ht, e, h 0 rest (by decide) hends, rfl⟩)

/-- What comes behind the type of a parameter does not announce a type. -/
theorem default_kind_ne {value : Option Expr} (hd : Derives .default w value) {rest : TokenStream}
    (hcolon : rest.peek.kind ≠ .colon) : (rest.behind w).peek.kind ≠ .colon := by
  cases hd with
  | defaultNone => exact hcolon
  | defaultSome ht _ => simp [ht]

theorem parameter_readAs {type : Option TypeName} {value : Option Expr}
    (hname : name.kind = .identifier) (htype : Annotation .colon a type)
    (hd : Derives .default w value) (h : Category.default.ReadAs w value) :
    Category.parameter.ReadAs (name :: (a ++ w)) ⟨.named name.value, type, value⟩ := by
  intro rest hends hcolon
  have hvalue := h rest hends
  rw [standard_read_eq]
  refine parameter_eq_ok.mpr ⟨.named name.value, rest.behind (a ++ w),
    pattern_eq_ok.mpr ⟨hname, rfl, rfl⟩, ?_⟩
  cases htype with
  | missing => exact Or.inr ⟨default_kind_ne hd hcolon, value, hvalue, rfl⟩
  | @given t name' ht hname' =>
      exact Or.inl ⟨ht, .named name'.value, rest.behind w, value,
        typeName_eq_ok.mpr ⟨hname', rfl, rfl⟩, hvalue, rfl⟩

theorem parametersNil_readAs : Category.parameters.ReadAs [] [] := by
  intro rest hk
  rw [standard_read_eq]
  exact parameters_eq_ok.mpr (Or.inl ⟨hk, rfl, rfl⟩)

/-- A list of parameters starts with its first one. -/
theorem parameters_kind_ne (h : StartsWith (· = .identifier) u) (rest : TokenStream) :
    (rest.behind u).peek.kind ≠ .closeParen := by
  obtain ⟨t, u', rfl, ht⟩ := h
  rw [peek_behind_cons, of_decide_eq_true ht]
  decide

theorem parametersOne_readAs (hstarts : StartsWith (· = .identifier) w)
    (h : Category.parameter.ReadAs w p) : Category.parameters.ReadAs w [p] := by
  intro rest hk
  have h₁ := h rest (by rw [hk]; exact ⟨rfl, by decide⟩) (by simp [hk])
  rw [standard_read_eq]
  exact parameters_eq_ok.mpr (Or.inr ⟨parameters_kind_ne hstarts rest, p, rest, h₁,
    Or.inr ⟨by simp [hk], rfl, rfl⟩⟩)

theorem parametersCons_readAs (hstarts : StartsWith (· = .identifier) u)
    (h : Category.parameter.ReadAs u p) (ht : t.kind = .comma)
    (hmore : Category.parameters.ReadAs v ps) :
    Category.parameters.ReadAs (u ++ t :: v) (p :: ps) := by
  intro rest hk
  have h₁ := h (rest.behind (t :: v)) (by rw [peek_behind_cons, ht]; exact ⟨rfl, by decide⟩)
    (by simp [ht])
  rw [← behind_append] at h₁
  rw [standard_read_eq]
  exact parameters_eq_ok.mpr (Or.inr ⟨parameters_kind_ne hstarts.append rest, p,
    rest.behind (t :: v), h₁, Or.inl ⟨ht, ps, hmore rest hk, rfl⟩⟩)

theorem function_readAs {opening closing : Token} {type : Option TypeName} {body : Expr}
    (ht : t.kind = .kwFn) (hname : name.kind = .identifier) (hopen : opening.kind = .openParen)
    (hps : Category.parameters.ReadAs u ps) (hclose : closing.kind = .closeParen)
    (htype : Annotation .arrow a type) (hv : StartsWith (· = .openCurly) v)
    (hbody : Category.block.ReadAs v body) :
    Category.statement.ReadAs (t :: name :: opening :: (u ++ closing :: (a ++ v)))
      (.function ⟨name.value, ps, type, body⟩) := by
  apply statement_readAs (by rw [ht]; rfl)
  intro rest
  have h₁ := hps (rest.behind (closing :: (a ++ v))) hclose
  rw [← behind_append] at h₁
  refine function_eq_ok.mpr ⟨hname, hopen, ps, rest.behind (closing :: (a ++ v)), h₁, hclose, ?_⟩
  cases htype with
  | missing =>
      -- the body starts with a brace, not with an arrow
      obtain ⟨first, v', rfl, hfirst⟩ := hv
      refine Or.inr ⟨?_, body, hbody rest, rfl⟩
      show first.kind ≠ .arrow
      rw [of_decide_eq_true hfirst]
      decide
  | @given arrow name' harrow hname' =>
      exact Or.inl ⟨harrow, .named name'.value, rest.behind v, body,
        typeName_eq_ok.mpr ⟨hname', rfl, rfl⟩, hbody rest, rfl⟩

theorem programNil_readAs : Category.program.ReadAs [] [] := by
  intro rest hk
  rw [standard_read_eq]
  exact program_eq_ok.mpr (Or.inl ⟨hk, rfl, rfl⟩)

theorem programCons_readAs (hstarts : StartsWith Kind.opensStatement u)
    (h : Category.statement.ReadAs u st) (hmore : Category.program.ReadAs v ss) :
    Category.program.ReadAs (u ++ v) (st :: ss) := by
  intro rest hk
  have hfirst := h (rest.behind v)
  obtain ⟨t, u', rfl, ht⟩ := hstarts
  rw [standard_read_eq, behind_append]
  exact program_eq_ok.mpr (Or.inr ⟨(ne_of_opensStatement ht).1, st, rest.behind v, ss, hfirst,
    hmore rest hk, rfl⟩)

end

/-! ## The induction -/

theorem Derives.block_starts {w : List Token} {e : Expr} (h : Derives .block w e) :
    StartsWith (· = .openCurly) w := by
  cases h with
  | block hopen _ _ => exact ⟨_, _, rfl, decide_eq_true hopen⟩

/-- **What is derived is read.** -/
theorem Derives.readAs {c : Category} {w : List Token} {v : c.Tree} (h : Derives c w v) :
    c.ReadAs w v := by
  induction h with
  | tighter hl _ ih => exact tighter_readAs hl ih
  | binary ho _ _ ihleft ihright => exact binary_readAs ho ihleft ihright
  | unary ho _ ih => exact unary_readAs ho ih
  | member _ hdot hname ih => exact member_readAs ih hdot hname
  | index _ hopen _ hclose ih ihkey => exact index_readAs ih hopen ihkey hclose
  | call _ hopen _ hclose ih ihgiven => exact call_readAs ih hopen ihgiven hclose
  | grouping hopen _ hclose ih => exact grouping_readAs hopen ih hclose
  | ifThen ht _ hv ihcondition ihtruthy =>
      exact ifThen_readAs ht ihcondition hv.block_starts ihtruthy
  | ifElse ht _ hv ht' _ ihcondition ihtruthy ihfalsy =>
      exact ifElse_readAs ht ihcondition hv.block_starts ihtruthy ht' ihfalsy
  | whileLoop ht _ hv ihcondition ihbody =>
      exact whileLoop_readAs ht ihcondition hv.block_starts ihbody
  | forLoop ht hname ht' _ hv ihiterable ihbody =>
      exact forLoop_readAs ht hname ht' ihiterable hv.block_starts ihbody
  | blockPrimary h ih => exact blockPrimary_readAs h.block_starts ih
  | atom h => exact atom_readAs h
  | plain _ ih => exact plain_readAs ih
  | assign ho _ _ ihsubject ihvalue => exact assign_readAs ho ihsubject ihvalue
  | block hopen _ hclose ih => exact block_readAs hopen ih hclose
  | bodyNil => exact bodyNil_readAs
  | bodyResult h ih => exact bodyResult_readAs h.starts ih
  | bodyCons h _ ih ihmore => exact bodyCons_readAs h.starts ih ihmore
  | argumentsNil => exact argumentsNil_readAs
  | argumentsOne h ih => exact argumentsOne_readAs h.starts ih
  | argumentsCons h ht _ ih ihmore => exact argumentsCons_readAs h.starts ih ht ihmore
  | exprStatement h ht ih => exact exprStatement_readAs h.starts ih ht
  | letIn ht _ ht' ih => exact letIn_readAs ht ih ht'
  | jump hf _ ht' ih => exact jump_readAs hf ih ht'
  | function ht hname hopen _ hclose htype hv ihps ihbody =>
      exact function_readAs ht hname hopen ihps hclose htype hv.block_starts ihbody
  | valueNone => exact valueNone_readAs
  | valueSome h ih => exact valueSome_readAs h.starts ih
  | parameter hname htype hd ih => exact parameter_readAs hname htype hd ih
  | defaultNone => exact defaultNone_readAs
  | defaultSome ht _ ih => exact defaultSome_readAs ht ih
  | parametersNil => exact parametersNil_readAs
  | parametersOne h ih => exact parametersOne_readAs h.starts ih
  | parametersCons h ht _ ih ihmore => exact parametersCons_readAs h.starts ih ht ihmore
  | programNil => exact programNil_readAs
  | programCons h _ ih ihmore => exact programCons_readAs h.starts ih ihmore

end ExprLang
