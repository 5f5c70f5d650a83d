import ExprLang.Proofs.Grammar.Soundness
import ExprLang.Proofs.Reading.Ending
import ExprLang.Proofs.Tree.Node

/-!
# `Proofs.Grammar.Assignable` — refusing assignments is only a filter

Whether an expression may be an assignment is handed down to every right operand, and asked for only
when an operator and both of its operands have been read. So two readings of one stream that differ
in it run in lockstep up to the first operator that would make an assignment. What makes the lockstep
last to the end is that an assignment binds most loosely. No operator reads its right operand at so
low a power that it could be an assignment, except an assignment itself; and what ends an assignment
ends every expression. Once one reading has failed, the other one has therefore nothing left to read.

## Contents
- `Derives.not_assign`: no expression of a layer is an assignment.
- `AssignmentChain`: assignments nested to the right, and their operators.
- `Filtered`: the two replies.
- `operators_filtered`: one step of the operator loop.
- `refusing_filters`: all expressions, at every power.
-/

namespace ExprLang

/-! ## Assignments in the grammar -/

/-- The tree is no assignment, if the category accepts none. -/
def Category.Refuses : (c : Category) → c.Tree → Prop
  | layer _, e | expression false, e | block, e => ¬(Node.expr e).IsAssign
  | _, _ => True

theorem Derives.refuses {c : Category} {w : List Token} {v : c.Tree} (h : Derives c w v) :
    c.Refuses v := by
  induction h with
  | tighter _ _ ih | grouping _ _ _ ih | blockPrimary _ ih => exact ih
  | @plain assignable w e _ ih =>
      cases assignable with
      | false => exact ih
      | true => trivial
  | atom h => cases h <;> exact id
  | binary | unary | member | index | call | ifThen | ifElse | whileLoop | forLoop | block => exact id
  | _ => trivial

/-- **No expression of a layer is an assignment.** -/
theorem Derives.not_assign {l : Layer} {w : List Token} {e : Expr} (h : Derives (.layer l) w e) :
    ¬(Node.expr e).IsAssign := h.refuses

/-- The tokens `w` are assignments nested to the right, with these operators in their order: each is
    the value of the one before it, and the value of the last is none. -/
inductive AssignmentChain : List Token → Expr → List Token → Prop where
  | value {w : List Token} {e : Expr} (h : Derives (.layer .disjunction) w e) :
      AssignmentChain w e []
  | assign {operator : Token} {o : AssignOperator} {u v operators : List Token}
      {subject value : Expr} (ho : operator.kind.assign? = some o)
      (hsubject : Derives (.layer .disjunction) u subject)
      (hvalue : AssignmentChain v value operators) :
      AssignmentChain (u ++ operator :: v) (.assign o subject value) (operator :: operators)

/-- Tokens that derive something other than an assignment are a chain without operators. -/
theorem AssignmentChain.of_not_assign {assignable : Bool} {w : List Token} {e : Expr}
    (h : Derives (.expression assignable) w e) (he : ¬(Node.expr e).IsAssign) :
    AssignmentChain w e [] := by
  cases h with
  | plain h => exact .value h
  | assign => exact absurd trivial he

/-! ## The two readings -/

/-- What becomes of a reply to the stream `s` when no assignment is accepted: a diagnostic stays, a
    tree stays unless it is an assignment, and for an assignment there is a diagnostic at the last of
    its operators. What is left of the stream stays in every case. -/
inductive Filtered (s : TokenStream) : Reply Expr → Reply Expr → Prop where
  | plain {e : Expr} {rest : TokenStream} (he : ¬(Node.expr e).IsAssign) :
      Filtered s (.ok e rest) (.ok e rest)
  | assignment {e : Expr} {w operators : List Token} {last : Token} {rest : TokenStream}
      (hs : s = rest.behind w) (hchain : AssignmentChain w e operators)
      (hlast : operators.getLast? = some last) :
      Filtered s (.ok e rest) (.error ⟨.assignmentNotAllowed, last.position⟩ rest)
  | error {d : Diagnostic} {rest : TokenStream} : Filtered s (.error d rest) (.error d rest)

/-- An expression is filtered, at every power. -/
def FilteredExpr (s : TokenStream) : Prop :=
  ∀ least : Nat, Filtered s (standard.read (.expr least true) s) (standard.read (.expr least false) s)

/-- The rest of an expression is filtered, behind every left operand that can stand there. -/
def FilteredLoop (s : TokenStream) : Prop :=
  ∀ {least : Nat} {l : Layer} {u : List Token} {left : Expr}, Derives (.layer l) u left →
    standard.StopsAt l.bound s.peek.kind → (∀ l' : Layer, l'.Above least → l'.rank ≤ l.rank) →
    Filtered (s.behind u) (standard.read (.operators least true left) s)
      (standard.read (.operators least false left) s)

section

open Parse TokenStream

variable {s : TokenStream} {least : Nat} {l : Layer} {u : List Token} {left : Expr}

/-- What is read at a power above that of an assignment is none. -/
theorem not_assign_of_read {assignable : Bool} {s' : TokenStream} {e : Expr} (hleast : 4 < least)
    (h : standard.read (.expr least assignable) s = .ok e s') : ¬(Node.expr e).IsAssign := by
  obtain ⟨-, hlayers | ⟨-, hle, -⟩⟩ := standard_read_sound _ h
  · obtain ⟨w, -, hderives⟩ := hlayers .disjunction (Layer.disjunction_above least)
    exact hderives.not_assign
  · exact absurd hle (Nat.not_le.mpr hleast)

/-- Reading the rest of an expression ends where it does not go on. -/
theorem read_loop_of_leftPower {assignable : Bool} (h : standard.leftPower s.peek.kind = none) :
    standard.read (.operators least assignable left) s = .ok left s := by
  rw [standard_read_eq]
  exact Rule.operators_of_stopsAt (stopsAt_of_leftPower h)

/-! ### One step of the loop -/

section

variable (hleft : Derives (.layer l) u left)

include hleft

/-- An assignment whose value has been read is complete: nothing binds so loosely that it could go on
    with it. -/
theorem assign_accepted (least : Nat) {o : AssignOperator} (ho : s.peek.kind.assign? = some o)
    {right : Expr} {rest : TokenStream} {v operators : List Token}
    (h : standard.read (.expr 3 true) s.advance = .ok right rest)
    (hv : s.advance = rest.behind v) (hvalue : AssignmentChain v right operators) :
    (Rule.combine standard true s.peek left right >>= fun e =>
        standard.read (.operators least true e)) rest = .ok (.assign o left right) rest ∧
      s.behind u = rest.behind (u ++ s.peek :: v) ∧
      AssignmentChain (u ++ s.peek :: v) (.assign o left right) (s.peek :: operators) := by
  obtain ⟨-, -, hassign⟩ := standard_of_assign? ho
  have hnone := leftPower_of_stopsAt (by decide) (standard_read_sound _ h).1
  refine ⟨?_, ?_, .assign ho (hleft.loosen (Nat.zero_le _)) hvalue⟩
  · have hcombine : Rule.combine standard true s.peek left right rest =
        .ok (.assign o left right) rest :=
      Rule.combine_eq_ok.mpr ⟨rfl, Or.inl ⟨o, hassign, rfl, rfl⟩⟩
    exact bind_eq_ok.mpr ⟨_, rest, hcombine, read_loop_of_leftPower hnone⟩
  · rw [behind_append, ← eq_behind_cons (Token.proper_of_assign? ho).1 hv]

/-- **An assignment operator** is where the two readings part, unless its value has parted them
    already. -/
theorem assign_step_filtered (hexpr : FilteredExpr s.advance) {o : AssignOperator}
    (ho : s.peek.kind.assign? = some o) :
    Filtered (s.behind u)
      ((standard.read (.expr 3 true) >>= fun right =>
        Rule.combine standard true s.peek left right >>= fun e =>
          standard.read (.operators least true e)) s.advance)
      ((standard.read (.expr 3 false) >>= fun right =>
        Rule.combine standard false s.peek left right >>= fun e =>
          standard.read (.operators least false e)) s.advance) := by
  have hread := hexpr 3
  rw [bind_apply, bind_apply]
  generalize htrue : standard.read (.expr 3 true) s.advance = accepted at hread
  generalize standard.read (.expr 3 false) s.advance = refused at hread
  cases hread with
  | @plain right rest hright =>
      obtain ⟨v, hv, hvalue⟩ := ReadAt.expression (standard_read_sound _ htrue)
      obtain ⟨hok, hs, hchain⟩ := assign_accepted hleft least ho htrue hv
        (.of_not_assign hvalue hright)
      have hrefused : (Rule.combine standard false s.peek left right >>= fun e =>
          standard.read (.operators least false e)) rest =
            .error ⟨.assignmentNotAllowed, s.peek.position⟩ rest := by
        simp [bind_apply, Rule.combine, (standard_of_assign? ho).2.2]
      simp only [hok, hrefused]
      exact .assignment hs hchain rfl
  | @assignment right v operators last rest hv hvalue hlast =>
      obtain ⟨hok, hs, hchain⟩ := assign_accepted hleft least ho htrue hv hvalue
      simp only [hok]
      refine .assignment hs hchain ?_
      rw [List.getLast?_cons, hlast]
      rfl
  | error => exact .error

variable (hbound : standard.StopsAt l.bound s.peek.kind)

include hbound

/-- Behind a postfix form both readings go on with the same subject. -/
theorem postfix_step_filtered
    (hloop : ∀ s₁ : TokenStream, s₁.remaining < s.remaining → FilteredLoop s₁) {power : Nat}
    {form : PostfixForm} (hform : standard.postfixForm s.peek.kind = some (power, form)) :
    Filtered (s.behind u)
      ((standard.read (.postfixForm form left) >>= fun e =>
        standard.read (.operators least true e)) s)
      ((standard.read (.postfixForm form left) >>= fun e =>
        standard.read (.operators least false e)) s) := by
  rw [bind_apply, bind_apply]
  rcases (standard_read_answers (s := s) (.postfixForm form left)).ok_or_error with
    ⟨e₁, s₁, h₁⟩ | ⟨d, s₁, h₁⟩
  · rw [h₁]
    have hpostfixed := postfixed_le_of_postfixForm hbound hform
    obtain ⟨w, hw, hsubject⟩ := standard_read_sound _ h₁ power u hform (hleft.loosen hpostfixed)
    rw [hw]
    refine hloop s₁ (standard_read_takes _ h₁) hsubject (stopsAt_of_lt (by decide)) fun l' hl' => ?_
    exact Nat.le_succ_of_le hl'.1
  · rw [h₁]
    exact .error

/-- **A binary operator** has the same right operand in both readings, and they go on with the same
    expression. -/
theorem binary_step_filtered (hexpr : FilteredExpr s.advance)
    (hloop : ∀ s₁ : TokenStream, s₁.remaining < s.remaining → FilteredLoop s₁) {l' : Layer}
    {o : BinaryOperator} (ho : s.peek.kind.binary? = some (l', o)) (hleast : least ≤ l'.leftPower) :
    Filtered (s.behind u)
      ((standard.read (.expr l'.bound true) >>= fun right =>
        Rule.combine standard true s.peek left right >>= fun e =>
          standard.read (.operators least true e)) s.advance)
      ((standard.read (.expr l'.bound false) >>= fun right =>
        Rule.combine standard false s.peek left right >>= fun e =>
          standard.read (.operators least false e)) s.advance) := by
  obtain ⟨hl', -, -, hassign, hbinary⟩ := standard_of_binary? ho
  have hread := hexpr l'.bound
  rw [bind_apply, bind_apply]
  generalize htrue : standard.read (.expr l'.bound true) s.advance = accepted at hread
  generalize standard.read (.expr l'.bound false) s.advance = refused at hread
  cases hread with
  | @plain right rest =>
      have hcombine (assignable : Bool) : Rule.combine standard assignable s.peek left right rest =
          .ok (.binary o left right) rest :=
        Rule.combine_eq_ok.mpr ⟨rfl, Or.inr ⟨hassign, o, hbinary, rfl⟩⟩
      simp only [bind_apply, hcombine]
      have hsound : ReadAt l'.bound true right s.advance rest := standard_read_sound _ htrue
      obtain ⟨v, hv, hright⟩ := ReadAt.right_operand hl' hsound
      rw [eq_behind_cons (Token.proper_of_binary? ho).1 hv, ← behind_append]
      have htaken := standard_read_takes _ htrue
      refine hloop rest (Nat.lt_of_lt_of_le htaken s.remaining_advance_le)
        (Rule.binary_sound ho hleft hbound hright) hsound.1 fun l'' hl'' => ?_
      -- a layer above `least` cannot be tighter than the one of this operator
      exact Nat.le_of_not_lt fun hlt => Nat.not_le.mpr (hl''.2 l' hlt) hleast
  | @assignment right v operators last rest hv hvalue hlast =>
      -- the right operand is read at too tight a power to be an assignment
      have hright := not_assign_of_read (Layer.four_lt_bound l') htrue
      cases hvalue with
      | value => cases hlast
      | assign => exact absurd trivial hright
  | error => exact .error

end

/-- **One step of the loop** is filtered when the readings inside it are. -/
theorem operators_filtered
    (hexpr : ∀ s₁ : TokenStream, s₁.remaining < s.remaining → FilteredExpr s₁)
    (hloop : ∀ s₁ : TokenStream, s₁.remaining < s.remaining → FilteredLoop s₁) :
    FilteredLoop s := by
  intro least l u left hleft hbound hle
  rw [standard_read_eq, standard_read_eq]
  show Filtered _ (Rule.operators standard standard.read least true left s)
    (Rule.operators standard standard.read least false left s)
  rcases standard.stopsAt_or least s.peek.kind with
    hstops | ⟨power, form, hform, hleast⟩ | ⟨hp, powers, hi, hleast⟩
  · rw [Rule.operators_of_stopsAt hstops, Rule.operators_of_stopsAt hstops]
    exact .plain hleft.not_assign
  · rw [Rule.operators_of_postfixForm hform hleast, Rule.operators_of_postfixForm hform hleast]
    exact postfix_step_filtered hleft hbound hloop hform
  · rw [Rule.operators_of_infixPowers hp hi hleast, Rule.operators_of_infixPowers hp hi hleast]
    have hexpr' : s.peek.kind ≠ .eof → FilteredExpr s.advance := fun hk =>
      hexpr _ (remaining_advance_lt_of_kind hk)
    rcases infixPowers_cases hi with ⟨o, ho⟩ | ⟨l', o, ho⟩
    · obtain ⟨-, hi', -⟩ := standard_of_assign? ho
      obtain rfl : powers = ⟨4, 3⟩ := Option.some.inj (hi.symm.trans hi')
      exact assign_step_filtered hleft (hexpr' (Token.proper_of_assign? ho).1) ho
    · obtain ⟨-, -, hi', -⟩ := standard_of_binary? ho
      obtain rfl : powers = ⟨l'.leftPower, l'.bound⟩ := Option.some.inj (hi.symm.trans hi')
      exact binary_step_filtered hleft hbound (hexpr' (Token.proper_of_binary? ho).1) hloop ho hleast

/-- An expression is its operand and the loop behind it. -/
theorem expr_filtered
    (hloop : ∀ s₁ : TokenStream, s₁.remaining < s.remaining → FilteredLoop s₁) :
    FilteredExpr s := by
  intro least
  rw [standard_read_eq, standard_read_eq]
  show Filtered s ((standard.read .operand >>= fun left =>
    standard.read (.operators least true left)) s) ((standard.read .operand >>= fun left =>
      standard.read (.operators least false left)) s)
  rw [bind_apply, bind_apply]
  rcases (standard_read_answers (s := s) .operand).ok_or_error with ⟨e, s₁, h₁⟩ | ⟨d, s₁, h₁⟩
  · rw [h₁]
    obtain ⟨l, hl, hbound, w, hw, hoperand⟩ := standard_read_sound _ h₁
    rw [hw]
    exact hloop s₁ (standard_read_takes _ h₁) hoperand hbound fun l' hl' => Nat.le_trans hl'.1 hl
  · rw [h₁]
    exact .error

end

/-- **Refusing assignments is only a filter.** On every stream and at every power, reading an
    expression that may not be an assignment gives the reply that reading one that may be gives, and
    leaves the same stream: the same diagnostic, the same tree if it is no assignment, and for an
    assignment a diagnostic at an operator of that assignment, the last of those nested to the
    right. -/
theorem refusing_filters (least : Nat) (s : TokenStream) :
    Filtered s (standard.read (.expr least true) s) (standard.read (.expr least false) s) := by
  suffices h : FilteredExpr s ∧ FilteredLoop s from h.1 least
  induction hn : s.remaining using Nat.strongRecOn generalizing s with
  | _ n ih =>
  have hloop (s₁ : TokenStream) (hlt : s₁.remaining < s.remaining) : FilteredLoop s₁ :=
    (ih _ (hn ▸ hlt) s₁ rfl).2
  have hexpr (s₁ : TokenStream) (hlt : s₁.remaining < s.remaining) : FilteredExpr s₁ :=
    (ih _ (hn ▸ hlt) s₁ rfl).1
  exact ⟨expr_filtered hloop, operators_filtered hexpr hloop⟩

/-- In `a = b += c` the second operator is the one that is refused. -/
example :
    standard.read (.expr 0 false) (.ofKinds [(.identifier, "a"), (.assignment, "="),
        (.identifier, "b"), (.plusEquals, "+="), (.identifier, "c")]) =
      .error ⟨.assignmentNotAllowed, ⟨1, 4⟩⟩ ⟨[], ⟨1, 5⟩⟩ := by rfl

end ExprLang
