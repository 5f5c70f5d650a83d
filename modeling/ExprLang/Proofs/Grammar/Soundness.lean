import ExprLang.Proofs.Grammar.Powers
import ExprLang.Proofs.Reading.Stream

/-!
# `Proofs.Grammar.Soundness` — what is read is derived

Whenever a phrase is read with success, the tokens taken off the stream derive its tree. The proof
goes rule by rule and then by induction on the depth of the derivation. Its heart is the operator
loop: the invariant is that the tokens before the loop derive its left operand in some layer `l`,
and that the next token does not bind more tightly than that layer allows (`Layer.bound`). An
operator that goes on with the loop then belongs to `l` or to a looser layer, which is where the
operand can be moved to.

## Contents
- `Between`: tokens between two streams.
- `ReadAt`, `Phrase.Sound`: what a successful reading says about the tokens taken.
- `Rule.block_sound` … `Rule.operators_sound`: the rules with something to show.
- `standard_rule_sound`, `standard_derive_sound`: one rule, and a whole derivation.
-/

namespace ExprLang

/-! ## Tokens between two streams -/

/-- From `s` to `s'` stand tokens that derive `v`. -/
def Between (c : Category) (v : c.Tree) (s s' : TokenStream) : Prop :=
  ∃ w, s = s'.behind w ∧ Derives c w v

namespace TokenStream

variable {s s' : TokenStream}

/-- A token that is not the end of the input stands in front of what follows it. -/
theorem eq_behind_cons {w : List Token} (hk : s.peek.kind ≠ .eof) (h : s.advance = s'.behind w) :
    s = s'.behind (s.peek :: w) := by
  calc s = s.advance.behind [s.peek] := eq_advance_behind hk
    _ = s'.behind (s.peek :: w) := by rw [h]; rfl

/-- A token that closes something stands right before what follows it. -/
theorem eq_behind_singleton {k : Kind} (hk : s.peek.kind = k) (hne : k ≠ .eof) :
    s = s.advance.behind [s.peek] :=
  eq_advance_behind (hk ▸ hne)

end TokenStream

/-! ## What a successful reading says -/

/-- The expression `e`, read at the power `least`, ends at a token that does not bind more tightly,
    and is derived in every layer above `least`, unless it is an assignment. -/
def ReadAt (least : Nat) (assignable : Bool) (e : Expr) (s s' : TokenStream) : Prop :=
  standard.StopsAt least s'.peek.kind ∧
    ((∀ l : Layer, l.Above least → Between (.layer l) e s s') ∨
      (assignable = true ∧ least ≤ 4 ∧ Between (.expression true) e s s'))

/-- What reading the phrase with success says about the tokens taken. A phrase that goes on behind
    some expression says it for all tokens that this expression is derived from; a phrase for a
    certain first token says it for this token only. -/
def Phrase.Sound : {α : Type} → Phrase α → TokenStream → α → TokenStream → Prop
  | _, .expr least assignable, s, e, s' => ReadAt least assignable e s s'
  | _, .operators least assignable left, s, e, s' =>
    (∀ (l : Layer) (u : List Token), Derives (.layer l) u left →
      standard.StopsAt l.bound s.peek.kind → (∀ l' : Layer, l'.Above least → l'.rank ≤ l.rank) →
      ReadAt least assignable e (s.behind u) s') ∧
    (standard.leftPower s.peek.kind = none → e = left ∧ s = s')
  | _, .operand, s, e, s' =>
    ∃ l : Layer, Layer.prefixed.rank ≤ l.rank ∧ standard.StopsAt l.bound s'.peek.kind ∧
      Between (.layer l) e s s'
  | _, .operandForm form, s, e, s' =>
    (form = .block → Between .block e s s') ∧
    (standard.operandForm s.peek.kind = some form ∨ form = .atom → Between (.layer .primary) e s s')
  | _, .postfixForm form subject, s, e, s' =>
    ∀ (power : Nat) (u : List Token), standard.postfixForm s.peek.kind = some (power, form) →
      Derives (.layer .postfixed) u subject → Between (.layer .postfixed) e (s.behind u) s'
  | _, .arguments, s, es, s' => Between .arguments es s s'
  | _, .body, s, parts, s' => Between .body parts s s'
  | _, .statement, s, st, s' => Between .statement st s s'
  | _, .statementForm form, s, st, s' =>
    standard.statementForm s.peek.kind = some form → Between .statement st s s'
  | _, .parameter, s, p, s' => Between .parameter p s s'
  | _, .parameters, s, ps, s' => Between .parameters ps s s'
  | _, .program, s, ss, s' => s'.peek.kind = .eof ∧ Between .program ss s s'

/-- Every phrase is read soundly. -/
def Sound (read : {α : Type} → Phrase α → Parse α) : Prop :=
  ∀ {α : Type} (phrase : Phrase α) {s s' : TokenStream} {v : α},
    read phrase s = .ok v s' → phrase.Sound s v s'

section

variable {read : {α : Type} → Phrase α → Parse α} {s s' : TokenStream} {e : Expr}

theorem ReadAt.expression {least : Nat} {assignable : Bool} (h : ReadAt least assignable e s s') :
    Between (.expression assignable) e s s' := by
  obtain ⟨-, hlayers | ⟨rfl, -, hassign⟩⟩ := h
  · obtain ⟨w, hw, hd⟩ := hlayers .disjunction (Layer.disjunction_above least)
    exact ⟨w, hw, .plain hd⟩
  · exact hassign

/-- The operand on the right of a binary operator is of the layer that the operator asks for. -/
theorem ReadAt.right_operand {l : Layer} {assignable : Bool} {right : Expr}
    (hl : l.rank < Layer.prefixed.rank) (h : ReadAt l.bound assignable right s s') :
    Between (.layer l.operands.2) right s s' := by
  obtain ⟨-, hlayers | ⟨-, hle, -⟩⟩ := h
  · exact hlayers _ (Layer.operands_above hl)
  · -- it is no assignment: the power on the right of a binary operator is too tight for one
    exact absurd hle (Nat.not_le.mpr (Layer.four_lt_bound _))

theorem Sound.expression (hread : Sound read) {assignable : Bool}
    (h : read (.expr 0 assignable) s = .ok e s') : Between (.expression assignable) e s s' :=
  ReadAt.expression (hread _ h)

theorem Sound.block (hread : Sound read) (h : read (.operandForm .block) s = .ok e s') :
    Between .block e s s' :=
  (hread _ h).1 rfl

end

/-! ## The rules -/

namespace Rule

open TokenStream

variable {read : {α : Type} → Phrase α → Parse α} {s s' : TokenStream}

theorem block_sound (hread : Sound read) {e : Expr} (h : Rule.block read s = .ok e s') :
    Between .block e s s' := by
  obtain ⟨hopen, ss, result, s₁, h₁, hclose, rfl, rfl⟩ := block_eq_ok.mp h
  obtain ⟨w, hw, hbody⟩ := hread _ h₁
  refine ⟨s.peek :: (w ++ [s₁.peek]), ?_, .block hopen hbody hclose⟩
  refine eq_behind_cons (by simp [hopen]) ?_
  rw [hw, behind_append, ← eq_behind_singleton hclose (by decide)]

theorem grouping_sound (hread : Sound read) {e : Expr} (hk : s.peek.kind = .openParen)
    (h : grouping read s = .ok e s') : Between (.layer .primary) e s s' := by
  obtain ⟨inner, s₁, h₁, hclose, rfl, rfl⟩ := grouping_eq_ok.mp h
  obtain ⟨w, hw, hinner⟩ := hread.expression h₁
  refine ⟨s.peek :: (w ++ [s₁.peek]), ?_, .grouping hk hinner hclose⟩
  refine eq_behind_cons (by simp [hk]) ?_
  rw [hw, behind_append, ← eq_behind_singleton hclose (by decide)]

theorem ifElse_sound (hread : Sound read) {e : Expr} (hk : s.peek.kind = .kwIf)
    (h : ifElse read s = .ok e s') : Between (.layer .primary) e s s' := by
  obtain ⟨condition, s₁, truthy, s₂, h₁, h₂, hfalsy⟩ := ifElse_eq_ok.mp h
  obtain ⟨u, hu, hcondition⟩ := hread.expression h₁
  obtain ⟨v, hv, htruthy⟩ := hread.block h₂
  rcases hfalsy with ⟨hk', falsy, h₃, rfl⟩ | ⟨-, rfl, rfl⟩
  · obtain ⟨w, hw, hfalsy⟩ := hread.block h₃
    refine ⟨s.peek :: (u ++ (v ++ s₂.peek :: w)), ?_, .ifElse hk hcondition htruthy hk' hfalsy⟩
    refine eq_behind_cons (by simp [hk]) ?_
    rw [hu, hv, behind_append, behind_append, ← eq_behind_cons (by simp [hk']) hw]
  · refine ⟨s.peek :: (u ++ v), ?_, .ifThen hk hcondition htruthy⟩
    refine eq_behind_cons (by simp [hk]) ?_
    rw [hu, hv, behind_append]

theorem whileLoop_sound (hread : Sound read) {e : Expr} (hk : s.peek.kind = .kwWhile)
    (h : whileLoop read s = .ok e s') : Between (.layer .primary) e s s' := by
  obtain ⟨condition, s₁, body, h₁, h₂, rfl⟩ := whileLoop_eq_ok.mp h
  obtain ⟨u, hu, hcondition⟩ := hread.expression h₁
  obtain ⟨v, hv, hbody⟩ := hread.block h₂
  refine ⟨s.peek :: (u ++ v), ?_, .whileLoop hk hcondition hbody⟩
  refine eq_behind_cons (by simp [hk]) ?_
  rw [hu, hv, behind_append]

theorem forLoop_sound (hread : Sound read) {e : Expr} (hk : s.peek.kind = .kwFor)
    (h : forLoop read s = .ok e s') : Between (.layer .primary) e s s' := by
  obtain ⟨subject, s₁, iterable, s₂, body, h₁, hin, h₂, h₃, rfl⟩ := forLoop_eq_ok.mp h
  obtain ⟨hname, rfl, rfl⟩ := pattern_eq_ok.mp h₁
  obtain ⟨u, hu, hiterable⟩ := hread.expression h₂
  obtain ⟨v, hv, hbody⟩ := hread.block h₃
  -- none of the three tokens in front is the end of the input
  refine ⟨s.peek :: s.advance.peek :: s.advance.advance.peek :: (u ++ v), ?_,
    .forLoop hk hname hin hiterable hbody⟩
  refine eq_behind_cons (by simp [hk]) (eq_behind_cons (by simp [hname]) ?_)
  refine eq_behind_cons (by simp [hin]) ?_
  rw [hu, hv, behind_append]

theorem atom_sound {e : Expr} (h : atom s = .ok e s') : Between (.layer .primary) e s s' := by
  obtain ⟨ha, rfl⟩ := atom_eq_ok.mp h
  have hatom := Token.atom_eq_ok_iff.mp ha
  exact ⟨[s.peek], eq_advance_behind hatom.proper.1, .atom hatom⟩

theorem operandForm_sound (hread : Sound read) (form : OperandForm) {e : Expr}
    (h : operandForm read form s = .ok e s') :
    (Phrase.operandForm form).Sound s e s' := by
  constructor
  · rintro rfl
    exact block_sound hread h
  intro hform
  -- every form but the last is called for by its own token
  have hkind : form ≠ .atom → standard.operandForm s.peek.kind = some form :=
    fun hne => hform.resolve_right hne
  cases form with
  | grouping =>
      have hk : s.peek.kind = .openParen := by simpa using operandForm_cases (hkind (by decide))
      exact grouping_sound hread hk h
  | ifElse =>
      have hk : s.peek.kind = .kwIf := by simpa using operandForm_cases (hkind (by decide))
      exact ifElse_sound hread hk h
  | whileLoop =>
      have hk : s.peek.kind = .kwWhile := by simpa using operandForm_cases (hkind (by decide))
      exact whileLoop_sound hread hk h
  | forLoop =>
      have hk : s.peek.kind = .kwFor := by simpa using operandForm_cases (hkind (by decide))
      exact forLoop_sound hread hk h
  | block =>
      obtain ⟨w, hw, hblock⟩ := block_sound hread h
      exact ⟨w, hw, .blockPrimary hblock⟩
  | atom => exact atom_sound h

theorem postfixForm_sound (hread : Sound read) (form : PostfixForm) {subject e : Expr}
    (h : postfixForm read form subject s = .ok e s') :
    (Phrase.postfixForm form subject).Sound s e s' := by
  intro power u hform hsubject
  obtain ⟨-, ⟨rfl, hk⟩ | ⟨rfl, hk⟩ | ⟨rfl, hk⟩⟩ := postfixForm_cases hform
  · obtain ⟨hname, rfl, rfl⟩ := member_eq_ok.mp h
    refine ⟨u ++ [s.peek, s.advance.peek], ?_, .member hsubject hk hname⟩
    rw [behind_append, ← eq_behind_cons (by simp [hk]) (eq_behind_singleton hname (by decide))]
  · obtain ⟨key, s₁, h₁, hclose, rfl, rfl⟩ := index_eq_ok.mp h
    obtain ⟨v, hv, hkey⟩ := hread.expression h₁
    refine ⟨u ++ s.peek :: (v ++ [s₁.peek]), ?_, .index hsubject hk hkey hclose⟩
    rw [behind_append, ← eq_behind_cons (by simp [hk])]
    rw [hv, behind_append, ← eq_behind_singleton hclose (by decide)]
  · obtain ⟨given, s₁, h₁, hclose, rfl, rfl⟩ := call_eq_ok.mp h
    obtain ⟨v, hv, hgiven⟩ := hread _ h₁
    refine ⟨u ++ s.peek :: (v ++ [s₁.peek]), ?_, .call hsubject hk hgiven hclose⟩
    rw [behind_append, ← eq_behind_cons (by simp [hk])]
    rw [hv, behind_append, ← eq_behind_singleton hclose (by decide)]

theorem operand_sound (hread : Sound read) {e : Expr}
    (h : operand standard read s = .ok e s') : Phrase.operand.Sound s e s' := by
  rcases operand_eq_ok.mp h with ⟨power, o, subject, hprefix, h₁, rfl⟩ | ⟨-, h₁⟩
  · obtain ⟨o', ho, hentry⟩ := Option.map_eq_some_iff.mp (standard_prefixOperator _ ▸ hprefix)
    cases hentry
    obtain ⟨hstops, hlayers | ⟨hassign, -⟩⟩ := hread _ h₁
    · obtain ⟨w, hw, hsubject⟩ := hlayers .prefixed Layer.prefixed_above
      refine ⟨.prefixed, Nat.le_refl _, hstops, s.peek :: w, ?_, .unary ho hsubject⟩
      exact eq_behind_cons (Token.proper_of_unary? ho).1 hw
    · -- the operand of a unary operator is never an assignment
      cases hassign
  · refine ⟨.primary, by decide, stopsAt_of_lt (by decide), ?_⟩
    cases hform : standard.operandForm s.peek.kind with
    | some form =>
        rw [hform] at h₁
        exact (hread _ h₁).2 (Or.inl hform)
    | none =>
        rw [hform] at h₁
        exact (hread _ h₁).2 (Or.inr rfl)

/-! ### The operator loop -/

section

variable {least : Nat} {assignable : Bool} {left e : Expr} {l : Layer} {u : List Token}

/-- The loop ends with what it has. -/
theorem readAt_of_derives (hstops : standard.StopsAt least s.peek.kind)
    (hleft : Derives (.layer l) u left) (hle : ∀ l' : Layer, l'.Above least → l'.rank ≤ l.rank) :
    ReadAt least assignable left (s.behind u) s :=
  ⟨hstops, Or.inl fun l' hl' => ⟨u, rfl, hleft.loosen (hle l' hl')⟩⟩

/-- **A binary operator** joins the left operand to the one read on its right, within its layer. -/
theorem binary_sound {t : Token} {l' : Layer} {o : BinaryOperator} {v : List Token} {right : Expr}
    (ho : t.kind.binary? = some (l', o)) (hleft : Derives (.layer l) u left)
    (hbound : standard.StopsAt l.bound t.kind) (hright : Derives (.layer l'.operands.2) v right) :
    Derives (.layer l') (u ++ t :: v) (.binary o left right) := by
  obtain ⟨hl', hp, hi, -⟩ := standard_of_binary? ho
  have hlt : l'.leftPower < l.bound := hbound _ (Table.leftPower_of_infixPowers hp hi)
  exact .binary ho (hleft.loosen (Layer.rank_operands_le hl' hlt)) hright

/-- **A postfix form** goes on with the left operand, which is a postfix or a primary expression. -/
theorem postfix_step_sound (hread : Sound read) (hleft : Derives (.layer l) u left)
    (hbound : standard.StopsAt l.bound s.peek.kind) {power : Nat} {form : PostfixForm} {e₁ : Expr}
    {s₁ : TokenStream} (hform : standard.postfixForm s.peek.kind = some (power, form))
    (h₁ : read (.postfixForm form left) s = .ok e₁ s₁)
    (h₂ : read (.operators least assignable e₁) s₁ = .ok e s') :
    ReadAt least assignable e (s.behind u) s' := by
  have hpostfixed := postfixed_le_of_postfixForm hbound hform
  obtain ⟨w, hw, hsubject⟩ := hread _ h₁ power u hform (hleft.loosen hpostfixed)
  rw [hw]
  apply (hread _ h₂).1 .postfixed w hsubject (stopsAt_of_lt (by decide))
  intro l' hl'
  exact Nat.le_succ_of_le hl'.1

/-- **An assignment operator** takes all that follows as its value, and ends the loop. -/
theorem assign_step_sound (hread : Sound read) (hleft : Derives (.layer l) u left)
    {o : AssignOperator} (ho : s.peek.kind.assign? = some o) {right e₁ : Expr} {s₁ : TokenStream}
    (hleast : least ≤ 4) (h₁ : read (.expr 3 assignable) s.advance = .ok right s₁)
    (hcombine : combine standard assignable s.peek left right s₁ = .ok e₁ s₁)
    (h₂ : read (.operators least assignable e₁) s₁ = .ok e s') :
    ReadAt least assignable e (s.behind u) s' := by
  have ho' := (standard_of_assign? ho).2.2
  obtain ⟨-, ⟨_, ho₁, rfl, rfl⟩ | ⟨hno, -⟩⟩ := combine_eq_ok.mp hcombine
  · obtain rfl := Option.some.inj (ho'.symm.trans ho₁)
    -- nothing binds so loosely that it could go on with an assignment
    have hnone := leftPower_of_stopsAt (by decide) (hread _ h₁).1
    obtain ⟨rfl, rfl⟩ := (hread _ h₂).2 hnone
    obtain ⟨v, hv, hvalue⟩ := ReadAt.expression (hread _ h₁)
    refine ⟨stopsAt_of_leftPower hnone, Or.inr ⟨rfl, hleast, u ++ s.peek :: v, ?_, ?_⟩⟩
    · rw [behind_append, ← eq_behind_cons (Token.proper_of_assign? ho).1 hv]
    · exact .assign ho (hleft.loosen (Nat.zero_le _)) hvalue
  · rw [ho'] at hno
    cases hno

/-- **A binary operator** joins the two operands, and the loop goes on in its layer. -/
theorem binary_step_sound (hread : Sound read) (hleft : Derives (.layer l) u left)
    (hbound : standard.StopsAt l.bound s.peek.kind) {l' : Layer} {o : BinaryOperator}
    (ho : s.peek.kind.binary? = some (l', o)) {right e₁ : Expr} {s₁ : TokenStream}
    (hleast : least ≤ l'.leftPower)
    (h₁ : read (.expr l'.bound assignable) s.advance = .ok right s₁)
    (hcombine : combine standard assignable s.peek left right s₁ = .ok e₁ s₁)
    (h₂ : read (.operators least assignable e₁) s₁ = .ok e s') :
    ReadAt least assignable e (s.behind u) s' := by
  obtain ⟨hl', -, -, hno, ho'⟩ := standard_of_binary? ho
  obtain ⟨-, ⟨_, ho₁, -⟩ | ⟨-, _, ho₁, rfl⟩⟩ := combine_eq_ok.mp hcombine
  · rw [hno] at ho₁
    cases ho₁
  · obtain rfl := Option.some.inj (ho'.symm.trans ho₁)
    obtain ⟨v, hv, hright⟩ := ReadAt.right_operand hl' (hread _ h₁)
    have hjoined := binary_sound ho hleft hbound hright
    rw [eq_behind_cons (Token.proper_of_binary? ho).1 hv, ← behind_append]
    apply (hread _ h₂).1 l' _ hjoined (hread _ h₁).1
    intro l'' hl''
    -- a layer above `least` cannot be tighter than the one of this operator
    apply Nat.le_of_not_lt
    intro hlt
    exact Nat.not_le.mpr (hl''.2 l' hlt) hleast

theorem operators_sound (hread : Sound read)
    (h : operators standard read least assignable left s = .ok e s') :
    (Phrase.operators least assignable left).Sound s e s' := by
  have hloop := operators_eq_ok.mp h
  constructor
  · intro l u hleft hbound hle
    rcases hloop with ⟨hstops, rfl, rfl⟩ | ⟨power, form, e₁, s₁, hform, -, h₁, h₂⟩ |
      ⟨powers, right, e₁, s₁, hp, hi, hleast, h₁, hcombine, h₂⟩
    · exact readAt_of_derives hstops hleft hle
    · exact postfix_step_sound hread hleft hbound hform h₁ h₂
    · rcases infixPowers_cases hi with ⟨o, ho⟩ | ⟨l', o, ho⟩
      · obtain ⟨-, hi', -⟩ := standard_of_assign? ho
        obtain rfl : powers = ⟨4, 3⟩ := Option.some.inj (hi.symm.trans hi')
        exact assign_step_sound hread hleft ho hleast h₁ hcombine h₂
      · obtain ⟨-, -, hi', -⟩ := standard_of_binary? ho
        obtain rfl : powers = ⟨l'.leftPower, l'.bound⟩ := Option.some.inj (hi.symm.trans hi')
        exact binary_step_sound hread hleft hbound ho hleast h₁ hcombine h₂
  · -- a token without a left power is no operator, so the loop has ended
    intro hnone
    rcases hloop with ⟨-, rfl, rfl⟩ | ⟨power, form, _, _, hform, -⟩ | ⟨powers, _, _, _, hp, hi, -⟩
    · exact ⟨rfl, rfl⟩
    · rw [Table.leftPower_of_postfixForm hform] at hnone
      cases hnone
    · rw [Table.leftPower_of_infixPowers hp hi] at hnone
      cases hnone

end

/-! ### Lists, parameters and statements -/

theorem arguments_sound (hread : Sound read) {es : List Expr}
    (h : arguments read s = .ok es s') : Between .arguments es s s' := by
  rcases arguments_eq_ok.mp h with ⟨-, rfl, rfl⟩ | ⟨-, first, s₁, h₁, hmore⟩
  · exact ⟨[], rfl, .argumentsNil⟩
  · obtain ⟨u, hu, hfirst⟩ := hread.expression h₁
    rcases hmore with ⟨hk, more, h₂, rfl⟩ | ⟨-, rfl, rfl⟩
    · obtain ⟨v, hv, hmore⟩ := hread _ h₂
      refine ⟨u ++ s₁.peek :: v, ?_, .argumentsCons hfirst hk hmore⟩
      rw [hu, behind_append, ← eq_behind_cons (by simp [hk]) hv]
    · exact ⟨u, hu, .argumentsOne hfirst⟩

theorem defaultValue_sound (hread : Sound read) {value : Option Expr}
    (h : defaultValue read s = .ok value s') : Between .default value s s' := by
  rcases defaultValue_eq_ok.mp h with ⟨hk, e, h₁, rfl⟩ | ⟨-, rfl, rfl⟩
  · obtain ⟨w, hw, he⟩ := hread.expression h₁
    exact ⟨s.peek :: w, eq_behind_cons (by simp [hk]) hw, .defaultSome hk he⟩
  · exact ⟨[], rfl, .defaultNone⟩

/-- A type behind the token that announces it. -/
theorem typeName_sound {k : Kind} {type : TypeName} (hk : s.peek.kind = k) (hne : k ≠ .eof)
    (h : typeName s.advance = .ok type s') :
    ∃ a, s = s'.behind a ∧ Annotation k a (some type) := by
  obtain ⟨hname, rfl, rfl⟩ := typeName_eq_ok.mp h
  refine ⟨[s.peek, s.advance.peek], ?_, .given hk hname⟩
  exact eq_behind_cons (hk ▸ hne) (eq_behind_singleton hname (by decide))

theorem parameter_sound (hread : Sound read) {p : Parameter}
    (h : Rule.parameter read s = .ok p s') : Between .parameter p s s' := by
  obtain ⟨subject, s₁, h₁, hrest⟩ := parameter_eq_ok.mp h
  obtain ⟨hname, rfl, rfl⟩ := pattern_eq_ok.mp h₁
  have hfirst : s.peek.kind ≠ .eof := by simp [hname]
  rcases hrest with ⟨hk, type, s₂, value, htype, hvalue, rfl⟩ | ⟨-, value, hvalue, rfl⟩
  · obtain ⟨a, ha, hannotation⟩ := typeName_sound hk (by decide) htype
    obtain ⟨w, hw, hdefault⟩ := defaultValue_sound hread hvalue
    refine ⟨s.peek :: (a ++ w), ?_, .parameter hname hannotation hdefault⟩
    refine eq_behind_cons hfirst ?_
    rw [behind_append, ← hw]
    exact ha
  · obtain ⟨w, hw, hdefault⟩ := defaultValue_sound hread hvalue
    exact ⟨s.peek :: w, eq_behind_cons hfirst hw, .parameter hname .missing hdefault⟩

theorem parameters_sound (hread : Sound read) {ps : List Parameter}
    (h : Rule.parameters read s = .ok ps s') : Between .parameters ps s s' := by
  rcases parameters_eq_ok.mp h with ⟨-, rfl, rfl⟩ | ⟨-, first, s₁, h₁, hmore⟩
  · exact ⟨[], rfl, .parametersNil⟩
  · obtain ⟨u, hu, hfirst⟩ := hread _ h₁
    rcases hmore with ⟨hk, more, h₂, rfl⟩ | ⟨-, rfl, rfl⟩
    · obtain ⟨v, hv, hmore⟩ := hread _ h₂
      refine ⟨u ++ s₁.peek :: v, ?_, .parametersCons hfirst hk hmore⟩
      rw [hu, behind_append, ← eq_behind_cons (by simp [hk]) hv]
    · exact ⟨u, hu, .parametersOne hfirst⟩

/-- An expression and the semicolon that makes a statement of it. -/
theorem exprStatement_sound (hread : Sound read) {e : Expr}
    (h : read (.expr 0 true) s = .ok e s') (hk : s'.peek.kind = .semicolon) :
    Between .statement (.expr e) s s'.advance := by
  obtain ⟨w, hw, he⟩ := hread.expression h
  refine ⟨w ++ [s'.peek], ?_, .exprStatement he hk⟩
  rw [hw, behind_append, ← eq_behind_singleton hk (by decide)]

theorem statement_sound (hread : Sound read) {st : Statement}
    (h : Rule.statement standard read s = .ok st s') : Between .statement st s s' := by
  rcases statement_eq_ok.mp h with ⟨form, hform, h₁⟩ | ⟨-, e, s₁, h₁, hk, rfl, rfl⟩
  · exact hread _ h₁ hform
  · exact exprStatement_sound hread h₁ hk

theorem jump_sound (hread : Sound read) {f : Option Expr → Statement} {st : Statement}
    (hf : s.peek.kind.jump? = some f)
    (h : (jumpValue read >>= fun value => pure (f value)) s = .ok st s') :
    Between .statement st s s' := by
  obtain ⟨value, s₁, h₁, hpure⟩ := Parse.bind_eq_ok.mp h
  cases hpure
  have hne : s.peek.kind ≠ .eof := (Token.proper_of_jump? hf).1
  rcases jumpValue_eq_ok.mp h₁ with ⟨hk, rfl, rfl⟩ | ⟨-, -, e, s₂, h₂, hk, rfl, rfl⟩
  · refine ⟨s.peek :: ([] ++ [s.advance.peek]), ?_, .jump hf .valueNone hk⟩
    exact eq_behind_cons hne (eq_behind_singleton hk (by decide))
  · obtain ⟨w, hw, he⟩ := hread.expression h₂
    refine ⟨s.peek :: (w ++ [s₂.peek]), ?_, .jump hf (.valueSome he) hk⟩
    refine eq_behind_cons hne ?_
    rw [hw, behind_append, ← eq_behind_singleton hk (by decide)]

theorem function_sound (hread : Sound read) {st : Statement} (hk : s.peek.kind = .kwFn)
    (h : function read s = .ok st s') : Between .statement st s s' := by
  obtain ⟨hname, hopen, ps, s₁, h₁, hclose, hrest⟩ := function_eq_ok.mp h
  obtain ⟨u, hu, hps⟩ := hread _ h₁
  -- the three tokens before the parameters, whatever comes behind them
  have hbehind : ∀ {w : List Token}, s₁ = s'.behind w →
      s = s'.behind (s.peek :: s.advance.peek :: s.advance.advance.peek :: (u ++ w)) := by
    intro w hw
    refine eq_behind_cons (by simp [hk]) (eq_behind_cons (by simp [hname]) ?_)
    refine eq_behind_cons (by simp [hopen]) ?_
    rw [hu, behind_append, hw]
  have hne : s₁.peek.kind ≠ .eof := by simp [hclose]
  rcases hrest with ⟨harrow, result, s₂, body, htype, h₂, rfl⟩ | ⟨-, body, h₂, rfl⟩
  · obtain ⟨a, ha, hresult⟩ := typeName_sound harrow (by decide) htype
    obtain ⟨v, hv, hbody⟩ := hread.block h₂
    refine ⟨_, hbehind (w := s₁.peek :: (a ++ v)) ?_,
      .function hk hname hopen hps hclose hresult hbody⟩
    refine eq_behind_cons hne ?_
    rw [ha, behind_append, hv]
  · obtain ⟨v, hv, hbody⟩ := hread.block h₂
    refine ⟨_, hbehind (w := s₁.peek :: ([] ++ v)) ?_,
      .function hk hname hopen hps hclose .missing hbody⟩
    exact eq_behind_cons hne hv

theorem statementForm_sound (hread : Sound read) (form : StatementForm) {st : Statement}
    (h : statementForm read form s = .ok st s') : (Phrase.statementForm form).Sound s st s' := by
  intro hform
  rcases statementForm_cases hform with
    ⟨rfl, -⟩ | ⟨rfl, hk⟩ | ⟨rfl, hk⟩ | ⟨rfl, hk⟩ | ⟨rfl, hk⟩ | ⟨rfl, hk⟩
  · simp [statementForm] at h
  · exact function_sound hread hk h
  · obtain ⟨p, s₁, h₁, hsemi, rfl, rfl⟩ := letIn_eq_ok.mp h
    obtain ⟨w, hw, hp⟩ := hread _ h₁
    refine ⟨s.peek :: (w ++ [s₁.peek]), ?_, .letIn hk hp hsemi⟩
    refine eq_behind_cons (by simp [hk]) ?_
    rw [hw, behind_append, ← eq_behind_singleton hsemi (by decide)]
  · exact jump_sound hread (by rw [hk]; rfl) h
  · exact jump_sound hread (by rw [hk]; rfl) h
  · exact jump_sound hread (by rw [hk]; rfl) h

theorem body_sound (hread : Sound read) {ss : List Statement} {result : Option Expr}
    (h : body standard read s = .ok (ss, result) s') : Between .body (ss, result) s s' := by
  -- a statement in front of the rest of the body
  have hcons : ∀ {st : Statement} {more : List Statement} {s₁ : TokenStream},
      Between .statement st s s₁ → read .body s₁ = .ok (more, result) s' →
      Between .body (st :: more, result) s s' := by
    intro st more s₁ hfirst hmore
    obtain ⟨u, hu, hst⟩ := hfirst
    obtain ⟨v, hv, hbody⟩ := hread _ hmore
    refine ⟨u ++ v, ?_, .bodyCons hst hbody⟩
    rw [hu, hv, behind_append]
  -- the end of the block, a statement with a form of its own, or an expression, which the token
  -- behind it makes a statement or the result
  rcases body_eq_ok.mp h with ⟨-, rfl, rfl, rfl⟩ |
    ⟨-, -, ⟨form, first, s₁, more, hform, h₁, h₂, rfl⟩ |
      ⟨-, e, s₁, h₁, ⟨hk, more, h₂, rfl⟩ | ⟨-, rfl, rfl, rfl⟩⟩⟩
  · exact ⟨[], rfl, .bodyNil⟩
  · exact hcons (hread _ h₁ hform) h₂
  · exact hcons (exprStatement_sound hread h₁ hk) h₂
  · obtain ⟨w, hw, he⟩ := hread.expression h₁
    exact ⟨w, hw, .bodyResult he⟩

theorem program_sound (hread : Sound read) {ss : List Statement}
    (h : Rule.program read s = .ok ss s') : Phrase.program.Sound s ss s' := by
  rcases program_eq_ok.mp h with ⟨hk, rfl, rfl⟩ | ⟨-, first, s₁, more, h₁, h₂, rfl⟩
  · exact ⟨hk, [], rfl, .programNil⟩
  · obtain ⟨u, hu, hfirst⟩ := hread _ h₁
    obtain ⟨hend, v, hv, hmore⟩ := hread _ h₂
    refine ⟨hend, u ++ v, ?_, .programCons hfirst hmore⟩
    rw [hu, hv, behind_append]

end Rule

/-! ## Derivations -/

open Rule

/-- **One rule of the standard table reads soundly** when the phrases inside it are. -/
theorem standard_rule_sound {read : {α : Type} → Phrase α → Parse α} (hread : Sound read) :
    Sound (standard.rule read) := by
  intro α phrase s s' v h
  cases phrase with
  | expr least assignable =>
      obtain ⟨left, s₁, h₁, h₂⟩ := expr_eq_ok.mp h
      obtain ⟨l, hl, hstops, w, hw, hleft⟩ := hread _ h₁
      rw [hw]
      -- the first operand is as tight as any, so the loop starts with its invariant
      apply (hread _ h₂).1 l w hleft hstops
      intro l' hl'
      exact Nat.le_trans hl'.1 hl
  | operators least assignable left => exact operators_sound hread h
  | operand => exact operand_sound hread h
  | operandForm form => exact operandForm_sound hread form h
  | postfixForm form subject => exact postfixForm_sound hread form h
  | arguments => exact arguments_sound hread h
  | body => exact body_sound hread h
  | statement => exact statement_sound hread h
  | statementForm form => exact statementForm_sound hread form h
  | parameter => exact parameter_sound hread h
  | parameters => exact parameters_sound hread h
  | program => exact program_sound hread h

/-- **What is read is derived**, by induction on the depth. -/
theorem standard_derive_sound (depth : Nat) : Sound (standard.derive depth) := by
  induction depth with
  | zero =>
      -- nothing is read at depth zero
      intro α phrase s s' v h
      cases (show Reply.halt .outOfFuel = .ok v s' from h)
  | succ depth ih => exact standard_rule_sound ih

theorem standard_read_sound : Sound standard.read :=
  fun phrase s _ _ h => standard_derive_sound (depthFor s.remaining) phrase h

end ExprLang
