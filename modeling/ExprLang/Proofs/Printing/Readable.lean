import ExprLang.Proofs.Printing.Boundary

/-!
# `Proofs.Printing.Readable` — expressions that their texts tell apart

For every form of expression: if the texts of its parts tell them from all legible trees, then so
does its own text. Only one thing keeps the text of an expression from ending where the expression
does: a postfix form starts with the whole text of its subject. Of two expressions with a common
text, therefore, one **extends** the other, by postfix forms behind it; and where something follows
that no postfix form starts with, they are equal.

## Contents
- `Expr.Extends`, `Expr.Continues`, `Expr.IsHead`, `Expr.OpensAs`: postfix forms, and what they
  stand behind.
- `Expr.Readable`, `Expr.Readable.whole`: expressions that their texts tell apart.
- `Expr.Readable.of_head`: expressions that are no postfix forms.
- `Expr.Readable.name` and so on: one lemma for each form.
-/

namespace ExprLang

/-! ## Postfix forms -/

/-- The second expression is the first with postfix forms behind it. -/
inductive Expr.Extends (e : Expr) : Expr → Prop where
  | refl : Extends e e
  | call {subject given} (h : Extends e subject) : Extends e (.call subject given)
  | member {subject name} (h : Extends e subject) : Extends e (.member subject name)
  | index {subject key} (h : Extends e subject) : Extends e (.index subject key)

/-- The second expression is a postfix form of the first with postfix forms behind it. -/
inductive Expr.Continues (subject : Expr) : Expr → Prop where
  | call {given e} (h : (Expr.call subject given).Extends e) : Continues subject e
  | member {name e} (h : (Expr.member subject name).Extends e) : Continues subject e
  | index {key e} (h : (Expr.index subject key).Extends e) : Continues subject e

/-- The expression is no postfix form. -/
def Expr.IsHead : Expr → Prop
  | .call _ _ | .member _ _ | .index _ _ => False
  | _ => True

/-- The expression is no postfix form, and its text opens with a token of this kind. -/
inductive Expr.OpensAs : Expr → Kind → Prop where
  | ifElse {condition truthy falsy} : OpensAs (.ifElse condition truthy falsy) .kwIf
  | whileLoop {condition body} : OpensAs (.whileLoop condition body) .kwWhile
  | forLoop {subject iterable body} : OpensAs (.forLoop subject iterable body) .kwFor
  | block {statements result} : OpensAs (.block statements result) .openCurly
  | assign {o subject value} : OpensAs (.assign o subject value) .openParen
  | binary {o left right} : OpensAs (.binary o left right) .openParen
  | unary {o subject} : OpensAs (.unary o subject) .openParen
  | name {name} : OpensAs (.name name) .identifier
  | int {value} : OpensAs (.int value) .int
  | char {value} : OpensAs (.char value) .char
  | string {value} : OpensAs (.string value) .string
  | true : OpensAs (.bool true) .kwTrue
  | false : OpensAs (.bool false) .kwFalse
  | null : OpensAs .null .kwNull

/-- The text is empty or starts as a postfix form does. -/
def PostfixText (u : List Char) : Prop := ∀ c, u.head? = some c → PostfixMark c

namespace PostfixText

variable {u r : List Char}

theorem append (hu : PostfixText u) {c : Char} (hc : PostfixMark c) (v : List Char) :
    PostfixText (u ++ c :: v) := by
  cases u with
  | nil =>
      intro d hd
      cases hd
      exact hc
  | cons d u => exact hu

theorem severed (hu : PostfixText u) (hr : Severed r) : Severed (u ++ r) := by
  cases u with
  | nil => exact hr
  | cons c u =>
      have hc : PostfixMark c := hu c rfl
      rcases hc with rfl | rfl | rfl <;> exact severed_cons rfl (by decide) _

/-- No postfix form stands where the text has ended. -/
theorem eq_nil (hu : PostfixText u) (hr : Ended (u ++ r)) : u = [] := by
  cases u with
  | nil => rfl
  | cons c u => exact absurd (hu c rfl) (hr.unmarked c rfl)

end PostfixText

namespace Expr

variable {e e' subject : Expr}

theorem IsHead.exists_head (he : e.IsHead) : ∃ h : Expr, h.IsHead ∧ h.Extends e := ⟨e, he, .refl⟩

/-- **Every expression** is one that is no postfix form, with postfix forms behind it. -/
theorem exists_head : ∀ e : Expr, ∃ h : Expr, h.IsHead ∧ h.Extends e
  | .call subject _ =>
      let ⟨h, hhead, hextends⟩ := exists_head subject
      ⟨h, hhead, .call hextends⟩
  | .member subject _ =>
      let ⟨h, hhead, hextends⟩ := exists_head subject
      ⟨h, hhead, .member hextends⟩
  | .index subject _ =>
      let ⟨h, hhead, hextends⟩ := exists_head subject
      ⟨h, hhead, .index hextends⟩
  | .error _ | .float _ | .ifElse _ _ _ | .whileLoop _ _ | .forLoop _ _ _ | .block _ _
  | .assign _ _ _ | .binary _ _ _ | .unary _ _ | .name _ | .int _ | .char _ | .string _ | .bool _
  | .null => IsHead.exists_head trivial

theorem IsHead.opensAs (he : e.IsHead) (hlegible : e.Legible) : e.OpensAs e.opening := by
  cases e with
  | error => exact hlegible.root.1.elim
  | float => exact hlegible.root.2.elim
  | call | member | index => exact he.elim
  | bool b => cases b <;> constructor
  | _ => constructor

theorem Continues.mono (h : subject.Continues e)
    (hmono : ∀ {form : Expr}, form.Extends e → form.Extends e') : subject.Continues e' := by
  cases h with
  | call h => exact .call (hmono h)
  | member h => exact .member (hmono h)
  | index h => exact .index (hmono h)

namespace Extends

theorem legible (h : e.Extends e') (he' : e'.Legible) : e.Legible := by
  induction h with
  | refl => exact he'
  | call _ ih | member _ ih | index _ ih => exact ih (he'.part (.head _))

/-- The text of an extension goes on with a postfix form, if there is one. -/
theorem exists_text (h : e.Extends e') :
    ∃ u, PostfixText u ∧ e'.text.toList = e.text.toList ++ u ∧ (u = [] → e = e') := by
  -- a postfix form behind its subject, written with its mark
  have hstep : ∀ {subject form : Expr} {c : Char} {v : List Char}, PostfixMark c →
      form.text.toList = subject.text.toList ++ c :: v →
      (∃ u, PostfixText u ∧ subject.text.toList = e.text.toList ++ u ∧ (u = [] → e = subject)) →
      ∃ u, PostfixText u ∧ form.text.toList = e.text.toList ++ u ∧ (u = [] → e = form) := by
    rintro subject form c v hc hform ⟨u, hu, htext, -⟩
    refine ⟨u ++ c :: v, hu.append hc v, ?_, fun hnil => by simp at hnil⟩
    rw [hform, htext, List.append_assoc]
  induction h with
  | refl => exact ⟨[], nofun, (List.append_nil _).symm, fun _ => rfl⟩
  | @call subject given _ ih =>
      have htext := toList_call [] subject given
      rw [List.append_nil] at htext
      exact hstep (.inr (.inl rfl)) htext ih
  | @member subject name _ ih =>
      have htext := toList_member [] subject name
      rw [List.append_nil] at htext
      exact hstep (.inl rfl) htext ih
  | @index subject key _ ih =>
      have htext := toList_index [] subject key
      rw [List.append_nil] at htext
      exact hstep (.inr (.inr rfl)) htext ih

/-- An extension is the expression itself, or a postfix form stands directly behind it. -/
theorem cases_first (h : subject.Extends e) : subject = e ∨ subject.Continues e := by
  induction h with
  | refl => exact .inl rfl
  | call _ ih =>
      rcases ih with rfl | h
      · exact .inr (.call .refl)
      · exact .inr (h.mono .call)
  | member _ ih =>
      rcases ih with rfl | h
      · exact .inr (.member .refl)
      · exact .inr (h.mono .member)
  | index _ ih =>
      rcases ih with rfl | h
      · exact .inr (.index .refl)
      · exact .inr (h.mono .index)

end Extends

/-! ## Readable expressions -/

/-- One of the two expressions is the other with postfix forms behind it. -/
def Comparable (e e' : Expr) : Prop := e.Extends e' ∨ e'.Extends e

/-- The text of the expression tells it from all legible ones, up to postfix forms behind it; and
    if it is a block, also where it ends. -/
structure Readable (e : Expr) : Prop where
  comparable : ∀ {e' : Expr} {r r' : List Char}, e'.Legible → Severed r → Severed r' →
    e.text.toList ++ r = e'.text.toList ++ r' → e.Comparable e'
  block : ∀ {e' : Expr} {r r' : List Char}, e.IsBlock → e'.IsBlock → e'.Legible →
    e.text.toList ++ r = e'.text.toList ++ r' → e = e' ∧ r = r'

namespace Readable

variable {r r' : List Char}

/-- **A whole expression**, behind which no postfix form stands, is told apart by its text. -/
theorem whole (h : e.Readable) (he' : e'.Legible) (hr : Ended r) (hr' : Ended r')
    (heq : e.text.toList ++ r = e'.text.toList ++ r') : e = e' ∧ r = r' := by
  rcases h.comparable he' hr.severed hr'.severed heq with hextends | hextends
  · obtain ⟨u, hu, htext, hself⟩ := hextends.exists_text
    rw [htext, List.append_assoc, List.append_cancel_left_eq] at heq
    obtain rfl := hu.eq_nil (heq ▸ hr)
    exact ⟨hself rfl, heq⟩
  · obtain ⟨u, hu, htext, hself⟩ := hextends.exists_text
    rw [htext, List.append_assoc, List.append_cancel_left_eq] at heq
    obtain rfl := hu.eq_nil (heq.symm ▸ hr')
    exact ⟨(hself rfl).symm, heq⟩

/-- Of the expressions that the text may show only those have to be looked at that are no postfix
    forms and open alike. -/
theorem comparable_of_head (he : e.Legible)
    (hsame : ∀ {h : Expr} {r r' : List Char}, h.OpensAs e.opening → h.Legible →
      Severed r → Severed r' → e.text.toList ++ r = h.text.toList ++ r' → e = h)
    (he' : e'.Legible) (hr : Severed r) (hr' : Severed r')
    (heq : e.text.toList ++ r = e'.text.toList ++ r') : e.Comparable e' := by
  obtain ⟨h, hhead, hextends⟩ := e'.exists_head
  obtain ⟨u, hu, htext, -⟩ := hextends.exists_text
  have hlegible := hextends.legible he'
  rw [htext, List.append_assoc] at heq
  have hopen := openingKind_expr he hr.1
  rw [heq, openingKind_expr hlegible (hu.severed hr').1] at hopen
  obtain rfl := hsame (hopen ▸ hhead.opensAs hlegible) hlegible hr (hu.severed hr') heq
  exact .inl hextends

/-- **An expression that is neither a postfix form nor a block** is readable if its text tells it
    from those that open alike. -/
theorem of_head (he : e.Legible) (hblock : e.opening ≠ .openCurly)
    (hsame : ∀ {h : Expr} {r r' : List Char}, h.OpensAs e.opening → h.Legible →
      Severed r → Severed r' → e.text.toList ++ r = h.text.toList ++ r' → e = h) : e.Readable where
  comparable he' hr hr' heq := comparable_of_head he hsame he' hr hr' heq
  block := by
    rintro e' r r' ⟨ss, result, rfl⟩
    exact absurd rfl hblock

/-! ### Names and literals -/

theorem name {n : String} (he : (Expr.name n).Legible) : (Expr.name n).Readable := by
  refine .of_head he nofun ?_
  intro h r r' hopen hlegible hr hr' heq
  cases hopen with
  | @name n' =>
      rw [Expr.text, Expr.text] at heq
      obtain ⟨rfl, -⟩ := name_unique he.root.2 hlegible.root.2 hr.1 hr'.1 heq
      rfl

theorem int {n : Int} (he : (Expr.int n).Legible) : (Expr.int n).Readable := by
  refine .of_head he nofun ?_
  intro h r r' hopen hlegible hr hr' heq
  cases hopen with
  | @int n' =>
      rw [Expr.text, Expr.text] at heq
      rw [int_unique he.root.2 hlegible.root.2 hr.1 hr'.1 heq]

theorem char {c : Char} (he : (Expr.char c).Legible) : (Expr.char c).Readable := by
  refine .of_head he nofun ?_
  intro h r r' hopen _ _ _ heq
  cases hopen with
  | @char c' =>
      rw [toList_char, toList_char] at heq
      have hc := Text.escaped_escape true c
      obtain ⟨rfl, -⟩ := hc.unique (Text.escaped_escape true c') (List.cons.inj heq).2
      rfl

theorem string {s : String} (he : (Expr.string s).Legible) : (Expr.string s).Readable := by
  refine .of_head he nofun ?_
  intro h r r' hopen _ _ _ heq
  cases hopen with
  | @string s' =>
      rw [toList_string, toList_string] at heq
      obtain ⟨hlist, -⟩ := Text.escapeAll_unique (List.cons.inj heq).2
      rw [String.toList_inj.mp hlist]

theorem bool {b : Bool} (he : (Expr.bool b).Legible) : (Expr.bool b).Readable := by
  refine .of_head he (by cases b <;> exact nofun) ?_
  intro h r r' hopen _ _ _ _
  cases b <;> cases hopen <;> rfl

theorem null (he : Expr.null.Legible) : Expr.null.Readable := by
  refine .of_head he nofun ?_
  intro h r r' hopen _ _ _ _
  cases hopen
  rfl

/-! ### Postfix forms -/

/-- An expression whose text goes on with a postfix form behind `subject` is part of the subject, or
    it has a postfix form there itself, whose text is the one that follows. -/
theorem cases_mark {subject : Expr} (hs : subject.Readable) (he' : e'.Legible) {c : Char}
    {v : List Char} (hc : PostfixMark c) (hr' : Severed r')
    (heq : subject.text.toList ++ c :: v = e'.text.toList ++ r') :
    e'.Extends subject ∨
      (∃ given x, (Expr.call subject given).Extends e' ∧
        c :: v = '(' :: ((argumentsText given).toList ++ ')' :: x)) ∨
      (∃ name x, (Expr.member subject name).Extends e' ∧ Severed x ∧
        c :: v = '.' :: (name.toList ++ x)) ∨
      ∃ key x, (Expr.index subject key).Extends e' ∧
        c :: v = '[' :: (key.text.toList ++ ']' :: x) := by
  have hcv : Severed (c :: v) := by
    rcases hc with rfl | rfl | rfl <;> exact severed_cons rfl (by decide) v
  rcases hs.comparable he' hcv hr' heq with hextends | hextends
  · -- what stands behind the subject starts the text behind it
    have hbehind : ∀ {form : Expr}, form.Extends e' →
        ∃ x, Severed x ∧ subject.text.toList ++ c :: v = form.text.toList ++ x := by
      intro form hform
      obtain ⟨u, hu, htext, -⟩ := hform.exists_text
      exact ⟨u ++ r', hu.severed hr', by rw [heq, htext, List.append_assoc]⟩
    rcases hextends.cases_first with rfl | hcontinues
    · exact .inl .refl
    · cases hcontinues with
      | call h =>
          obtain ⟨x, -, hx⟩ := hbehind h
          rw [toList_call, List.append_cancel_left_eq] at hx
          exact .inr (.inl ⟨_, x, h, hx⟩)
      | member h =>
          obtain ⟨x, hsevered, hx⟩ := hbehind h
          rw [toList_member, List.append_cancel_left_eq] at hx
          exact .inr (.inr (.inl ⟨_, x, h, hsevered, hx⟩))
      | index h =>
          obtain ⟨x, -, hx⟩ := hbehind h
          rw [toList_index, List.append_cancel_left_eq] at hx
          exact .inr (.inr (.inr ⟨_, x, h, hx⟩))
  · exact .inl hextends

/-- A postfix form is no block. -/
theorem of_not_head (hhead : ¬e.IsHead)
    (hcomparable : ∀ {e' : Expr} {r r' : List Char}, e'.Legible → Severed r → Severed r' →
      e.text.toList ++ r = e'.text.toList ++ r' → e.Comparable e') : e.Readable where
  comparable := hcomparable
  block := by
    rintro e' r r' ⟨ss, result, rfl⟩
    exact absurd trivial hhead

theorem member {subject : Expr} {n : String} (hs : subject.Readable)
    (he : (Expr.member subject n).Legible) : (Expr.member subject n).Readable := by
  refine .of_not_head id ?_
  intro e' r r' he' hr hr' heq
  rw [toList_member] at heq
  rcases hs.cases_mark he' (.inl rfl) hr' heq with
    h | ⟨given, x, h, hx⟩ | ⟨n', x, h, hsevered, hx⟩ | ⟨key, x, h, hx⟩
  · exact .inr (.member h)
  · cases (List.cons.inj hx).1
  · have hn' : IsName n' := (h.legible he').root.2
    obtain ⟨rfl, -⟩ := name_unique he.root.2 hn' hr.1 hsevered.1 (List.cons.inj hx).2
    exact .inl h
  · cases (List.cons.inj hx).1

theorem index {subject key : Expr} (hs : subject.Readable) (hk : key.Readable) :
    (Expr.index subject key).Readable := by
  refine .of_not_head id ?_
  intro e' r r' he' hr hr' heq
  rw [toList_index] at heq
  rcases hs.cases_mark he' (.inr (.inr rfl)) hr' heq with
    h | ⟨given, x, h, hx⟩ | ⟨n, x, h, -, hx⟩ | ⟨key', x, h, hx⟩
  · exact .inr (.index h)
  · cases (List.cons.inj hx).1
  · cases (List.cons.inj hx).1
  · have hkey' : key'.Legible := (h.legible he').part (.tail _ (.head _))
    obtain ⟨rfl, -⟩ := hk.whole hkey' (ended_mark (by decide) r) (ended_mark (by decide) x)
      (List.cons.inj hx).2
    exact .inl h

/-- Arguments are told apart up to the parenthesis behind them. -/
theorem arguments {es es' : List Expr} (hes : ∀ e ∈ es, e.Legible ∧ e.Readable)
    (hes' : ∀ e ∈ es', e.Legible)
    (heq : (argumentsText es).toList ++ ')' :: r = (argumentsText es').toList ++ ')' :: r') :
    es = es' ∧ r = r' := by
  have hopen : ∀ {e : Expr}, e.Legible → ∀ x x', Closing x → e.text.toList ++ x ≠ ')' :: x' :=
    fun he x _ hx => he.text_ne hx.ended.severed.1 rfl
  refine separated_arguments.unique (fun e he => hopen (hes e he).1) (fun e he => hopen (hes' e he))
    (fun e he e' he' x x' hx hx' => ?_) heq
  exact (hes e he).2.whole (hes' e' he') hx.ended hx'.ended

theorem call {subject : Expr} {given : List Expr} (hs : subject.Readable)
    (hgiven : ∀ e ∈ given, e.Legible ∧ e.Readable) : (Expr.call subject given).Readable := by
  refine .of_not_head id ?_
  intro e' r r' he' hr hr' heq
  rw [toList_call] at heq
  rcases hs.cases_mark he' (.inr (.inl rfl)) hr' heq with
    h | ⟨given', x, h, hx⟩ | ⟨n, x, h, -, hx⟩ | ⟨key, x, h, hx⟩
  · exact .inr (.call h)
  · have hgiven' : ∀ e ∈ given', e.Legible :=
      fun e hmem => (h.legible he').part (.tail _ (List.mem_map_of_mem hmem))
    obtain ⟨rfl, -⟩ := arguments hgiven hgiven' (List.cons.inj hx).2
    exact .inl h
  · cases (List.cons.inj hx).1
  · cases (List.cons.inj hx).1

/-! ### Operations -/

/-- An operation with two operands is told apart by its operands and by the kind of its symbol. -/
theorem infix_unique {left right left' right' : Expr} {symbol symbol' : String} {k k' : Kind}
    (hl : left.Readable) (hl' : left'.Legible) (hr : right.Readable) (hr' : right'.Legible)
    (hs : Operator k symbol) (hs' : Operator k' symbol')
    (heq : left.text.toList ++ ' ' :: (symbol.toList ++ ' ' :: (right.text.toList ++ ')' :: r)) =
      left'.text.toList ++ ' ' ::
        (symbol'.toList ++ ' ' :: (right'.text.toList ++ ')' :: r'))) :
    k = k' ∧ left = left' ∧ right = right' := by
  obtain ⟨rfl, hbehind⟩ := hl.whole hl' (hs.ended _) (hs'.ended _) heq
  obtain ⟨rfl, hmore⟩ := hs.unique hs' (List.cons.inj hbehind).2
  obtain ⟨rfl, -⟩ := hr.whole hr' (ended_mark (by decide) r) (ended_mark (by decide) r') hmore
  exact ⟨rfl, rfl, rfl⟩

/-- The operator of an operation with one operand is no operand of another. -/
theorem infix_ne_unary {left : Expr} (hl : left.Legible) (o : UnaryOperator) (x x' : List Char) :
    left.text.toList ++ ' ' :: x ≠ o.symbol.toList ++ ' ' :: x' := by
  refine hl.text_ne (unworded_cons rfl x) ?_
  cases o with
  | not =>
      have hopen := openingKind_keyword "not" rfl (unworded_cons (c := ' ') rfl x')
      exact congrArg Kind.opensText hopen
  | negate => rfl

theorem binary {o : BinaryOperator} {left right : Expr} (he : (Expr.binary o left right).Legible)
    (hl : left.Readable) (hr : right.Readable) : (Expr.binary o left right).Readable := by
  refine .of_head he nofun ?_
  intro h r r' hopen hlegible _ _ heq
  rw [toList_binary] at heq
  cases hopen with
  | @binary o' left' right' =>
      rw [toList_binary] at heq
      obtain ⟨hk, rfl, rfl⟩ := hl.infix_unique (hlegible.part (.head _)) hr
        (hlegible.part (.tail _ (.head _))) o.operator o'.operator (List.cons.inj heq).2
      have ho := o.binary?_kind
      rw [hk, o'.binary?_kind] at ho
      obtain ⟨-, rfl⟩ := Prod.mk.inj (Option.some.inj ho)
      rfl
  | @assign o' subject value =>
      rw [toList_assign] at heq
      obtain ⟨hk, -, -⟩ := hl.infix_unique (hlegible.part (.head _)) hr
        (hlegible.part (.tail _ (.head _))) o.operator o'.operator (List.cons.inj heq).2
      cases o <;> cases o' <;> cases hk
  | @unary o' subject =>
      rw [toList_unary] at heq
      have hleft : left.Legible := he.part (.head _)
      exact absurd (List.cons.inj heq).2 (infix_ne_unary hleft o' _ _)

theorem assign {o : AssignOperator} {subject value : Expr}
    (he : (Expr.assign o subject value).Legible) (hs : subject.Readable) (hv : value.Readable) :
    (Expr.assign o subject value).Readable := by
  refine .of_head he nofun ?_
  intro h r r' hopen hlegible _ _ heq
  rw [toList_assign] at heq
  cases hopen with
  | @assign o' subject' value' =>
      rw [toList_assign] at heq
      obtain ⟨hk, rfl, rfl⟩ := hs.infix_unique (hlegible.part (.head _)) hv
        (hlegible.part (.tail _ (.head _))) o.operator o'.operator (List.cons.inj heq).2
      have ho := o.assign?_kind
      rw [hk, o'.assign?_kind] at ho
      cases ho
      rfl
  | @binary o' left right =>
      rw [toList_binary] at heq
      obtain ⟨hk, -, -⟩ := hs.infix_unique (hlegible.part (.head _)) hv
        (hlegible.part (.tail _ (.head _))) o.operator o'.operator (List.cons.inj heq).2
      cases o <;> cases o' <;> cases hk
  | @unary o' subject' =>
      rw [toList_unary] at heq
      have hsubject : subject.Legible := he.part (.head _)
      exact absurd (List.cons.inj heq).2 (infix_ne_unary hsubject o' _ _)

theorem unary {o : UnaryOperator} {subject : Expr} (he : (Expr.unary o subject).Legible)
    (hs : subject.Readable) : (Expr.unary o subject).Readable := by
  refine .of_head he nofun ?_
  intro h r r' hopen hlegible _ _ heq
  rw [toList_unary] at heq
  cases hopen with
  | @unary o' subject' =>
      rw [toList_unary] at heq
      obtain ⟨hk, hmore⟩ := o.operator.unique o'.operator (List.cons.inj heq).2
      obtain ⟨rfl, -⟩ := hs.whole (hlegible.part (.head _)) (ended_mark (by decide) r)
        (ended_mark (by decide) r') hmore
      have ho := o.unary?_kind
      rw [hk, o'.unary?_kind] at ho
      cases ho
      rfl
  | @binary o' left right =>
      rw [toList_binary] at heq
      have hleft : left.Legible := hlegible.part (.head _)
      exact absurd (List.cons.inj heq).2.symm (infix_ne_unary hleft o _ _)
  | @assign o' subject' value =>
      rw [toList_assign] at heq
      have hsubject' : subject'.Legible := hlegible.part (.head _)
      exact absurd (List.cons.inj heq).2.symm (infix_ne_unary hsubject' o _ _)

/-! ### Control flow -/

theorem ifElse {condition truthy : Expr} {falsy : Option Expr}
    (he : (Expr.ifElse condition truthy falsy).Legible) (hc : condition.Readable)
    (ht : truthy.Readable) (hf : ∀ e ∈ falsy, e.Readable) :
    (Expr.ifElse condition truthy falsy).Readable := by
  refine .of_head he nofun ?_
  intro h r r' hopen hlegible hr hr' heq
  obtain ⟨hblock, hblocks⟩ := he.root.1
  cases hopen with
  | @ifElse condition' truthy' falsy' =>
      obtain ⟨hblock', hblocks'⟩ := hlegible.root.1
      rw [toList_ifElse, toList_ifElse, List.append_cancel_left_eq] at heq
      obtain ⟨rfl, hbehind⟩ := hc.whole (hlegible.part (.head _)) (hblock.ended _)
        (hblock'.ended _) (List.cons.inj heq).2
      obtain ⟨rfl, hmore⟩ := ht.block hblock hblock' (hlegible.part (.tail _ (.head _)))
        (List.cons.inj hbehind).2
      obtain ⟨rfl, -⟩ := optional_unique hr.not_else hr'.not_else (fun e hmem e' hmem' heq' =>
        (hf e hmem).block (hblocks e hmem) (hblocks' e' hmem')
          (hlegible.part (.tail _ (.tail _ (List.mem_map_of_mem (Option.mem_toList.mpr hmem')))))
          heq') hmore
      rfl

theorem whileLoop {condition body : Expr} (he : (Expr.whileLoop condition body).Legible)
    (hc : condition.Readable) (hb : body.Readable) : (Expr.whileLoop condition body).Readable := by
  refine .of_head he nofun ?_
  intro h r r' hopen hlegible _ _ heq
  have hblock : body.IsBlock := he.root.1
  cases hopen with
  | @whileLoop condition' body' =>
      have hblock' : body'.IsBlock := hlegible.root.1
      rw [toList_whileLoop, toList_whileLoop, List.append_cancel_left_eq] at heq
      obtain ⟨rfl, hbehind⟩ := hc.whole (hlegible.part (.head _)) (hblock.ended _)
        (hblock'.ended _) (List.cons.inj heq).2
      obtain ⟨rfl, -⟩ := hb.block hblock hblock' (hlegible.part (.tail _ (.head _)))
        (List.cons.inj hbehind).2
      rfl

theorem forLoop {subject : Pattern} {iterable body : Expr}
    (he : (Expr.forLoop subject iterable body).Legible) (hi : iterable.Readable)
    (hb : body.Readable) : (Expr.forLoop subject iterable body).Readable := by
  refine .of_head he nofun ?_
  intro h r r' hopen hlegible _ _ heq
  have hblock : body.IsBlock := he.root.1
  cases hopen with
  | @forLoop subject' iterable' body' =>
      have hblock' : body'.IsBlock := hlegible.root.1
      rw [toList_forLoop, toList_forLoop, List.append_cancel_left_eq] at heq
      obtain ⟨rfl, hin⟩ := pattern_unique (he.part (.head _)) (hlegible.part (.head _))
        (unworded_cons rfl _) (unworded_cons rfl _) (List.cons.inj heq).2
      rw [List.cons.injEq, List.append_cancel_left_eq] at hin
      obtain ⟨rfl, hbehind⟩ := hi.whole (hlegible.part (.tail _ (.head _))) (hblock.ended _)
        (hblock'.ended _) (List.cons.inj hin.2).2
      obtain ⟨rfl, -⟩ := hb.block hblock hblock' (hlegible.part (.tail _ (.tail _ (.head _))))
        (List.cons.inj hbehind).2
      rfl

end Readable
end Expr

end ExprLang
