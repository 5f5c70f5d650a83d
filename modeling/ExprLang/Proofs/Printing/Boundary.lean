import ExprLang.Proofs.Printing.Opening
import ExprLang.Proofs.Scanning.Longest
import ExprLang.Proofs.Text.Escape

/-!
# `Proofs.Printing.Boundary` — where the parts of a text end

The text of a tree stands in front of others, so that it has to be seen in the text where it ends.
A word ends where no character of a word follows; a list ends at its closing parenthesis, and each
of its elements in front of a comma; what may be missing is told by its mark; an operator ends at
the blank behind it.

## Contents
- `Severed`, `Ended`, `Closing`: what may follow.
- `Separated.unique`: lists up to their closing parenthesis.
- `optional_unique`: what may be missing.
- `pattern_unique`, `type_unique`, `int_unique`: names and numbers.
- `Operator.unique`: operators.
-/

namespace ExprLang

/-! ## What may follow -/

/-- A postfix form starts with this character, behind its subject. -/
def PostfixMark (c : Char) : Prop := c = '.' ∨ c = '(' ∨ c = '['

instance : DecidablePred PostfixMark :=
  fun c => inferInstanceAs (Decidable (c = '.' ∨ c = '(' ∨ c = '['))

/-- What follows is neither the rest of a word nor a second branch. -/
def Severed (rest : List Char) : Prop := Unworded rest ∧ ¬[' ', 'e'] <+: rest

/-- What follows is no rest of an expression. -/
structure Ended (rest : List Char) : Prop where
  severed : Severed rest
  unmarked : ∀ c, rest.head? = some c → ¬PostfixMark c

theorem severed_cons {c : Char} (hc : isNamePart c = false) (hblank : c ≠ ' ') (rest : List Char) :
    Severed (c :: rest) := by
  refine ⟨unworded_cons hc rest, ?_⟩
  rintro ⟨u, hu⟩
  exact hblank (List.cons.inj hu).1.symm

theorem severed_blank {c : Char} (hc : c ≠ 'e') (rest : List Char) : Severed (' ' :: c :: rest) := by
  refine ⟨unworded_cons rfl _, ?_⟩
  rintro ⟨u, hu⟩
  exact hc (List.cons.inj (List.cons.inj hu).2).1.symm

theorem ended_nil : Ended [] where
  severed := ⟨unworded_nil, by rintro ⟨u, hu⟩; cases hu⟩
  unmarked := by rintro c hc; cases hc

theorem ended_cons {c : Char} (hc : isNamePart c = false) (hblank : c ≠ ' ') (hmark : ¬PostfixMark c)
    (rest : List Char) : Ended (c :: rest) where
  severed := severed_cons hc hblank rest
  unmarked := by
    rintro d hd
    cases hd
    exact hmark

theorem ended_blank {c : Char} (hc : c ≠ 'e') (rest : List Char) : Ended (' ' :: c :: rest) where
  severed := severed_blank hc rest
  unmarked := by
    rintro d hd
    cases hd
    decide

theorem Severed.not_else {rest : List Char} (h : Severed rest) : ¬" else ".toList <+: rest := by
  rintro ⟨u, rfl⟩
  exact h.2 ⟨_, rfl⟩

/-- A block behind a blank. -/
theorem Expr.IsBlock.ended {e : Expr} (h : e.IsBlock) (rest : List Char) :
    Ended (' ' :: (e.text.toList ++ rest)) := by
  obtain ⟨ss, result, rfl⟩ := h
  rw [toList_block]
  exact ended_blank (by decide) _

/-- A closing or separating mark. -/
theorem ended_mark {c : Char} (hc : c ∈ [')', ']', ',', ';']) (rest : List Char) :
    Ended (c :: rest) := by
  simp only [List.mem_cons, List.not_mem_nil, or_false] at hc
  rcases hc with rfl | rfl | rfl | rfl <;>
    exact ended_cons rfl (by decide) (by decide) rest

/-- What follows closes a list or a statement, or goes on with the list. -/
def Closing (rest : List Char) : Prop := ∃ c ∈ [')', ',', ';'], ∃ u, rest = c :: u

theorem closing_cons {c : Char} (hc : c ∈ [')', ',', ';']) (rest : List Char) :
    Closing (c :: rest) :=
  ⟨c, hc, rest, rfl⟩

theorem Closing.ended {rest : List Char} (h : Closing rest) : Ended rest := by
  obtain ⟨c, hc, u, rfl⟩ := h
  simp only [List.mem_cons, List.not_mem_nil, or_false] at hc
  rcases hc with rfl | rfl | rfl <;> exact ended_mark (by decide) u

/-! ## Lists -/

/-- The text of a list is made of those of its elements, with commas in between. -/
structure Separated {α : Type} (text : α → String) (list : List α → String) : Prop where
  nil : list [] = ""
  one : ∀ a, list [a] = text a
  more : ∀ a b l, list (a :: b :: l) = text a ++ ", " ++ list (b :: l)

theorem separated_arguments : Separated Expr.text argumentsText where
  nil := by rw [argumentsText]
  one e := by rw [argumentsText]
  more e e' es := by rw [argumentsText]; exact nofun

theorem separated_parameters : Separated Parameter.text parametersText where
  nil := by rw [parametersText]
  one p := by rw [parametersText]
  more p p' ps := by rw [parametersText]; exact nofun

/-- What stands behind the first element of a list, up to the closing parenthesis and on. -/
def behindFirst {α : Type} (list : List α → String) : List α → List Char → List Char
  | [], r => ')' :: r
  | b :: l, r => ',' :: ' ' :: ((list (b :: l)).toList ++ ')' :: r)

theorem closing_behindFirst {α : Type} (list : List α → String) (l : List α) (r : List Char) :
    Closing (behindFirst list l r) := by
  cases l <;> exact closing_cons (by decide) _

namespace Separated

variable {α : Type} {text : α → String} {list : List α → String} (h : Separated text list)

include h

theorem toList_cons (a : α) (l : List α) (r : List Char) :
    (list (a :: l)).toList ++ ')' :: r = (text a).toList ++ behindFirst list l r := by
  cases l with
  | nil => rw [h.one, behindFirst]
  | cons b l =>
      rw [h.more, behindFirst]
      simp

/-- **A list up to its closing parenthesis** is told apart by its text, if its elements are. -/
theorem unique {l l' : List α} {r r' : List Char}
    (hopen : ∀ a ∈ l, ∀ x x', Closing x → (text a).toList ++ x ≠ ')' :: x')
    (hopen' : ∀ b ∈ l', ∀ x x', Closing x → (text b).toList ++ x ≠ ')' :: x')
    (hunique : ∀ a ∈ l, ∀ b ∈ l', ∀ x x', Closing x → Closing x' →
      (text a).toList ++ x = (text b).toList ++ x' → a = b ∧ x = x')
    (heq : (list l).toList ++ ')' :: r = (list l').toList ++ ')' :: r') : l = l' ∧ r = r' := by
  induction l generalizing l' with
  | nil =>
      cases l' with
      | nil => exact ⟨rfl, (List.cons.inj (List.append_cancel_left heq)).2⟩
      | cons b l' =>
          rw [h.nil, h.toList_cons] at heq
          exact absurd heq.symm (hopen' b (.head l') _ r (closing_behindFirst list l' r'))
  | cons a l ih =>
      cases l' with
      | nil =>
          rw [h.nil, h.toList_cons] at heq
          exact absurd heq (hopen a (.head l) _ r' (closing_behindFirst list l r))
      | cons b l' =>
          rw [h.toList_cons, h.toList_cons] at heq
          obtain ⟨rfl, hbehind⟩ := hunique a (.head l) b (.head l') _ _
            (closing_behindFirst list l r) (closing_behindFirst list l' r') heq
          cases l with
          | nil =>
              cases l' with
              | nil => exact ⟨rfl, (List.cons.inj hbehind).2⟩
              | cons c' l' => cases (List.cons.inj hbehind).1
          | cons c l =>
              cases l' with
              | nil => cases (List.cons.inj hbehind).1
              | cons c' l' =>
                  obtain ⟨hlists, hr⟩ := ih (fun d hd => hopen d (.tail a hd))
                    (fun d hd => hopen' d (.tail a hd))
                    (fun d hd d' hd' => hunique d (.tail a hd) d' (.tail a hd'))
                    (List.cons.inj (List.cons.inj hbehind).2).2
                  exact ⟨by rw [hlists], hr⟩

end Separated

/-! ## What may be missing -/

/-- **A part that may be missing** is told apart by its mark, which does not start what follows. -/
theorem optional_unique {α : Type} {mark : String} {text : α → String} {a b : Option α}
    {r r' : List Char} (hr : ¬mark.toList <+: r) (hr' : ¬mark.toList <+: r')
    (hunique : ∀ c ∈ a, ∀ d ∈ b, (text c).toList ++ r = (text d).toList ++ r' → c = d ∧ r = r')
    (heq : optional mark text a ++ r = optional mark text b ++ r') : a = b ∧ r = r' := by
  cases a with
  | none =>
      cases b with
      | none => exact ⟨rfl, heq⟩
      | some d =>
          have hprefix : mark.toList <+: r := ⟨_, ((List.append_assoc _ _ _).symm.trans heq.symm)⟩
          exact absurd hprefix hr
  | some c =>
      cases b with
      | none =>
          have hprefix : mark.toList <+: r' := ⟨_, ((List.append_assoc _ _ _).symm.trans heq)⟩
          exact absurd hprefix hr'
      | some d =>
          rw [optional, optional, List.append_assoc, List.append_assoc,
            List.append_cancel_left_eq] at heq
          obtain ⟨rfl, hrest⟩ := hunique c rfl d rfl heq
          exact ⟨rfl, hrest⟩

/-! ## Names and numbers -/

theorem pattern_unique {p p' : Pattern} {r r' : List Char}
    (hp : (Node.pattern p).Throughout Node.Legible) (hp' : (Node.pattern p').Throughout Node.Legible)
    (hr : Unworded r) (hr' : Unworded r') (h : p.text.toList ++ r = p'.text.toList ++ r') :
    p = p' ∧ r = r' := by
  cases p with
  | error => exact hp.root.1.elim
  | named name =>
      cases p' with
      | error => exact hp'.root.1.elim
      | named name' =>
          obtain ⟨rfl, hrest⟩ := name_unique hp.root.2 hp'.root.2 hr hr' h
          exact ⟨rfl, hrest⟩

theorem type_unique {t t' : TypeName} {r r' : List Char}
    (ht : (Node.type t).Throughout Node.Legible) (ht' : (Node.type t').Throughout Node.Legible)
    (hr : Unworded r) (hr' : Unworded r') (h : t.text.toList ++ r = t'.text.toList ++ r') :
    t = t' ∧ r = r' := by
  cases t with
  | error => exact ht.root.1.elim
  | named name =>
      cases t' with
      | error => exact ht'.root.1.elim
      | named name' =>
          obtain ⟨rfl, hrest⟩ := name_unique ht.root.2 ht'.root.2 hr hr' h
          exact ⟨rfl, hrest⟩

theorem int_unique {m n : Int} {r r' : List Char} (hm : 0 ≤ m) (hn : 0 ≤ n) (hr : Unworded r)
    (hr' : Unworded r') (h : (toString m).toList ++ r = (toString n).toList ++ r') : m = n := by
  obtain ⟨k, rfl⟩ := Int.eq_ofNat_of_zero_le hm
  obtain ⟨l, rfl⟩ := Int.eq_ofNat_of_zero_le hn
  have hdigits : ∀ i, (Nat.repr i).toList.all isNamePart = true := by
    intro i
    rw [List.all_eq_true]
    exact fun c hc => isNamePart_of_isDigit (List.all_eq_true.mp (all_isDigit_repr i) c hc)
  have hrepr : (Nat.repr k).toList = (Nat.repr l).toList :=
    (word_unique (hdigits k) (hdigits l) hr hr' h).1
  have hvalue := congrArg Numeral.natural hrepr
  rw [natural_repr, natural_repr] at hvalue
  rw [hvalue]

/-! ## Operators -/

namespace AssignOperator

/-- The kind of token that an operator is written as. -/
def kind : AssignOperator → Kind
  | assign => .assignment
  | add => .plusEquals
  | subtract => .minusEquals
  | multiply => .starEquals
  | divide => .slashEquals
  | modulus => .percentEquals

theorem assign?_kind (o : AssignOperator) : o.kind.assign? = some o := by
  cases o <;> rfl

theorem lexeme (o : AssignOperator) (rest : List Char) :
    Lexeme o.kind o.symbol.toList (' ' :: rest) := by
  cases o with
  | assign => exact .symbol rfl rest
  | add | subtract | multiply | divide | modulus => exact .pair rfl

end AssignOperator

/-- In front of a blank, the symbol is a token of kind `k`, and it is none that starts like a second
    branch. -/
structure Operator (k : Kind) (symbol : String) : Prop where
  lexeme : ∀ rest, Lexeme k symbol.toList (' ' :: rest)
  head : ∃ c u, symbol.toList = c :: u ∧ c ≠ 'e'

theorem BinaryOperator.operator (o : BinaryOperator) : Operator o.kind o.symbol where
  lexeme := o.lexeme
  head := by cases o <;> exact ⟨_, _, rfl, by decide⟩

theorem AssignOperator.operator (o : AssignOperator) : Operator o.kind o.symbol where
  lexeme := o.lexeme
  head := by cases o <;> exact ⟨_, _, rfl, by decide⟩

theorem UnaryOperator.operator (o : UnaryOperator) : Operator o.kind o.symbol where
  lexeme := o.lexeme
  head := by cases o <;> exact ⟨_, _, rfl, by decide⟩

namespace Operator

variable {k k' : Kind} {symbol symbol' : String}

theorem ended (h : Operator k symbol) (rest : List Char) : Ended (' ' :: (symbol.toList ++ rest)) := by
  obtain ⟨c, u, hsymbol, hc⟩ := h.head
  rw [hsymbol]
  exact ended_blank hc _

/-- **An operator** is told apart by its symbol, up to the blank behind it. -/
theorem unique (h : Operator k symbol) (h' : Operator k' symbol') {x x' : List Char}
    (heq : symbol.toList ++ ' ' :: x = symbol'.toList ++ ' ' :: x') : k = k' ∧ x = x' := by
  obtain ⟨hk, hsymbol⟩ := (h.lexeme x).unique (h'.lexeme x') heq
  rw [hsymbol, List.append_cancel_left_eq] at heq
  exact ⟨hk, (List.cons.inj heq).2⟩

end Operator

end ExprLang
