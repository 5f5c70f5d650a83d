import ExprLang.Proofs.Printing.Literal
import ExprLang.Proofs.Tree.Node

/-!
# `Proofs.Printing.Opening` — how the text of a tree opens

A legible tree is one whose text has a chance to tell it from all others: no node stands for a
diagnostic, bodies are blocks, names are identifiers, and numbers are written with digits only.
Assignments may stand anywhere in it, and characters and strings may hold anything; such a text need
not be one that can be read back.

What kind of tree a text shows is seen at its very start, where an expression opens with a word, a
quote, a digit or a bracket. A postfix form opens with what its subject opens with.

## Contents
- `Node.Legible`, `Expr.Legible`, `Statement.Legible`: legible trees.
- `optional`, `toList_ifElse` and its like: how each text is put together.
- `word_unique`: a word up to what stands behind it.
- `openingKind`: the kind of token that a text opens with.
- `Expr.opening`, `openingKind_expr`; `Statement.opening`, `openingKind_statement`.
- `Statement.IsJump`, `Statement.OpensAs`: statements that open with a keyword.
-/

namespace ExprLang

/-! ## Legible trees -/

/-- The names of the node are identifiers that are not reserved, and its number is no float and not
    negative. -/
def Node.Worded : Node → Prop
  | expr (.name name) | expr (.member _ name) | type (.named name) | pattern (.named name) =>
    IsName name
  | function f => IsName f.name
  | expr (.int value) => 0 ≤ value
  | expr (.float _) => False
  | _ => True

/-- The node is legible. -/
def Node.Legible (n : Node) : Prop := n.WellShaped ∧ n.Worded

/-- All nodes of the expression are legible. -/
def Expr.Legible (e : Expr) : Prop := (Node.expr e).Throughout Node.Legible

/-- All nodes of the statement are legible. -/
def Statement.Legible (s : Statement) : Prop := (Node.statement s).Throughout Node.Legible

/-- All nodes of the parameter are legible. -/
def Parameter.Legible (p : Parameter) : Prop := (Node.parameter p).Throughout Node.Legible

/-- All nodes of the function are legible. -/
def FunctionDef.Legible (f : FunctionDef) : Prop := (Node.function f).Throughout Node.Legible

/-! ## How texts are put together -/

/-- What may be missing, with a mark in front of it. -/
def optional {α : Type} (mark : String) (text : α → String) : Option α → List Char
  | none => []
  | some a => mark.toList ++ (text a).toList

section

variable (rest : List Char)

theorem toList_ifElse (condition truthy : Expr) (falsy : Option Expr) :
    (Expr.ifElse condition truthy falsy).text.toList ++ rest =
      "if".toList ++ ' ' :: (condition.text.toList ++ ' ' :: (truthy.text.toList ++
        (optional " else " Expr.text falsy ++ rest))) := by
  cases falsy <;> rw [Expr.text] <;> simp [optional]

theorem toList_whileLoop (condition body : Expr) :
    (Expr.whileLoop condition body).text.toList ++ rest =
      "while".toList ++ ' ' :: (condition.text.toList ++ ' ' :: (body.text.toList ++ rest)) := by
  rw [Expr.text]
  simp

theorem toList_forLoop (subject : Pattern) (iterable body : Expr) :
    (Expr.forLoop subject iterable body).text.toList ++ rest =
      "for".toList ++ ' ' :: (subject.text.toList ++ ' ' :: ("in".toList ++ ' ' ::
        (iterable.text.toList ++ ' ' :: (body.text.toList ++ rest)))) := by
  rw [Expr.text]
  simp

theorem toList_block (statements : List Statement) (result : Option Expr) :
    (Expr.block statements result).text.toList ++ rest =
      '{' :: ((bodyText statements).toList ++
        (optional " " Expr.text result ++ ' ' :: '}' :: rest)) := by
  cases result <;> rw [Expr.text] <;> simp [optional]

theorem toList_assign (o : AssignOperator) (subject value : Expr) :
    (Expr.assign o subject value).text.toList ++ rest =
      '(' :: (subject.text.toList ++ ' ' :: (o.symbol.toList ++ ' ' ::
        (value.text.toList ++ ')' :: rest))) := by
  rw [Expr.text]
  simp

theorem toList_binary (o : BinaryOperator) (left right : Expr) :
    (Expr.binary o left right).text.toList ++ rest =
      '(' :: (left.text.toList ++ ' ' :: (o.symbol.toList ++ ' ' ::
        (right.text.toList ++ ')' :: rest))) := by
  rw [Expr.text]
  simp

theorem toList_unary (o : UnaryOperator) (subject : Expr) :
    (Expr.unary o subject).text.toList ++ rest =
      '(' :: (o.symbol.toList ++ ' ' :: (subject.text.toList ++ ')' :: rest)) := by
  rw [Expr.text]
  simp

theorem toList_call (subject : Expr) (given : List Expr) :
    (Expr.call subject given).text.toList ++ rest =
      subject.text.toList ++ '(' :: ((argumentsText given).toList ++ ')' :: rest) := by
  rw [Expr.text]
  simp

theorem toList_member (subject : Expr) (name : String) :
    (Expr.member subject name).text.toList ++ rest =
      subject.text.toList ++ '.' :: (name.toList ++ rest) := by
  rw [Expr.text]
  simp

theorem toList_index (subject key : Expr) :
    (Expr.index subject key).text.toList ++ rest =
      subject.text.toList ++ '[' :: (key.text.toList ++ ']' :: rest) := by
  rw [Expr.text]
  simp

theorem toList_char (c : Char) :
    (Expr.char c).text.toList ++ rest = '\'' :: (Text.escape true c ++ '\'' :: rest) := by
  rw [Expr.text]
  simp [quoted]

theorem toList_string (s : String) :
    (Expr.string s).text.toList ++ rest = '"' :: (Text.escapeAll s.toList ++ '"' :: rest) := by
  rw [Expr.text]
  simp [quoted]

theorem toList_body (s : Statement) (ss : List Statement) :
    (bodyText (s :: ss)).toList ++ rest =
      ' ' :: (s.text.toList ++ ((bodyText ss).toList ++ rest)) := by
  rw [bodyText]
  simp

theorem toList_exprStatement (e : Expr) :
    (Statement.expr e).text.toList ++ rest = e.text.toList ++ ';' :: rest := by
  rw [Statement.text]
  simp

theorem toList_letIn (p : Parameter) :
    (Statement.letIn p).text.toList ++ rest =
      "let".toList ++ ' ' :: (p.text.toList ++ ';' :: rest) := by
  rw [Statement.text]
  simp

theorem toList_parameter (subject : Pattern) (type : Option TypeName) (value : Option Expr) :
    (Parameter.mk subject type value).text.toList ++ rest =
      subject.text.toList ++ (optional ": " TypeName.text type ++
        (optional " = " Expr.text value ++ rest)) := by
  cases type <;> cases value <;> rw [Parameter.text] <;> simp [optional]

theorem toList_function (name : String) (ps : List Parameter) (result : Option TypeName)
    (body : Expr) :
    (FunctionDef.mk name ps result body).text.toList ++ rest =
      "fn".toList ++ ' ' :: (name.toList ++ '(' :: ((parametersText ps).toList ++ ')' ::
        (optional " -> " TypeName.text result ++ ' ' :: (body.text.toList ++ rest)))) := by
  cases result <;> rw [FunctionDef.text] <;> simp [optional]

end

/-! ## Words -/

/-- **A word ends** where no character of a word stands behind it. -/
theorem word_unique {u v r r' : List Char} (hu : u.all isNamePart = true)
    (hv : v.all isNamePart = true) (hr : Unworded r) (hr' : Unworded r')
    (h : u ++ r = v ++ r') : u = v ∧ r = r' := by
  obtain ⟨htake, hdrop⟩ := Piece.span_append hu hr
  obtain ⟨htake', hdrop'⟩ := Piece.span_append hv hr'
  rw [h] at htake hdrop
  exact ⟨htake.symm.trans htake', hdrop.symm.trans hdrop'⟩

theorem IsWord.all {text : String} (h : IsWord text) : text.toList.all isNamePart = true := by
  obtain ⟨c, u, htext, hc, hu⟩ := h
  rw [htext, List.all_cons, hu, isNamePart, hc]
  rfl

theorem name_unique {name name' : String} {r r' : List Char} (hname : IsName name)
    (hname' : IsName name') (hr : Unworded r) (hr' : Unworded r')
    (h : name.toList ++ r = name'.toList ++ r') : name = name' ∧ r = r' := by
  obtain ⟨hlist, hrest⟩ := word_unique hname.word.all hname'.word.all hr hr' h
  exact ⟨String.toList_inj.mp hlist, hrest⟩

/-! ## What a text opens with -/

/-- The kind of token that a text opens with. Numbers are taken for integers, and symbols have one
    character. -/
def openingKind : List Char → Kind
  | [] => .eof
  | c :: rest =>
    if isNameStart c then Kind.ofWord (String.ofList (c :: rest.takeWhile isNamePart))
    else if c.isDigit then .int
    else if c = '\'' then .char
    else if c = '"' then .string
    else (Kind.ofChar? c).getD .error

theorem openingKind_word {text : String} (h : IsWord text) {rest : List Char}
    (hrest : Unworded rest) : openingKind (text.toList ++ rest) = Kind.ofWord text := by
  obtain ⟨c, u, htext, hc, hu⟩ := h
  have hword : String.ofList (c :: u) = text := by rw [← htext, String.ofList_toList]
  rw [htext, List.cons_append, openingKind, if_pos hc, (Piece.span_append hu hrest).1, hword]

theorem openingKind_keyword (word : String) {k : Kind} (h : Kind.ofWord? word = some k)
    {rest : List Char} (hrest : Unworded rest) : openingKind (word.toList ++ rest) = k := by
  rw [openingKind_word (Kind.isWord_of_ofWord? h) hrest, Kind.ofWord, h]
  rfl

theorem openingKind_name {name : String} (h : IsName name) {rest : List Char}
    (hrest : Unworded rest) : openingKind (name.toList ++ rest) = .identifier := by
  rw [openingKind_word h.word hrest, Kind.ofWord, h.free]
  rfl

theorem openingKind_int {n : Int} (h : 0 ≤ n) (rest : List Char) :
    openingKind ((toString n).toList ++ rest) = .int := by
  obtain ⟨m, rfl⟩ := Int.eq_ofNat_of_zero_le h
  have hdigits : (Nat.repr m).toList.all Char.isDigit = true := all_isDigit_repr m
  show openingKind ((Nat.repr m).toList ++ rest) = .int
  cases hchars : (Nat.repr m).toList with
  | nil =>
      rw [Nat.toList_repr] at hchars
      exact absurd hchars Nat.toDigits_ne_nil
  | cons c u =>
      rw [hchars, List.all_cons, Bool.and_eq_true] at hdigits
      have hword : ¬isNameStart c = true := by
        rw [Piece.isNameStart_of_isDigit hdigits.1]
        decide
      rw [List.cons_append, openingKind, if_neg hword, if_pos hdigits.1]

/-! ## Expressions -/

/-- The kind of token that the text of an expression opens with. -/
def Expr.opening : Expr → Kind
  | .error _ | .float _ => .error
  | .ifElse _ _ _ => .kwIf
  | .whileLoop _ _ => .kwWhile
  | .forLoop _ _ _ => .kwFor
  | .block _ _ => .openCurly
  | .assign _ _ _ | .binary _ _ _ | .unary _ _ => .openParen
  | .call subject _ | .member subject _ | .index subject _ => subject.opening
  | .name _ => .identifier
  | .int _ => .int
  | .char _ => .char
  | .string _ => .string
  | .bool true => .kwTrue
  | .bool false => .kwFalse
  | .null => .kwNull

/-- The text of an expression may open with a token of this kind. An operation opens with its
    parenthesis, and never with its operator. -/
def Kind.opensText : Kind → Bool
  | .kwIf | .kwWhile | .kwFor | .openCurly | .openParen | .identifier | .int | .char | .string
  | .kwTrue | .kwFalse | .kwNull => true
  | _ => false

theorem Expr.Legible.opensText : ∀ {e : Expr}, e.Legible → e.opening.opensText = true
  | .error _, h => h.root.1.elim
  | .float _, h => h.root.2.elim
  | .call subject _, h => Expr.Legible.opensText (e := subject) (h.part (.head _))
  | .member subject _, h => Expr.Legible.opensText (e := subject) (h.part (.head _))
  | .index subject _, h => Expr.Legible.opensText (e := subject) (h.part (.head _))
  | .ifElse _ _ _, _ | .whileLoop _ _, _ | .forLoop _ _ _, _ | .block _ _, _ | .assign _ _ _, _
  | .binary _ _ _, _ | .unary _ _, _ | .name _, _ | .int _, _ | .char _, _ | .string _, _
  | .bool true, _ | .bool false, _ | .null, _ => rfl

/-- **The text of an expression opens** with a token of the kind that is said to. -/
theorem openingKind_expr : ∀ {e : Expr}, e.Legible → ∀ {rest : List Char}, Unworded rest →
    openingKind (e.text.toList ++ rest) = e.opening
  | .error _, h, _, _ => h.root.1.elim
  | .float _, h, _, _ => h.root.2.elim
  | .ifElse _ _ _, _, _, _ => by
      rw [toList_ifElse]
      exact openingKind_keyword "if" rfl (unworded_cons rfl _)
  | .whileLoop _ _, _, _, _ => by
      rw [toList_whileLoop]
      exact openingKind_keyword "while" rfl (unworded_cons rfl _)
  | .forLoop _ _ _, _, _, _ => by
      rw [toList_forLoop]
      exact openingKind_keyword "for" rfl (unworded_cons rfl _)
  | .block _ _, _, _, _ => by
      rw [toList_block]
      rfl
  | .assign _ _ _, _, _, _ => by
      rw [toList_assign]
      rfl
  | .binary _ _ _, _, _, _ => by
      rw [toList_binary]
      rfl
  | .unary _ _, _, _, _ => by
      rw [toList_unary]
      rfl
  | .call subject _, h, _, _ => by
      rw [toList_call]
      exact openingKind_expr (e := subject) (h.part (.head _)) (unworded_cons rfl _)
  | .member subject _, h, _, _ => by
      rw [toList_member]
      exact openingKind_expr (e := subject) (h.part (.head _)) (unworded_cons rfl _)
  | .index subject _, h, _, _ => by
      rw [toList_index]
      exact openingKind_expr (e := subject) (h.part (.head _)) (unworded_cons rfl _)
  | .name _, h, _, hrest => by
      rw [Expr.text]
      exact openingKind_name h.root.2 hrest
  | .int _, h, rest, _ => by
      rw [Expr.text]
      exact openingKind_int h.root.2 rest
  | .char _, _, _, _ => by
      rw [toList_char]
      rfl
  | .string _, _, _, _ => by
      rw [toList_string]
      rfl
  | .bool true, _, _, hrest => by
      rw [Expr.text]
      exact openingKind_keyword "true" rfl hrest
  | .bool false, _, _, hrest => by
      rw [Expr.text]
      exact openingKind_keyword "false" rfl hrest
  | .null, _, _, hrest => by
      rw [Expr.text]
      exact openingKind_keyword "null" rfl hrest

/-- No expression is shown where a text opens otherwise. -/
theorem Expr.Legible.text_ne {e : Expr} (he : e.Legible) {rest text : List Char}
    (hrest : Unworded rest) (htext : (openingKind text).opensText = false) :
    e.text.toList ++ rest ≠ text := by
  rintro rfl
  rw [openingKind_expr he hrest, he.opensText] at htext
  cases htext

/-! ## Statements -/

/-- The kind of token that the text of a statement opens with. -/
def Statement.opening : Statement → Kind
  | .error _ | .classDef _ _ _ => .error
  | .expr e => e.opening
  | .function _ => .kwFn
  | .letIn _ => .kwLet
  | .returning _ => .kwReturn
  | .breaking _ => .kwBreak
  | .continuing _ => .kwContinue

/-- The statement is a jump: a keyword of this kind, and a value behind it or none. -/
inductive Statement.IsJump : Statement → String → Kind → Option Expr → Prop where
  | returning {value} : IsJump (.returning value) "return" .kwReturn value
  | breaking {value} : IsJump (.breaking value) "break" .kwBreak value
  | continuing {value} : IsJump (.continuing value) "continue" .kwContinue value

namespace Statement.IsJump

variable {s s' : Statement} {word word' : String} {k : Kind} {value value' : Option Expr}

theorem toList (h : s.IsJump word k value) (rest : List Char) :
    s.text.toList ++ rest = word.toList ++ (optional " " Expr.text value ++ ';' :: rest) := by
  cases h <;> cases value <;> rw [Statement.text] <;> simp [optional]

theorem opening (h : s.IsJump word k value) : s.opening = k := by
  cases h <;> rfl

theorem keyword (h : s.IsJump word k value) : Kind.ofWord? word = some k := by
  cases h <;> rfl

theorem parts (h : s.IsJump word k value) :
    (Node.statement s).parts = value.toList.map Node.expr := by
  cases h <;> rfl

/-- The keyword tells which jump it is. -/
theorem unique (h : s.IsJump word k value) (h' : s'.IsJump word' k value') :
    word = word' ∧ (value = value' → s = s') := by
  cases h <;> cases h' <;> exact ⟨rfl, congrArg _⟩

/-- A jump opens with its keyword, whether a value stands behind it or not. -/
theorem openingKind (h : s.IsJump word k value) (rest : List Char) :
    openingKind (s.text.toList ++ rest) = s.opening := by
  rw [h.toList, h.opening]
  cases value <;> exact openingKind_keyword word h.keyword (unworded_cons rfl _)

end Statement.IsJump

/-- **The text of a statement opens** with a token of the kind that is said to. -/
theorem openingKind_statement {s : Statement} (h : s.Legible) (rest : List Char) :
    openingKind (s.text.toList ++ rest) = s.opening := by
  cases s with
  | error _ | classDef _ _ _ => exact h.root.1.elim
  | expr e =>
      have he : e.Legible := h.part (.head _)
      rw [toList_exprStatement]
      exact openingKind_expr he (unworded_cons rfl _)
  | function f =>
      obtain ⟨name, ps, result, body⟩ := f
      rw [Statement.text, toList_function]
      exact openingKind_keyword "fn" rfl (unworded_cons rfl _)
  | letIn p =>
      rw [toList_letIn]
      exact openingKind_keyword "let" rfl (unworded_cons rfl _)
  | returning => exact Statement.IsJump.returning.openingKind rest
  | breaking => exact Statement.IsJump.breaking.openingKind rest
  | continuing => exact Statement.IsJump.continuing.openingKind rest

/-- The statement is no expression, and its text opens with a token of this kind. -/
inductive Statement.OpensAs : Statement → Kind → Prop where
  | function {f} : OpensAs (.function f) .kwFn
  | letIn {p} : OpensAs (.letIn p) .kwLet
  | jump {s word k value} (h : IsJump s word k value) : OpensAs s k

/-- A statement is an expression with a semicolon, or opens with a keyword. -/
theorem Statement.Legible.expr_or {s : Statement} (h : s.Legible) :
    (∃ e, s = .expr e) ∨ s.OpensAs s.opening := by
  cases s with
  | error _ | classDef _ _ _ => exact h.root.1.elim
  | expr e => exact .inl ⟨e, rfl⟩
  | function => exact .inr .function
  | letIn => exact .inr .letIn
  | returning => exact .inr (.jump .returning)
  | breaking => exact .inr (.jump .breaking)
  | continuing => exact .inr (.jump .continuing)

/-- No text of an expression opens with the keyword of a statement. -/
theorem Statement.OpensAs.opensText {s : Statement} {k : Kind} (h : s.OpensAs k) :
    k.opensText = false := by
  cases h with
  | function | letIn => rfl
  | jump h => cases h <;> rfl

end ExprLang
