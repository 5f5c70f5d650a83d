import ExprLang.Token.Lexeme
import ExprLang.Tree.Text

/-!
# `Proofs.Printing.Canonical` — trees whose text says everything about them

A tree is canonical if it is one that a reader could have built and if its text leaves nothing out:
no node stands for a diagnostic, names are identifiers, branches and bodies are blocks, and literals
are written without the escapes that the language does not have. Floats, classes and assignments
are left aside, since their texts are not read back as they were.

## Contents
- `IsName`: the names of a source text.
- `Shown`, `ShownAll`: characters that are not escaped by their code point.
- `Expr.IsBlock`, `Expr.IsInt`: the two forms of expression that a context asks for.
- `Expr.Canonical`, `Statement.Canonical`, and the same for the trees and lists inside them.
-/

namespace ExprLang

/-- The text is a word of the language. -/
def IsWord (text : String) : Prop :=
  ∃ c u, text.toList = c :: u ∧ isNameStart c = true ∧ u.all isNamePart = true

/-- The text is a word, and not a reserved one. -/
structure IsName (text : String) : Prop where
  word : IsWord text
  free : Kind.ofWord? text = none

/-- The character is escaped neither as the null character nor by its code point. -/
def Shown (alone : Bool) (c : Char) : Prop :=
  Text.escape alone c ≠ ['\\', '0'] ∧ Text.escape alone c ≠ Text.codePoint c

/-- No character of the string is escaped as the null character or by its code point. -/
def ShownAll : List Char → Prop
  | [] => True
  | c :: rest => Shown true c ∧ ∀ d ∈ rest, Shown false d

/-- A pattern that is a name. -/
def Pattern.Canonical : Pattern → Prop
  | .error _ => False
  | .named name => IsName name

/-- A type that is a name. -/
def TypeName.Canonical : TypeName → Prop
  | .error _ => False
  | .named name => IsName name

/-- The expression is a block. -/
def Expr.IsBlock (e : Expr) : Prop := ∃ statements result, e = .block statements result

/-- The expression is an integer, which takes a point behind it along. -/
def Expr.IsInt (e : Expr) : Prop := ∃ value, e = .int value

mutual

/-- A canonical expression. -/
def Expr.Canonical : Expr → Prop
  | .error _ | .assign _ _ _ | .float _ => False
  | .ifElse condition truthy none => condition.Canonical ∧ truthy.IsBlock ∧ truthy.Canonical
  | .ifElse condition truthy (some falsy) =>
    condition.Canonical ∧ (truthy.IsBlock ∧ truthy.Canonical) ∧ falsy.IsBlock ∧ falsy.Canonical
  | .whileLoop condition body => condition.Canonical ∧ body.IsBlock ∧ body.Canonical
  | .forLoop subject iterable body =>
    subject.Canonical ∧ iterable.Canonical ∧ body.IsBlock ∧ body.Canonical
  | .block statements none => bodyCanonical statements
  | .block statements (some result) => bodyCanonical statements ∧ result.Canonical
  | .binary _ left right => left.Canonical ∧ right.Canonical
  | .unary _ subject => subject.Canonical
  | .call subject arguments => subject.Canonical ∧ argumentsCanonical arguments
  | .member subject name => subject.Canonical ∧ ¬subject.IsInt ∧ IsName name
  | .index subject key => subject.Canonical ∧ key.Canonical
  | .name name => IsName name
  | .int value => 0 ≤ value ∧ value ≤ 9223372036854775807
  | .char value => Shown true value
  | .string value => ShownAll value.toList
  | .bool _ | .null => True

/-- Canonical arguments. -/
def argumentsCanonical : List Expr → Prop
  | [] => True
  | e :: more => e.Canonical ∧ argumentsCanonical more

/-- The canonical statements of a block. -/
def bodyCanonical : List Statement → Prop
  | [] => True
  | s :: more => s.Canonical ∧ bodyCanonical more

/-- A canonical statement. -/
def Statement.Canonical : Statement → Prop
  | .error _ | .classDef _ _ _ => False
  | .expr e => e.Canonical
  | .function f => f.Canonical
  | .letIn p => p.Canonical
  | .returning none | .breaking none | .continuing none => True
  | .returning (some value) | .breaking (some value) | .continuing (some value) => value.Canonical

/-- A canonical parameter. -/
def Parameter.Canonical : Parameter → Prop
  | ⟨subject, type, none⟩ => subject.Canonical ∧ ∀ t ∈ type, t.Canonical
  | ⟨subject, type, some value⟩ =>
    (subject.Canonical ∧ ∀ t ∈ type, t.Canonical) ∧ value.Canonical

/-- Canonical parameters. -/
def parametersCanonical : List Parameter → Prop
  | [] => True
  | p :: more => p.Canonical ∧ parametersCanonical more

/-- A canonical function, whose body is a block. -/
def FunctionDef.Canonical : FunctionDef → Prop
  | ⟨name, parameters, result, body⟩ =>
    IsName name ∧ parametersCanonical parameters ∧ (∀ t ∈ result, t.Canonical) ∧
      body.IsBlock ∧ body.Canonical

end

end ExprLang
