import ExprLang.Number.Layout
import ExprLang.Text.Escape
import ExprLang.Tree.Basic
/-!
# `Tree.Text` — trees as text

Every operation but a postfix form stands in parentheses, so that the text shows how the tree is
built. A diagnostic is shown by its own text.

## Contents
- `floatStyle`, `quoted`: numbers and literals.
- `Expr.text`, `Statement.text`, `Parameter.text`, `FunctionDef.text`, and the texts of lists of
  them.
-/
namespace ExprLang

/-- Floats from 0.0001 up to 10 ^ 16 are written without an exponent. -/
def floatStyle : NumberStyle := ⟨-4, 15⟩

/-- A literal: escaped characters between two quotes. -/
def quoted (quote : Char) (body : List Char) : String := String.ofList (quote :: body ++ [quote])

/-- A type annotation. -/
def TypeName.text : TypeName → String
  | .error d => toString d
  | .named name => name

/-- A pattern. -/
def Pattern.text : Pattern → String
  | .error d => toString d
  | .named name => name

mutual

/-- An expression. -/
def Expr.text : Expr → String
  | .error d => toString d
  | .ifElse condition truthy none => "if " ++ condition.text ++ " " ++ truthy.text
  | .ifElse condition truthy (some falsy) =>
    "if " ++ condition.text ++ " " ++ truthy.text ++ " else " ++ falsy.text
  | .whileLoop condition body => "while " ++ condition.text ++ " " ++ body.text
  | .forLoop subject iterable body =>
    "for " ++ subject.text ++ " in " ++ iterable.text ++ " " ++ body.text
  | .block statements none => "\x7b" ++ bodyText statements ++ " \x7d"
  | .block statements (some result) =>
    "\x7b" ++ bodyText statements ++ " " ++ result.text ++ " \x7d"
  | .assign operator subject value =>
    "(" ++ subject.text ++ " " ++ operator.symbol ++ " " ++ value.text ++ ")"
  | .binary operator left right =>
    "(" ++ left.text ++ " " ++ operator.symbol ++ " " ++ right.text ++ ")"
  | .unary operator subject => "(" ++ operator.symbol ++ " " ++ subject.text ++ ")"
  | .call subject arguments => subject.text ++ "(" ++ argumentsText arguments ++ ")"
  | .member subject name => subject.text ++ "." ++ name
  | .index subject key => subject.text ++ "[" ++ key.text ++ "]"
  | .name name => name
  | .int value => toString value
  | .float value => value.text floatStyle
  | .char value => quoted '\'' (Text.escape true value)
  | .string value => quoted '"' (Text.escapeAll value.toList)
  | .bool true => "true"
  | .bool false => "false"
  | .null => "null"

/-- Arguments, separated by commas. -/
def argumentsText : List Expr → String
  | [] => ""
  | [e] => e.text
  | e :: more => e.text ++ ", " ++ argumentsText more

/-- The statements of a block, each after a space. -/
def bodyText : List Statement → String
  | [] => ""
  | s :: more => " " ++ s.text ++ bodyText more

/-- A statement. -/
def Statement.text : Statement → String
  | .error d => toString d
  | .expr e => e.text ++ ";"
  | .classDef name fields methods =>
    "class " ++ name ++ " \x7b" ++ fieldsText fields ++ methodsText methods ++ " \x7d"
  | .function f => f.text
  | .letIn p => "let " ++ p.text ++ ";"
  | .returning none => "return;"
  | .returning (some value) => "return " ++ value.text ++ ";"
  | .breaking none => "break;"
  | .breaking (some value) => "break " ++ value.text ++ ";"
  | .continuing none => "continue;"
  | .continuing (some value) => "continue " ++ value.text ++ ";"

/-- A parameter. -/
def Parameter.text : Parameter → String
  | ⟨subject, none, none⟩ => subject.text
  | ⟨subject, some type, none⟩ => subject.text ++ ": " ++ type.text
  | ⟨subject, none, some value⟩ => subject.text ++ " = " ++ value.text
  | ⟨subject, some type, some value⟩ => subject.text ++ ": " ++ type.text ++ " = " ++ value.text

/-- Parameters, separated by commas. -/
def parametersText : List Parameter → String
  | [] => ""
  | [p] => p.text
  | p :: more => p.text ++ ", " ++ parametersText more

/-- The fields of a class, each after a space. -/
def fieldsText : List Parameter → String
  | [] => ""
  | p :: more => " " ++ p.text ++ ";" ++ fieldsText more

/-- The methods of a class, each after a space. -/
def methodsText : List FunctionDef → String
  | [] => ""
  | f :: more => " " ++ f.text ++ methodsText more

/-- A function. -/
def FunctionDef.text : FunctionDef → String
  | ⟨name, parameters, none, body⟩ =>
    "fn " ++ name ++ "(" ++ parametersText parameters ++ ") " ++ body.text
  | ⟨name, parameters, some result, body⟩ =>
    "fn " ++ name ++ "(" ++ parametersText parameters ++ ") -> " ++ result.text ++ " " ++ body.text

end

/-- The statements of a program, one after a line feed after the other. -/
def programText (statements : List Statement) : String :=
  "\n".intercalate (statements.map Statement.text)

instance : ToString Expr := ⟨Expr.text⟩

instance : ToString Statement := ⟨Statement.text⟩

end ExprLang
