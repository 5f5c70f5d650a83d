import ExprLang.Diagnostic.Basic
import ExprLang.Number.Binary64
import ExprLang.Tree.Operator
/-!
# `Tree.Basic` — syntax trees

Every construct is an expression except the few that may stand only where a statement does. Each
family of trees has a node for a diagnostic, which takes the place of a tree that could not be read.

## Contents
- `TypeName` and `Pattern`, which are plain names so far.
- `Expr`, `Statement`, `Parameter`, `FunctionDef`.
- `Expr.diagnostic?`, `Statement.diagnostic?`, and `isError` of every family.
-/
namespace ExprLang

/-- A type annotation, such as the `int` of `let a: int;`. -/
inductive TypeName where
  | error (diagnostic : Diagnostic)
  | named (name : String)
  deriving DecidableEq, Repr

/-- What a `let`, a parameter or a `for` binds. -/
inductive Pattern where
  | error (diagnostic : Diagnostic)
  | named (name : String)
  deriving DecidableEq, Repr

mutual

/-- Expressions. The branches of a conditional and the bodies of loops are blocks. -/
inductive Expr where
  | error (diagnostic : Diagnostic)
  | ifElse (condition truthy : Expr) (falsy : Option Expr)
  | whileLoop (condition body : Expr)
  | forLoop (subject : Pattern) (iterable body : Expr)
  /-- Statements, and the expression that the block stands for, if it ends with one. -/
  | block (statements : List Statement) (result : Option Expr)
  | assign (operator : AssignOperator) (subject value : Expr)
  | binary (operator : BinaryOperator) (left right : Expr)
  | unary (operator : UnaryOperator) (subject : Expr)
  | call (subject : Expr) (arguments : List Expr)
  | member (subject : Expr) (name : String)
  | index (subject key : Expr)
  | name (name : String)
  | int (value : Int)
  | float (value : Binary64)
  | char (value : Char)
  | string (value : String)
  | bool (value : Bool)
  | null

/-- What stands in a block, or at the top of a program. -/
inductive Statement where
  | error (diagnostic : Diagnostic)
  | expr (expr : Expr)
  | classDef (name : String) (fields : List Parameter) (methods : List FunctionDef)
  | function (function : FunctionDef)
  | letIn (parameter : Parameter)
  | returning (value : Option Expr)
  | breaking (value : Option Expr)
  | continuing (value : Option Expr)

/-- `subject [: type] [= value]`, in a `let` and among the parameters of a function. -/
structure Parameter where
  subject : Pattern
  type : Option TypeName
  value : Option Expr

/-- `fn name(parameters) [-> result] body`, where the body is a block. -/
structure FunctionDef where
  name : String
  parameters : List Parameter
  result : Option TypeName
  body : Expr

end

instance : Inhabited Expr := ⟨.null⟩

/-! ## Trees that stand for a diagnostic -/

/-- The diagnostic that `e` stands for. -/
def Expr.diagnostic? : Expr → Option Diagnostic
  | .error d => some d
  | _ => none

def Expr.isError (e : Expr) : Bool := e.diagnostic?.isSome

/-- The diagnostic that `s` stands for. -/
def Statement.diagnostic? : Statement → Option Diagnostic
  | .error d => some d
  | _ => none

def Statement.isError (s : Statement) : Bool := s.diagnostic?.isSome

def TypeName.isError : TypeName → Bool
  | .error _ => true
  | .named _ => false

def Pattern.isError : Pattern → Bool
  | .error _ => true
  | .named _ => false

end ExprLang
