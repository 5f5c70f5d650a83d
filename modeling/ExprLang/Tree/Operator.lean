/-!
# `Tree.Operator` — operators and their symbols

## Contents
- `BinaryOperator`, `AssignOperator`, `UnaryOperator`, each with its `symbol`.
-/
namespace ExprLang

/-- The operators between two operands. -/
inductive BinaryOperator where
  | power
  | multiply | divide | modulus
  | add | subtract
  | less | lessEqual | greater | greaterEqual | isIn
  | equal | notEqual
  | and
  | or
  deriving DecidableEq, Repr

/-- The symbol of a binary operator. -/
def BinaryOperator.symbol : BinaryOperator → String
  | power => "**"
  | multiply => "*"
  | divide => "/"
  | modulus => "%"
  | add => "+"
  | subtract => "-"
  | less => "<"
  | lessEqual => "<="
  | greater => ">"
  | greaterEqual => ">="
  | isIn => "in"
  | equal => "=="
  | notEqual => "!="
  | and => "and"
  | or => "or"

/-- Plain assignment, and the assignments that first combine the old value with the new one. -/
inductive AssignOperator where
  | assign
  | add | subtract
  | multiply | divide | modulus
  deriving DecidableEq, Repr

/-- The symbol of an assignment operator. -/
def AssignOperator.symbol : AssignOperator → String
  | assign => "="
  | add => "+="
  | subtract => "-="
  | multiply => "*="
  | divide => "/="
  | modulus => "%="

/-- The operators before a single operand. -/
inductive UnaryOperator where
  | not | negate
  deriving DecidableEq, Repr

/-- The symbol of a unary operator. -/
def UnaryOperator.symbol : UnaryOperator → String
  | not => "not"
  | negate => "-"

end ExprLang
