import ExprLang.Grammar.Reply
import ExprLang.Grammar.Table
import ExprLang.Literal
import ExprLang.Number.Numeral
import ExprLang.Tree.Basic
/-!
# `Grammar.Rule` — the rules of the grammar

Each kind of phrase has one rule, which says how it is read when a reader for the phrases inside it
is given. `Grammar.Derive` ties the knot.

Expressions are read by precedence climbing. An expression at power `least` is an operand and all
the operators after it that bind at least that tightly, where the operand on the right of an infix
operator is itself an expression, at the operator's right power.

## Contents
- `Phrase`: the kinds of phrase, each with the type of its tree.
- `Token.atom`: what a single token stands for.
- `Rule.typeName`, `Rule.pattern`: the phrases without phrases inside.
- The rule of every other phrase, and `Table.rule`, which has them all.
-/
namespace ExprLang

/-- The kinds of phrase. -/
inductive Phrase : Type → Type where
  /-- An expression whose operators all bind at least as tightly as `least`; whether it may be an
      assignment. -/
  | expr (least : Nat) (assignable : Bool) : Phrase Expr
  /-- The rest of such an expression, from behind its first operand on. -/
  | operators (least : Nat) (assignable : Bool) (left : Expr) : Phrase Expr
  | operand : Phrase Expr
  | operandForm (form : OperandForm) : Phrase Expr
  | postfixForm (form : PostfixForm) (subject : Expr) : Phrase Expr
  /-- The arguments of a call, up to its closing parenthesis. -/
  | arguments : Phrase (List Expr)
  /-- The inside of a block: its statements and its result. -/
  | body : Phrase (List Statement × Option Expr)
  | statement : Phrase Statement
  | statementForm (form : StatementForm) : Phrase Statement
  | parameter : Phrase Parameter
  /-- The parameters of a function, up to the closing parenthesis. -/
  | parameters : Phrase (List Parameter)
  /-- The statements up to the end of the input. -/
  | program : Phrase (List Statement)

/-- The expression that the token `t` stands for. -/
def Token.atom (t : Token) : Except Problem Expr :=
  match t.kind with
  | .identifier => .ok (.name t.value)
  | .int =>
    match Numeral.integer? t.value with
    | some n => .ok (.int n)
    | none => .error (.badNumber t.value)
  | .float =>
    match Numeral.binary64? t.value with
    | some x => .ok (.float x)
    | none => .error (.badNumber t.value)
  | .char =>
    match Literal.charValue? t.value with
    | some c => .ok (.char c)
    | none => .error .expectedValue
  | .string => .ok (.string (Literal.stringValue t.value))
  | .kwTrue => .ok (.bool true)
  | .kwFalse => .ok (.bool false)
  | .kwNull => .ok .null
  | _ => .error .expectedValue

namespace Rule

open Parse

/-! ## Phrases without phrases inside -/

/-- A type: a name. -/
def typeName : Parse TypeName := do
  let name ← expect .identifier "type"
  return .named name.value

/-- A pattern: a name. -/
def pattern : Parse Pattern := do
  let name ← expect .identifier "pattern"
  return .named name.value

/-- An operand of a single token. -/
def atom : Parse Expr := do
  match (← current).atom with
  | .ok e =>
    let _ ← advance
    return e
  | .error problem => reject problem

section

variable (t : Table) (read : {α : Type} → Phrase α → Parse α)

/-! ## Expressions -/

/-- An operand, and the operators after it. -/
def expr (least : Nat) (assignable : Bool) : Parse Expr := do
  let left ← read .operand
  read (.operators least assignable left)

/-- What the infix operator `operator` makes of its operands. An assignment that is not accepted is
    a problem with its operator. -/
def combine (assignable : Bool) (operator : Token) (left right : Expr) : Parse Expr :=
  match t.assignOperator operator.kind with
  | some o =>
    if assignable then pure (.assign o left right)
    else rejectAt .assignmentNotAllowed operator.position
  | none =>
    match t.binaryOperator operator.kind with
    | some o => pure (.binary o left right)
    | none => halt (.noOperator operator.kind)

/-- The operators after `left` that bind tightly enough: postfix forms, and infix operators with the
    operands on their right. -/
def operators (least : Nat) (assignable : Bool) (left : Expr) : Parse Expr := do
  let token ← current
  match t.postfixForm token.kind with
  | some (power, form) =>
    if power < least then return left
    let left ← read (.postfixForm form left)
    read (.operators least assignable left)
  | none =>
    match t.infixPowers token.kind with
    | none => return left
    | some powers =>
      if powers.left < least then return left
      let _ ← advance
      let right ← read (.expr powers.right assignable)
      let left ← combine t assignable token left right
      read (.operators least assignable left)

/-- A prefix operator and its operand, or an operand with a form of its own, or an atom. -/
def operand : Parse Expr := do
  let k ← kind
  match t.prefixOperator k with
  | some (power, operator) =>
    let _ ← advance
    let subject ← read (.expr power false)
    return .unary operator subject
  | none => read (.operandForm ((t.operandForm k).getD .atom))

/-- An expression between parentheses. -/
def grouping : Parse Expr := do
  let _ ← advance
  let e ← read (.expr 0 false)
  let _ ← expect .closeParen "')'"
  return e

/-- A conditional, with or without its second branch. -/
def ifElse : Parse Expr := do
  let _ ← advance
  let condition ← read (.expr 0 false)
  let truthy ← read (.operandForm .block)
  if (← kind) = .kwElse then
    let _ ← advance
    let falsy ← read (.operandForm .block)
    return .ifElse condition truthy (some falsy)
  else
    return .ifElse condition truthy none

/-- A loop with a condition. -/
def whileLoop : Parse Expr := do
  let _ ← advance
  let condition ← read (.expr 0 false)
  let body ← read (.operandForm .block)
  return .whileLoop condition body

/-- A loop over what `iterable` holds. -/
def forLoop : Parse Expr := do
  let _ ← advance
  let subject ← pattern
  let _ ← expect .kwIn "'in'"
  let iterable ← read (.expr 0 false)
  let body ← read (.operandForm .block)
  return .forLoop subject iterable body

/-- A block. -/
def block : Parse Expr := do
  let _ ← expect .openCurly "'\x7b'"
  let (statements, result) ← read .body
  let _ ← expect .closeCurly "'\x7d'"
  return .block statements result

/-- An operand with a form of its own. -/
def operandForm : OperandForm → Parse Expr
  | .grouping => grouping read
  | .ifElse => ifElse read
  | .whileLoop => whileLoop read
  | .forLoop => forLoop read
  | .block => block read
  | .atom => atom

/-- A member of `subject`. -/
def member (subject : Expr) : Parse Expr := do
  let _ ← advance
  let name ← expect .identifier "identifier"
  return .member subject name.value

/-- An element of `subject`. -/
def index (subject : Expr) : Parse Expr := do
  let _ ← advance
  let key ← read (.expr 0 false)
  let _ ← expect .closeBracket "']'"
  return .index subject key

/-- A call of `subject`. -/
def call (subject : Expr) : Parse Expr := do
  let _ ← advance
  let arguments ← read .arguments
  let _ ← expect .closeParen "')'"
  return .call subject arguments

/-- An expression that goes on behind `subject`. -/
def postfixForm (form : PostfixForm) (subject : Expr) : Parse Expr :=
  match form with
  | .member => member subject
  | .index => index read subject
  | .call => call read subject

/-- Expressions separated by commas. A comma may stand behind the last one. -/
def arguments : Parse (List Expr) := do
  if (← kind) = .closeParen then return []
  let first ← read (.expr 0 false)
  if (← kind) = .comma then
    let _ ← advance
    let more ← read .arguments
    return first :: more
  else
    return [first]

/-! ## Statements -/

/-- Statements up to the end of the block. An expression directly before that end is the result of
    the block; every other expression needs a semicolon. -/
def body : Parse (List Statement × Option Expr) := do
  let k ← kind
  if k = .closeCurly ∨ k = .eof then return ([], none)
  match t.statementForm k with
  | some form =>
    let first ← read (.statementForm form)
    let (more, result) ← read .body
    return (first :: more, result)
  | none =>
    let e ← read (.expr 0 true)
    match ← kind with
    | .semicolon =>
      let _ ← advance
      let (more, result) ← read .body
      return (.expr e :: more, result)
    | .closeCurly => return ([], some e)
    | _ => reject (.expected "';' or '\x7d'")

/-- A statement: one with a form of its own, or an expression with a semicolon. -/
def statement : Parse Statement := do
  match t.statementForm (← kind) with
  | some form => read (.statementForm form)
  | none =>
    let e ← read (.expr 0 true)
    let _ ← expect .semicolon "';'"
    return .expr e

/-- The value of a jump, which may be missing, and the semicolon behind it. -/
def jumpValue : Parse (Option Expr) := do
  let _ ← advance
  let k ← kind
  if k = .semicolon ∨ k = .closeCurly then
    let _ ← expect .semicolon "';'"
    return none
  else
    let value ← read (.expr 0 false)
    let _ ← expect .semicolon "';'"
    return some value

/-- A function, with or without the type of its result. -/
def function : Parse Statement := do
  let _ ← advance
  let name ← expect .identifier "identifier"
  let _ ← expect .openParen "'('"
  let parameters ← read .parameters
  let _ ← expect .closeParen "')'"
  if (← kind) = .arrow then
    let _ ← advance
    let result ← typeName
    let body ← read (.operandForm .block)
    return .function ⟨name.value, parameters, some result, body⟩
  else
    let body ← read (.operandForm .block)
    return .function ⟨name.value, parameters, none, body⟩

/-- A binding. -/
def letIn : Parse Statement := do
  let _ ← advance
  let parameter ← read .parameter
  let _ ← expect .semicolon "';'"
  return .letIn parameter

/-- A statement with a form of its own. Classes are reserved, but have no rule yet. -/
def statementForm : StatementForm → Parse Statement
  | .classDef => reject (.notImplemented "class")
  | .function => function read
  | .letIn => letIn read
  | .returning => do return .returning (← jumpValue read)
  | .breaking => do return .breaking (← jumpValue read)
  | .continuing => do return .continuing (← jumpValue read)
  | .any => read .statement

/-- The value that a parameter has if it is given none. -/
def defaultValue : Parse (Option Expr) := do
  if (← kind) = .assignment then
    let _ ← advance
    let value ← read (.expr 0 false)
    return some value
  else
    return none

/-- A pattern, its type and its value; the last two may be missing. -/
def parameter : Parse Parameter := do
  let subject ← pattern
  if (← kind) = .colon then
    let _ ← advance
    let type ← typeName
    let value ← defaultValue read
    return ⟨subject, some type, value⟩
  else
    let value ← defaultValue read
    return ⟨subject, none, value⟩

/-- Parameters separated by commas. A comma may stand behind the last one. -/
def parameters : Parse (List Parameter) := do
  if (← kind) = .closeParen then return []
  let first ← read .parameter
  if (← kind) = .comma then
    let _ ← advance
    let more ← read .parameters
    return first :: more
  else
    return [first]

/-- Statements up to the end of the input. -/
def program : Parse (List Statement) := do
  if (← kind) = .eof then return []
  let first ← read .statement
  let more ← read .program
  return first :: more

end

end Rule

/-- The rule of every phrase, by the table `t` and a reader for the phrases inside. -/
def Table.rule (t : Table) (read : {α : Type} → Phrase α → Parse α) {α : Type} :
    Phrase α → Parse α
  | .expr least assignable => Rule.expr read least assignable
  | .operators least assignable left => Rule.operators t read least assignable left
  | .operand => Rule.operand t read
  | .operandForm form => Rule.operandForm read form
  | .postfixForm form subject => Rule.postfixForm read form subject
  | .arguments => Rule.arguments read
  | .body => Rule.body t read
  | .statement => Rule.statement t read
  | .statementForm form => Rule.statementForm read form
  | .parameter => Rule.parameter read
  | .parameters => Rule.parameters read
  | .program => Rule.program read

end ExprLang
