import ExprLang.Token.Basic
import ExprLang.Tree.Operator
/-!
# `Grammar.Table` — which tokens mean what to the grammar

How tightly operators bind is not built into the grammar: a table gives each kind of token its
operator and its binding powers, and may be extended.

## Contents
- `OperandForm`, `PostfixForm`, `StatementForm`: the constructs with rules of their own.
- `Table`: what each kind of token starts or joins.
- `Registration`, `Table.register`: entries added to a table.
- `standard`: the table of the language.
-/
namespace ExprLang

/-- How an operand is read. -/
inductive OperandForm where
  | grouping | ifElse | whileLoop | forLoop | block
  /-- A single token. -/
  | atom
  deriving DecidableEq, Repr

/-- How an expression goes on behind its subject. -/
inductive PostfixForm where
  | member | index | call
  deriving DecidableEq, Repr

/-- How a statement is read. -/
inductive StatementForm where
  | classDef | function | letIn | returning | breaking | continuing
  /-- Whatever the table has for the current token, and else an expression. -/
  | any
  deriving DecidableEq, Repr

/-- The binding powers of an infix operator. Higher powers bind tighter. The operand on the right
    takes operators of at least the right power, so an operator with a right power above its left
    one associates to the left, and every other operator to the right. -/
structure InfixPowers where
  left : Nat
  right : Nat
  deriving DecidableEq, Repr

/-- What each kind of token means. An infix operator builds an assignment if it has an assignment
    operator, and else a binary expression. -/
structure Table where
  statementForm : Kind → Option StatementForm
  operandForm : Kind → Option OperandForm
  /-- A postfix form and its binding power. -/
  postfixForm : Kind → Option (Nat × PostfixForm)
  /-- A prefix operator and the power that its operand is read at. -/
  prefixOperator : Kind → Option (Nat × UnaryOperator)
  infixPowers : Kind → Option InfixPowers
  binaryOperator : Kind → Option BinaryOperator
  assignOperator : Kind → Option AssignOperator

/-- All assignments bind alike, and associate to the right. -/
def assignmentPowers : InfixPowers := ⟨4, 3⟩

/-- An entry to be made in a table. -/
inductive Registration where
  | statementForm (kind : Kind) (form : StatementForm)
  | operandForm (kind : Kind) (form : OperandForm)
  | postfixForm (kind : Kind) (power : Nat) (form : PostfixForm)
  | prefixOperator (kind : Kind) (power : Nat) (operator : UnaryOperator)
  | binaryOperator (kind : Kind) (powers : InfixPowers) (operator : BinaryOperator)
  | assignOperator (kind : Kind) (operator : AssignOperator)
  deriving DecidableEq, Repr

namespace Table

/-- The table `f` with the entry `v` at `kind`. -/
def enter {α : Type} (f : Kind → Option α) (kind : Kind) (v : α) : Kind → Option α :=
  fun k => if k = kind then some v else f k

@[simp] theorem enter_self {α : Type} (f : Kind → Option α) (kind : Kind) (v : α) :
    enter f kind v kind = some v := by simp [enter]

theorem enter_of_ne {α : Type} (f : Kind → Option α) {kind k : Kind} (v : α) (h : k ≠ kind) :
    enter f kind v k = f k := by simp [enter, h]

/-- Makes an entry in place of the one that was there. A binary operator and an assignment operator
    also enter their binding powers, and leave each other's entry as it is. -/
def register (t : Table) : Registration → Table
  | .statementForm kind form => { t with statementForm := enter t.statementForm kind form }
  | .operandForm kind form => { t with operandForm := enter t.operandForm kind form }
  | .postfixForm kind power form =>
    { t with postfixForm := enter t.postfixForm kind (power, form) }
  | .prefixOperator kind power operator =>
    { t with prefixOperator := enter t.prefixOperator kind (power, operator) }
  | .binaryOperator kind powers operator =>
    { t with
      infixPowers := enter t.infixPowers kind powers
      binaryOperator := enter t.binaryOperator kind operator }
  | .assignOperator kind operator =>
    { t with
      infixPowers := enter t.infixPowers kind assignmentPowers
      assignOperator := enter t.assignOperator kind operator }

/-- Makes entries one after the other. -/
def registerAll (t : Table) (entries : List Registration) : Table := entries.foldl register t

end Table

/-- The table of the language. From loose to tight: assignment; `or`; `and`; equality; comparison
    and `in`; addition; multiplication; power; prefix operators; postfix forms. Assignment and power
    associate to the right, the others to the left. -/
def standard : Table where
  statementForm
    | .kwClass => some .classDef
    | .kwFn => some .function
    | .kwLet => some .letIn
    | .kwReturn => some .returning
    | .kwBreak => some .breaking
    | .kwContinue => some .continuing
    | _ => none
  operandForm
    | .openParen => some .grouping
    | .kwIf => some .ifElse
    | .kwWhile => some .whileLoop
    | .kwFor => some .forLoop
    | .openCurly => some .block
    | _ => none
  postfixForm
    | .dot => some (33, .member)
    | .openBracket => some (33, .index)
    | .openParen => some (33, .call)
    | _ => none
  prefixOperator
    | .kwNot => some (27, .not)
    | .dash => some (27, .negate)
    | _ => none
  infixPowers
    | .assignment | .plusEquals | .minusEquals | .starEquals | .slashEquals | .percentEquals =>
      some assignmentPowers
    | .kwOr => some ⟨5, 6⟩
    | .kwAnd => some ⟨7, 8⟩
    | .equals | .notEquals => some ⟨15, 16⟩
    | .less | .lessEquals | .greater | .greaterEquals | .kwIn => some ⟨17, 18⟩
    | .plus | .dash => some ⟨21, 22⟩
    | .star | .slash | .percent => some ⟨23, 24⟩
    | .starStar => some ⟨26, 25⟩
    | _ => none
  binaryOperator
    | .kwOr => some .or
    | .kwAnd => some .and
    | .equals => some .equal
    | .notEquals => some .notEqual
    | .less => some .less
    | .lessEquals => some .lessEqual
    | .greater => some .greater
    | .greaterEquals => some .greaterEqual
    | .kwIn => some .isIn
    | .plus => some .add
    | .dash => some .subtract
    | .star => some .multiply
    | .slash => some .divide
    | .percent => some .modulus
    | .starStar => some .power
    | _ => none
  assignOperator
    | .assignment => some .assign
    | .plusEquals => some .add
    | .minusEquals => some .subtract
    | .starEquals => some .multiply
    | .slashEquals => some .divide
    | .percentEquals => some .modulus
    | _ => none

end ExprLang
