import ExprLang.Grammar.Rule
import ExprLang.Token.Scan
/-!
# `Grammar.Derive` — trees from tokens

The rules of the grammar are applied down to a bounded depth. Every phrase takes a token off the
stream after a few rules at most, so a bound in proportion to the number of tokens is enough; a
table whose rules would run on without taking a token ends at the bound.

## Contents
- `Table.derive`: a phrase, down to a given depth.
- `Table.read`: a phrase, down to a depth that is enough for the stream.
- `Table.readExpression`, `Table.readStatements`, `readType`, `readPattern`: readers that put a
  diagnostic into the tree.
- `parseProgram`, `parseExpression`: the trees of a source text.
-/
namespace ExprLang

/-- Reads a phrase with rules nested at most `depth` deep. -/
def Table.derive (t : Table) (depth : Nat) : {α : Type} → Phrase α → Parse α :=
  match depth with
  | 0 => fun _ => Parse.halt .outOfFuel
  | depth + 1 => t.rule (t.derive depth)

@[simp] theorem Table.derive_zero (t : Table) {α : Type} (phrase : Phrase α) (s : TokenStream) :
    t.derive 0 phrase s = .halt .outOfFuel := rfl

theorem Table.derive_succ (t : Table) (depth : Nat) {α : Type} (phrase : Phrase α) :
    t.derive (depth + 1) phrase = t.rule (t.derive depth) phrase := rfl

/-- A depth that is enough for so many tokens. -/
def depthFor (tokens : Nat) : Nat := 8 * (tokens + 2)

/-- Reads a phrase. -/
def Table.read (t : Table) {α : Type} (phrase : Phrase α) : Parse α :=
  fun s => t.derive (depthFor s.remaining) phrase s

/-! ## Readers that put a diagnostic into the tree -/

/-- Reads an expression, and says whether it may be an assignment. -/
def Table.readExpression (t : Table) (assignable : Bool) : Parse Expr :=
  (t.read (.expr 0 assignable)).recover .error

/-- Reads statements up to the end of the input. A diagnostic takes the place of all of them. -/
def Table.readStatements (t : Table) : Parse (List Statement) :=
  (t.read .program).recover fun d => [.error d]

/-- Reads a type. -/
def readType : Parse TypeName := Rule.typeName.recover .error

/-- Reads a pattern. -/
def readPattern : Parse Pattern := Rule.pattern.recover .error

/-! ## Source texts -/

/-- Reads an expression that takes up all of the input. -/
def Table.soleExpression (t : Table) (assignable : Bool) : Parse Expr := do
  let e ← t.read (.expr 0 assignable)
  if (← Parse.kind) = .eof then return e
  Parse.reject (.expected "end of input")

/-- The statements of a program, or one statement for the first problem with it. -/
def parseProgram (source : String) : Except Halt (List Statement) :=
  (standard.read .program (.ofSource source)).result fun d => [.error d]

/-- The expression that `source` is, or one for the first problem with it. -/
def parseExpression (source : String) (assignable : Bool) : Except Halt Expr :=
  (standard.soleExpression assignable (.ofSource source)).result .error

end ExprLang
