import ExprLang.Source.Position
/-!
# `Token.Basic` — tokens and their kinds

## Contents
- `Kind`: one constructor for each kind. The kinds of reserved words begin with `kw`.
- `Kind.name`, `Kind.all`, `Kind.ofName?`: the names that kinds are shown under.
- `Token`, shown as `Kind(value)`.
- `Token.endOfInput`: the token that ends every stream.
-/
namespace ExprLang

/-! ## Kinds -/

/-- What a token is. `eof` stands at the end of the input, and `error` for a malformed piece of
    it. -/
inductive Kind where
  | eof | error
  | identifier | int | float | char | string
  | openParen | closeParen | openCurly | closeCurly | openBracket | closeBracket
  | assignment | equals | notEquals | less | lessEquals | greater | greaterEquals
  | dot | comma | colon | semicolon | arrow | ampersand
  | plusEquals | minusEquals | starEquals | slashEquals | percentEquals
  | plus | dash | star | starStar | slash | percent
  | kwNull | kwFalse | kwTrue | kwIf | kwElse | kwWhile | kwFor | kwBreak | kwContinue | kwFn
  | kwReturn | kwLet | kwMut | kwClass | kwNew | kwPub | kwNot | kwAnd | kwOr | kwIn
  deriving DecidableEq, Repr

namespace Kind

/-- The name that a kind is shown under. -/
def name : Kind → String
  | .eof => "EOF"
  | .error => "Error"
  | .identifier => "Identifier"
  | .int => "Int"
  | .float => "Float"
  | .char => "Char"
  | .string => "String"
  | .openParen => "OpenParen"
  | .closeParen => "CloseParen"
  | .openCurly => "OpenCurly"
  | .closeCurly => "CloseCurly"
  | .openBracket => "OpenBracket"
  | .closeBracket => "CloseBracket"
  | .assignment => "Assignment"
  | .equals => "Equals"
  | .notEquals => "NotEquals"
  | .less => "Less"
  | .lessEquals => "LessEquals"
  | .greater => "Greater"
  | .greaterEquals => "GreaterEquals"
  | .dot => "Dot"
  | .comma => "Comma"
  | .colon => "Colon"
  | .semicolon => "Semicolon"
  | .arrow => "Arrow"
  | .ampersand => "Ampersand"
  | .plusEquals => "PlusEquals"
  | .minusEquals => "MinusEquals"
  | .starEquals => "StarEquals"
  | .slashEquals => "SlashEquals"
  | .percentEquals => "PercentEquals"
  | .plus => "Plus"
  | .dash => "Dash"
  | .star => "Star"
  | .starStar => "StarStar"
  | .slash => "Slash"
  | .percent => "Percent"
  | .kwNull => "Null"
  | .kwFalse => "False"
  | .kwTrue => "True"
  | .kwIf => "If"
  | .kwElse => "Else"
  | .kwWhile => "While"
  | .kwFor => "For"
  | .kwBreak => "Break"
  | .kwContinue => "Continue"
  | .kwFn => "Fn"
  | .kwReturn => "Return"
  | .kwLet => "Let"
  | .kwMut => "Mut"
  | .kwClass => "Class"
  | .kwNew => "New"
  | .kwPub => "Pub"
  | .kwNot => "Not"
  | .kwAnd => "And"
  | .kwOr => "Or"
  | .kwIn => "In"

/-- Every kind, once. -/
def all : List Kind :=
  [.eof, .error,
   .identifier, .int, .float, .char, .string,
   .openParen, .closeParen, .openCurly, .closeCurly, .openBracket, .closeBracket,
   .assignment, .equals, .notEquals, .less, .lessEquals, .greater, .greaterEquals,
   .dot, .comma, .colon, .semicolon, .arrow, .ampersand,
   .plusEquals, .minusEquals, .starEquals, .slashEquals, .percentEquals,
   .plus, .dash, .star, .starStar, .slash, .percent,
   .kwNull, .kwFalse, .kwTrue, .kwIf, .kwElse, .kwWhile, .kwFor, .kwBreak, .kwContinue, .kwFn,
   .kwReturn, .kwLet, .kwMut, .kwClass, .kwNew, .kwPub, .kwNot, .kwAnd, .kwOr, .kwIn]

/-- The kind that is shown as `text`. -/
def ofName? (text : String) : Option Kind := all.find? (·.name = text)

instance : ToString Kind := ⟨name⟩

end Kind

/-! ## Tokens -/

/-- A token. Its value is the text it was read from, or the message when it stands for malformed
    text; its position is where that text starts. -/
structure Token where
  kind : Kind
  value : String
  position : Position
  deriving DecidableEq, Repr

namespace Token

instance : ToString Token := ⟨fun t => t.kind.name ++ "(" ++ t.value ++ ")"⟩

/-- The end of the input, at `p`. -/
def endOfInput (p : Position) : Token := ⟨.eof, "", p⟩

/-- The token has the kind `k`. -/
def is (t : Token) (k : Kind) : Bool := t.kind = k

/-- The token has one of the kinds `ks`. -/
def isOneOf (t : Token) (ks : List Kind) : Bool := t.kind ∈ ks

end Token
end ExprLang
