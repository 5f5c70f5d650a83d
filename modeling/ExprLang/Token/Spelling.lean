import ExprLang.Token.Basic
/-!
# `Token.Spelling` — what symbols and reserved words are written as

## Contents
- `Kind.ofWord?`, `Kind.ofWord`: reserved words; every other word is an identifier.
- `Kind.ofChar?`, `Kind.ofPair?`: the symbols of one character and of two.
-/
namespace ExprLang.Kind

/-- The kind of a reserved word. -/
def ofWord? : String → Option Kind
  | "if" => some .kwIf
  | "while" => some .kwWhile
  | "break" => some .kwBreak
  | "fn" => some .kwFn
  | "for" => some .kwFor
  | "else" => some .kwElse
  | "continue" => some .kwContinue
  | "and" => some .kwAnd
  | "or" => some .kwOr
  | "in" => some .kwIn
  | "not" => some .kwNot
  | "pub" => some .kwPub
  | "new" => some .kwNew
  | "class" => some .kwClass
  | "return" => some .kwReturn
  | "let" => some .kwLet
  | "mut" => some .kwMut
  | "false" => some .kwFalse
  | "true" => some .kwTrue
  | "null" => some .kwNull
  | _ => none

/-- The kind of a word: a word that is not reserved is an identifier. -/
def ofWord (word : String) : Kind := (ofWord? word).getD .identifier

/-- The symbol written with the one character `c`. -/
def ofChar? : Char → Option Kind
  | '(' => some .openParen
  | ')' => some .closeParen
  | '{' => some .openCurly
  | '}' => some .closeCurly
  | '[' => some .openBracket
  | ']' => some .closeBracket
  | '=' => some .assignment
  | '<' => some .less
  | '>' => some .greater
  | '.' => some .dot
  | ',' => some .comma
  | ':' => some .colon
  | ';' => some .semicolon
  | '&' => some .ampersand
  | '+' => some .plus
  | '-' => some .dash
  | '*' => some .star
  | '/' => some .slash
  | '%' => some .percent
  | _ => none

/-- The symbol written with the two characters `c` and `d`. -/
def ofPair? : Char → Char → Option Kind
  | '=', '=' => some .equals
  | '!', '=' => some .notEquals
  | '<', '=' => some .lessEquals
  | '>', '=' => some .greaterEquals
  | '-', '>' => some .arrow
  | '+', '=' => some .plusEquals
  | '-', '=' => some .minusEquals
  | '*', '=' => some .starEquals
  | '/', '=' => some .slashEquals
  | '%', '=' => some .percentEquals
  | '*', '*' => some .starStar
  | _, _ => none

end ExprLang.Kind
