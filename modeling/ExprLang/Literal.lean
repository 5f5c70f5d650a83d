/-!
# `Literal` — the values of character and string literals

A literal keeps its source text, quotes and backslashes included, until it becomes a tree.

## Contents
- `Literal.unescape`: what a backslash and a character stand for.
- `Literal.charValue?`, `Literal.stringValue`: the value of a literal text.
-/
namespace ExprLang.Literal

/-- The character that a backslash and `c` stand for: most characters stand for themselves. -/
def unescape : Char → Char
  | 'n' => '\n'
  | 'r' => '\r'
  | 't' => '\t'
  | 'f' => '\x0c'
  | 'v' => '\x0b'
  | c => c

/-- The text between two quotes `q`, if `text` starts with one and ends with another. -/
def between? (q : Char) : List Char → Option (List Char)
  | [] => none
  | c :: rest => if c = q ∧ rest.getLast? = some q then some rest.dropLast else none

/-- Replaces each backslash and the character after it by what they stand for. A backslash at the
    end is dropped. -/
def decode : List Char → List Char
  | [] => []
  | ['\\'] => []
  | '\\' :: c :: rest => unescape c :: decode rest
  | c :: rest => c :: decode rest

/-- The character that `text` is a literal of, if it is one. -/
def charValue? (text : String) : Option Char :=
  match between? '\'' text.toList with
  | some [c] => if c = '\\' then none else some c
  | some [mark, c] => if mark = '\\' then some (unescape c) else none
  | _ => none

/-- The string that `text` is a literal of. A text without the two quotes stands for itself. -/
def stringValue (text : String) : String :=
  String.ofList (decode ((between? '"' text.toList).getD text.toList))

end ExprLang.Literal
