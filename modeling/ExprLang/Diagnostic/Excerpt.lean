import ExprLang.Diagnostic.Basic
/-!
# `Diagnostic.Excerpt` — a diagnostic under the line it speaks of

```text
error: expected ')' at 3:9
  |
3 | f(a, b;
  | ------^
```

The line is shown without the spaces and tabs it starts with and without the white space it ends
with, and the caret stands below the column of the diagnostic.

## Contents
- `Text.isWhiteSpace`: the 25 characters with the property White_Space.
- `Text.trimEnd`: a text without the white space at its end.
- `indentation`: how far a line is indented.
- `Diagnostic.excerpt`.
-/
namespace ExprLang

/-! ## White space, in the widest sense -/

namespace Text

/-- White space of any script, line breaks included. -/
def isWhiteSpace (c : Char) : Bool :=
  let n := c.toNat
  (9 ≤ n && n ≤ 13) || n = 0x20 || n = 0x85 || n = 0xa0 || n = 0x1680 ||
    (0x2000 ≤ n && n ≤ 0x200a) || n = 0x2028 || n = 0x2029 || n = 0x202f || n = 0x205f || n = 0x3000

/-- Removes the white space at the end of `text`. -/
def trimEnd (text : List Char) : List Char := (text.reverse.dropWhile isWhiteSpace).reverse

end Text

/-! ## The line of a diagnostic -/

/-- How many spaces and tabs `line` starts with. -/
def indentation (line : List Char) : Nat := (line.takeWhile fun c => c = ' ' || c = '\t').length

namespace Diagnostic

/-- The diagnostic `d` of the program `source`, and the line it speaks of. It stands alone when the
    program has no such line. A caret that would stand in the indentation stands behind it. -/
def excerpt (d : Diagnostic) (source : String) : String :=
  match Source.line? source.toList d.position.line with
  | none => toString d
  | some line =>
    let number := toString d.position.line
    let margin := "".pushn ' ' (number.length + 1) ++ "|"
    let shown := String.ofList (Text.trimEnd (line.drop (indentation line)))
    let column := max (d.position.column - indentation line) 1
    toString d ++ "\n" ++ margin ++ "\n" ++ number ++ " | " ++ shown ++ "\n" ++
      margin ++ " " ++ "".pushn '-' (column - 1) ++ "^"

end Diagnostic
end ExprLang
