/-!
# `Source.Position` — the places of a text, and its lines

Lines and columns both count from one; a line feed ends a line and every other character takes one
column. What follows the last line feed is a line as well, even when it is empty.

## Contents
- `Position` and its text, `line:column`.
- `Position.after`: the position reached once some text has been passed over. It is an action of
  texts on positions (`after_nil`, `after_append`).
- `Cursor`, `Cursor.ofSource`, `Cursor.next?`, `Cursor.atEnd`: a position with all the text that
  follows it.
- `Cursor.skip`: passes over a number of characters, or over as many as there are.
- `Source.lineAt?`: a line by its index, counted from zero, with all its characters.
- `Source.line?`: a line by its number, counted from one, without the carriage return that may end
  it.
-/
namespace ExprLang

/-! ## Positions -/

/-- A line and a column of a source text, both counted from one. -/
structure Position where
  line : Nat
  column : Nat
  deriving DecidableEq, Repr

namespace Position

/-- The first character of a text stands here. -/
def start : Position := ⟨1, 1⟩

/-- No character stands here; the position of something that was never placed. -/
def unplaced : Position := ⟨0, 0⟩

instance : Inhabited Position := ⟨unplaced⟩

instance : ToString Position := ⟨fun p => toString p.line ++ ":" ++ toString p.column⟩

/-- The position after the character `c`. -/
def next (p : Position) (c : Char) : Position :=
  if c = '\n' then ⟨p.line + 1, 1⟩ else ⟨p.line, p.column + 1⟩

/-- The position after all of `text`. -/
def after (p : Position) (text : List Char) : Position := text.foldl next p

@[simp] theorem after_nil (p : Position) : p.after [] = p := rfl

@[simp] theorem after_cons (p : Position) (c : Char) (text : List Char) :
    p.after (c :: text) = (p.next c).after text := rfl

theorem after_append (p : Position) (s t : List Char) : p.after (s ++ t) = (p.after s).after t :=
  List.foldl_append

end Position

/-! ## Cursors -/

/-- A place in a text: its position, and the text from there on. -/
structure Cursor where
  position : Position
  rest : List Char
  deriving DecidableEq

namespace Cursor

/-- The start of `source`. -/
def ofSource (source : String) : Cursor := ⟨.start, source.toList⟩

/-- The next character, if there is one. -/
def next? (c : Cursor) : Option Char := c.rest.head?

/-- Nothing is left. -/
def atEnd (c : Cursor) : Bool := c.rest.isEmpty

/-- Passes over `n` characters, or over all that are left when they are fewer. -/
def skip (c : Cursor) (n : Nat) : Cursor := ⟨c.position.after (c.rest.take n), c.rest.drop n⟩

end Cursor

/-! ## Lines -/

namespace Source

/-- The line of `text` that has `index` lines before it; `none` when there are not so many. -/
def lineAt? : Nat → List Char → Option (List Char)
  | 0, text => some (text.takeWhile (· ≠ '\n'))
  | index + 1, text =>
    match text.dropWhile (· ≠ '\n') with
    | [] => none
    | _ :: rest => lineAt? index rest

/-- A line without the carriage return that may end it. -/
def withoutReturn (line : List Char) : List Char :=
  if line.getLast? = some '\r' then line.dropLast else line

/-- Line `number` of `text`, counted from one; `none` where the text has no such line. -/
def line? (text : List Char) : Nat → Option (List Char)
  | 0 => none
  | index + 1 => (lineAt? index text).map withoutReturn

end Source
end ExprLang
