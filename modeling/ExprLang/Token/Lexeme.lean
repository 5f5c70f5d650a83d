import ExprLang.Token.Spelling
/-!
# `Token.Lexeme` — the piece that a text starts with

A text is cut into pieces from the front: gaps, which carry no token, tokens, and at most one
malformed piece. Every reader here takes a text apart without losing a character.

## Contents
- Character classes: `isBlank`, `isNameStart`, `isNamePart`.
- `Fault` and `Fault.message`: what can be wrong with a piece of text.
- `Piece`, and one reader for each class of piece: `word`, `number`, `charLiteral`,
  `stringLiteral`, `comment?`, `symbol`.
- `Piece.cut`: the piece at the front of a text, and the text after it.
- `Piece.text_append_cut`: the two together are the text that was cut.
- `Piece.length_rest_lt`: a cut shortens the text unless it finds a fault.
-/
namespace ExprLang

/-- Blank characters separate tokens and mean nothing else. -/
def isBlank (c : Char) : Bool := c = ' ' || c = '\t' || c = '\r' || c = '\n'

/-- A name starts with a Latin letter, one of the letters æ, ø and å, or an underscore. -/
def isNameStart (c : Char) : Bool :=
  c.isAlpha || c = '_' || c = 'æ' || c = 'ø' || c = 'å' || c = 'Æ' || c = 'Ø' || c = 'Å'

/-- A name goes on with the characters that can start one, and with digits. -/
def isNamePart (c : Char) : Bool := isNameStart c || c.isDigit

/-! ## Pieces and faults -/

/-- Why a text has no next token. -/
inductive Fault where
  /-- No token starts with this character. -/
  | unexpected (c : Char)
  /-- The text ends inside a character literal. -/
  | charCutShort
  /-- A character literal goes on where its closing quote should be. -/
  | charUnclosed
  /-- A string literal has no closing quote. -/
  | stringUnclosed
  /-- A block comment has no end. -/
  | commentUnclosed
  deriving DecidableEq, Repr

/-- What is wrong, in words. -/
def Fault.message : Fault → String
  | .unexpected c => "unexpected char '" ++ c.toString ++ "'"
  | .charCutShort => "unexpected end of char literal"
  | .charUnclosed => "expected `'` at end of char literal"
  | .stringUnclosed => "expected `\"` at end of string literal"
  | .commentUnclosed => "unterminated comment"

/-- A piece of a text: a gap between tokens, a token, or what was passed over before a fault. -/
inductive Piece where
  | gap (text : List Char)
  | token (kind : Kind) (text : List Char)
  | fault (cause : Fault) (text : List Char)
  deriving DecidableEq

namespace Piece

/-- The text of a piece. -/
def text : Piece → List Char
  | gap text | token _ text | fault _ text => text

/-- The piece is malformed. -/
def isFault : Piece → Bool
  | fault _ _ => true
  | _ => false

/-! ## Literals and comments, from behind their opening -/

/-- Reads a string up to its closing quote, which is included. A backslash takes the character
    after it along, so that an escaped quote closes nothing. -/
def closeString : List Char → Option (List Char × List Char)
  | [] => none
  | '"' :: rest => some (['"'], rest)
  | '\\' :: c :: rest => (closeString rest).map fun (body, rest) => ('\\' :: c :: body, rest)
  | c :: rest => (closeString rest).map fun (body, rest) => (c :: body, rest)

/-- Reads a block comment up to its end, which is included, with `depth` more comments open around
    it: comments nest. -/
def closeComment : Nat → List Char → Option (List Char × List Char)
  | _, [] => none
  | depth, '/' :: '*' :: rest =>
    (closeComment (depth + 1) rest).map fun (body, rest) => ('/' :: '*' :: body, rest)
  | 0, '*' :: '/' :: rest => some (['*', '/'], rest)
  | depth + 1, '*' :: '/' :: rest =>
    (closeComment depth rest).map fun (body, rest) => ('*' :: '/' :: body, rest)
  | depth, c :: rest => (closeComment depth rest).map fun (body, rest) => (c :: body, rest)

/-! ## Readers -/

/-- A word that starts with `c`: reserved, or an identifier. -/
def word (c : Char) (rest : List Char) : Piece × List Char :=
  let text := c :: rest.takeWhile isNamePart
  (token (Kind.ofWord (String.ofList text)) text, rest.dropWhile isNamePart)

/-- A number that starts with the digit `c`. It has at most one point, and is an integer without
    one. -/
def number (c : Char) (rest : List Char) : Piece × List Char :=
  let whole := c :: rest.takeWhile Char.isDigit
  match rest.dropWhile Char.isDigit with
  | '.' :: more =>
    (token .float (whole ++ '.' :: more.takeWhile Char.isDigit), more.dropWhile Char.isDigit)
  | more => (token .int whole, more)

/-- A character literal, from behind its opening quote: one character, which may be a quote, or a
    backslash and the character that it escapes, and the closing quote. -/
def charLiteral : List Char → Piece × List Char
  | '\\' :: c :: '\'' :: rest => (token .char ['\'', '\\', c, '\''], rest)
  | '\\' :: c :: d :: rest => (fault .charUnclosed ['\'', '\\', c], d :: rest)
  | '\\' :: rest => (fault .charCutShort ('\'' :: '\\' :: rest), [])
  | c :: '\'' :: rest => (token .char ['\'', c, '\''], rest)
  | c :: d :: rest => (fault .charUnclosed ['\'', c], d :: rest)
  | rest => (fault .charCutShort ('\'' :: rest), [])

/-- A string literal, from behind its opening quote. -/
def stringLiteral (rest : List Char) : Piece × List Char :=
  match closeString rest with
  | some (body, rest) => (token .string ('"' :: body), rest)
  | none => (fault .stringUnclosed ('"' :: rest), [])

/-- A comment, from behind the slash that starts it, if it is one: up to the end of the line, or up
    to the end of the block. -/
def comment? : List Char → Option (Piece × List Char)
  | '/' :: rest =>
    some (gap ('/' :: '/' :: rest.takeWhile (· ≠ '\n')), rest.dropWhile (· ≠ '\n'))
  | '*' :: rest =>
    match closeComment 0 rest with
    | some (body, rest) => some (gap ('/' :: '*' :: body), rest)
    | none => some (fault .commentUnclosed ('/' :: '*' :: rest), [])
  | _ => none

/-- The symbol that starts with `c`, of two characters if there is one. -/
def symbol (c : Char) (rest : List Char) : Piece × List Char :=
  let short : Piece × List Char :=
    match Kind.ofChar? c with
    | some k => (token k [c], rest)
    | none => (fault (.unexpected c) [], c :: rest)
  match rest with
  | d :: more =>
    match Kind.ofPair? c d with
    | some k => (token k [c, d], more)
    | none => short
  | [] => short

/-- The piece at the front of the text `c :: rest`, and the text after it. -/
def cut (c : Char) (rest : List Char) : Piece × List Char :=
  if isBlank c then (gap (c :: rest.takeWhile isBlank), rest.dropWhile isBlank)
  else if isNameStart c then word c rest
  else if c.isDigit then number c rest
  else if c = '\'' then charLiteral rest
  else if c = '"' then stringLiteral rest
  else if c = '/' then (comment? rest).getD (symbol c rest)
  else symbol c rest

/-! ## A cut loses nothing -/

theorem closeString_eq {s body rest : List Char} (h : closeString s = some (body, rest)) :
    body ++ rest = s := by
  fun_induction closeString s generalizing body rest with
  | case1 => simp at h
  | case2 => simp at h; obtain ⟨rfl, rfl⟩ := h; rfl
  | case3 c more ih =>
    obtain ⟨⟨b, r⟩, hb, he⟩ := Option.map_eq_some_iff.1 h
    cases he
    simpa using ih hb
  | case4 c more _ _ ih =>
    obtain ⟨⟨b, r⟩, hb, he⟩ := Option.map_eq_some_iff.1 h
    cases he
    simpa using ih hb

theorem closeComment_eq {depth : Nat} {s body rest : List Char}
    (h : closeComment depth s = some (body, rest)) : body ++ rest = s := by
  fun_induction closeComment depth s generalizing body rest with
  | case1 => simp at h
  | case3 => simp at h; obtain ⟨rfl, rfl⟩ := h; rfl
  | case2 _ _ ih =>
    obtain ⟨⟨b, r⟩, hb, he⟩ := Option.map_eq_some_iff.1 h
    cases he
    simpa using ih hb
  | case4 _ _ ih =>
    obtain ⟨⟨b, r⟩, hb, he⟩ := Option.map_eq_some_iff.1 h
    cases he
    simpa using ih hb
  | case5 _ _ _ _ _ _ ih =>
    obtain ⟨⟨b, r⟩, hb, he⟩ := Option.map_eq_some_iff.1 h
    cases he
    simpa using ih hb

theorem text_append_word (c : Char) (rest : List Char) :
    (word c rest).1.text ++ (word c rest).2 = c :: rest := by
  simp [word, text, List.takeWhile_append_dropWhile]

theorem text_append_number (c : Char) (rest : List Char) :
    (number c rest).1.text ++ (number c rest).2 = c :: rest := by
  unfold number
  split
  · next more h =>
    have := List.takeWhile_append_dropWhile (p := Char.isDigit) (l := rest)
    rw [h] at this
    simp [text, List.takeWhile_append_dropWhile, this]
  · simp [text, List.takeWhile_append_dropWhile]

theorem text_append_charLiteral (rest : List Char) :
    (charLiteral rest).1.text ++ (charLiteral rest).2 = '\'' :: rest := by
  fun_cases charLiteral rest <;> simp [text]

theorem text_append_stringLiteral (rest : List Char) :
    (stringLiteral rest).1.text ++ (stringLiteral rest).2 = '"' :: rest := by
  unfold stringLiteral
  split
  · next h => simp [text, closeString_eq h]
  · simp [text]

theorem text_append_comment? {s : List Char} {piece : Piece} {rest : List Char}
    (h : comment? s = some (piece, rest)) : piece.text ++ rest = '/' :: s := by
  unfold comment? at h
  split at h
  · simp at h
    obtain ⟨rfl, rfl⟩ := h
    simp [text, List.takeWhile_append_dropWhile]
  · split at h <;> simp at h <;> obtain ⟨rfl, rfl⟩ := h
    · next h => simp [text, closeComment_eq h]
    · simp [text]
  · simp at h

theorem text_append_symbol (c : Char) (rest : List Char) :
    (symbol c rest).1.text ++ (symbol c rest).2 = c :: rest := by
  unfold symbol
  repeat' split
  all_goals simp [text]

/-- The piece at the front of a text and the text after it make up the whole text. -/
theorem text_append_cut (c : Char) (rest : List Char) :
    (cut c rest).1.text ++ (cut c rest).2 = c :: rest := by
  unfold cut
  split
  · simp [text, List.takeWhile_append_dropWhile]
  split
  · exact text_append_word c rest
  split
  · exact text_append_number c rest
  split
  · next h => rw [h]; exact text_append_charLiteral rest
  split
  · next h => rw [h]; exact text_append_stringLiteral rest
  split
  · next h =>
    subst h
    cases hc : comment? rest with
    | none => exact text_append_symbol '/' rest
    | some found => exact text_append_comment? hc
  · exact text_append_symbol c rest

theorem text_ne_nil_cut {c : Char} {rest : List Char} (h : (cut c rest).1.isFault = false) :
    (cut c rest).1.text ≠ [] := by
  revert h
  unfold cut
  split
  · simp [text]
  split
  · simp [word, text]
  split
  · unfold number
    split <;> simp [text]
  split
  · fun_cases charLiteral rest <;> simp [text, isFault]
  split
  · unfold stringLiteral
    split <;> simp [text, isFault]
  have symbol_ne_nil (c : Char) :
      (symbol c rest).1.isFault = false → (symbol c rest).1.text ≠ [] := by
    unfold symbol
    repeat' split
    all_goals simp [text, isFault]
  split
  · unfold comment?
    split
    · simp [text]
    · split <;> simp [text, isFault]
    · simpa using symbol_ne_nil c
  · exact symbol_ne_nil c

/-- What is left after a piece that is not malformed is shorter. -/
theorem length_rest_lt {c : Char} {rest : List Char} (h : (cut c rest).1.isFault = false) :
    (cut c rest).2.length < (c :: rest).length := by
  have total := congrArg List.length (text_append_cut c rest)
  have := List.length_pos_iff.2 (text_ne_nil_cut h)
  rw [List.length_append] at total
  omega

end Piece
end ExprLang
