import ExprLang.Token.Lexeme
import ExprLang.Token.Stream
/-!
# `Token.Scan` — the tokens of a text

## Contents
- `Scan`, `scan`: the tokens from some place in a text on, and the place where scanning stopped: the
  end of the text, or a malformed piece, which leaves a token of kind `error`.
- `scan_nil`, `scan_gap`, `scan_token`, `scan_fault`: what each piece adds to the scan.
- `tokenize`: the tokens of a whole text, with the end of the input behind them.
- `Scanner`: a stream of the tokens of a text, together with the place where scanning stopped.
-/
namespace ExprLang

/-- Tokens read from a text, and the place where reading them stopped. -/
structure Scan where
  tokens : List Token
  stop : Cursor

/-- The tokens of the text `s` that starts at `p`. A malformed piece ends the scan: its message is
    the value of the last token. -/
def scan (p : Position) : List Char → Scan
  | [] => ⟨[], ⟨p, []⟩⟩
  | c :: tail =>
    match _found : Piece.cut c tail with
    | (.gap text, rest) => scan (p.after text) rest
    | (.token kind text, rest) =>
      let more := scan (p.after text) rest
      ⟨⟨kind, String.ofList text, p⟩ :: more.tokens, more.stop⟩
    | (.fault cause text, rest) => ⟨[⟨.error, cause.message, p⟩], ⟨p.after text, rest⟩⟩
termination_by s => s.length
decreasing_by
  all_goals
    have shorter : (Piece.cut c tail).2.length < (c :: tail).length :=
      Piece.length_rest_lt (by rw [_found]; rfl)
    rwa [_found] at shorter

@[simp] theorem scan_nil (p : Position) : scan p [] = ⟨[], ⟨p, []⟩⟩ := by
  rw [scan]

theorem scan_gap {p : Position} {c : Char} {tail text rest : List Char}
    (h : Piece.cut c tail = (.gap text, rest)) :
    scan p (c :: tail) = scan (p.after text) rest := by
  rw [scan]
  split <;> simp_all

theorem scan_token {p : Position} {c : Char} {kind : Kind} {tail text rest : List Char}
    (h : Piece.cut c tail = (.token kind text, rest)) :
    scan p (c :: tail) =
      ⟨⟨kind, String.ofList text, p⟩ :: (scan (p.after text) rest).tokens,
        (scan (p.after text) rest).stop⟩ := by
  rw [scan]
  split <;> simp_all

theorem scan_fault {p : Position} {c : Char} {cause : Fault} {tail text rest : List Char}
    (h : Piece.cut c tail = (.fault cause text, rest)) :
    scan p (c :: tail) = ⟨[⟨.error, cause.message, p⟩], ⟨p.after text, rest⟩⟩ := by
  rw [scan]
  split <;> simp_all

/-- The scan of a whole text. -/
def Scan.ofSource (source : String) : Scan := scan .start source.toList

/-- The stream of the scanned tokens, which ends with a token for the end of the input. -/
def Scan.stream (s : Scan) : TokenStream :=
  ⟨s.tokens ++ [.endOfInput s.stop.position], s.stop.position⟩

/-- All tokens of a text, the end of the input last. -/
def tokenize (source : String) : List Token := (Scan.ofSource source).stream.pending

/-- The stream of the tokens of a text. -/
def TokenStream.ofSource (source : String) : TokenStream := (Scan.ofSource source).stream

/-- A token stream together with a place in the text that it was scanned from. -/
structure Scanner where
  stream : TokenStream
  cursor : Cursor

/-- All tokens of `source` are pending, and the cursor stands where scanning stopped. -/
def Scanner.ofSource (source : String) : Scanner :=
  ⟨.ofSource source, (Scan.ofSource source).stop⟩

end ExprLang
