import ExprLang.Token.Basic
/-!
# `Token.Stream` — tokens handed out one at a time

A stream never runs dry: once its pending tokens are used up it goes on answering with the end of
the input.

## Contents
- `TokenStream`, with `peek`, `next`, `push`, `remaining`, `collect`.
- `TokenStream.ofTokens`, `TokenStream.ofKinds`: streams of given tokens.
-/
namespace ExprLang

/-- Tokens still to be handed out, and where the input ends after them. -/
structure TokenStream where
  pending : List Token
  finish : Position
  deriving DecidableEq, Repr

namespace TokenStream

/-- The current token. -/
def peek (s : TokenStream) : Token := s.pending.head?.getD (.endOfInput s.finish)

/-- The stream after its current token. -/
def advance (s : TokenStream) : TokenStream := { s with pending := s.pending.tail }

/-- Takes the current token off the stream. -/
def next (s : TokenStream) : Token × TokenStream := (s.peek, s.advance)

/-- Puts a token behind all pending ones. -/
def push (s : TokenStream) (t : Token) : TokenStream := { s with pending := s.pending ++ [t] }

/-- How many tokens are pending. -/
def remaining (s : TokenStream) : Nat := s.pending.length

/-- Takes off all tokens before the end of the input, the first that has this kind. -/
def collect (s : TokenStream) : List Token × TokenStream :=
  (s.pending.takeWhile (!·.is .eof), { s with pending := s.pending.dropWhile (!·.is .eof) })

/-- The stream of the given tokens. Its input ends where the last of them stands. -/
def ofTokens (ts : List Token) : TokenStream :=
  ⟨ts, (ts.getLast?.map (·.position)).getD .start⟩

/-- The stream of tokens of the given kinds and values, one column apart on the first line. -/
def ofKinds (ks : List (Kind × String)) : TokenStream :=
  ofTokens (ks.mapIdx fun i (k, value) => ⟨k, value, ⟨1, i + 1⟩⟩)

@[simp] theorem peek_nil (p : Position) : peek ⟨[], p⟩ = .endOfInput p := rfl

@[simp] theorem peek_cons (t : Token) (ts : List Token) (p : Position) :
    peek ⟨t :: ts, p⟩ = t := rfl

@[simp] theorem advance_nil (p : Position) : advance ⟨[], p⟩ = ⟨[], p⟩ := rfl

@[simp] theorem advance_cons (t : Token) (ts : List Token) (p : Position) :
    advance ⟨t :: ts, p⟩ = ⟨ts, p⟩ := rfl

theorem remaining_advance_le (s : TokenStream) : s.advance.remaining ≤ s.remaining := by
  simp [advance, remaining]

end TokenStream
end ExprLang
