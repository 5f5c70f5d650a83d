import ExprLang.Token.Stream

/-!
# `Proofs.Reading.Stream` — a stream behind some tokens

What a reader takes off a stream is a list of tokens `w`: the stream it was given is the stream it
leaves, **behind** `w`. Stated this way, the two halves of "reads exactly `w`" are equations between
streams, and a reader that goes on with what another one left needs no arithmetic on lengths.

## Contents
- `TokenStream.behind`: the stream that hands out `w` first.
- `eq_advance_behind`: a token other than the end of the input is really there to be taken.
- `TokenStream.token`, `TokenStream.skip`: the tokens of a stream by their place in it.
-/

namespace ExprLang

namespace TokenStream

/-- The stream `s` behind the tokens `w`, which are handed out first. -/
def behind (s : TokenStream) (w : List Token) : TokenStream := { s with pending := w ++ s.pending }

variable (s : TokenStream)

@[simp] theorem behind_nil : s.behind [] = s := rfl

@[simp] theorem peek_behind_cons (t : Token) (w : List Token) : (s.behind (t :: w)).peek = t := rfl

@[simp] theorem advance_behind_cons (t : Token) (w : List Token) :
    (s.behind (t :: w)).advance = s.behind w := rfl

@[simp] theorem remaining_behind (w : List Token) :
    (s.behind w).remaining = w.length + s.remaining := List.length_append

theorem behind_append (u v : List Token) : s.behind (u ++ v) = (s.behind v).behind u := by
  simp [behind, List.append_assoc]

/-- A stream whose pending tokens are used up stands at the end of the input. -/
theorem peek_kind_of_remaining_eq_zero {s : TokenStream} (h : s.remaining = 0) :
    s.peek.kind = .eof := by
  obtain ⟨pending, finish⟩ := s
  rw [List.length_eq_zero_iff.mp (show pending.length = 0 from h)]
  rfl

/-- **A token other than the end of the input is pending**: the stream is what follows it, behind
    it. -/
theorem eq_advance_behind {s : TokenStream} (h : s.peek.kind ≠ .eof) :
    s = s.advance.behind [s.peek] := by
  obtain ⟨pending, finish⟩ := s
  cases pending with
  | nil => exact absurd rfl h
  | cons t ts => rfl

/-- A stream is what is left after one step behind the token that was pending, if there was one. -/
theorem exists_behind_advance (s : TokenStream) : ∃ w, s = s.advance.behind w := by
  obtain ⟨pending, finish⟩ := s
  cases pending with
  | nil => exact ⟨[], rfl⟩
  | cons t ts => exact ⟨[t], rfl⟩

/-- Taking a pending token off leaves one less. -/
theorem remaining_advance_lt {s : TokenStream} (h : 0 < s.remaining) :
    s.advance.remaining < s.remaining := by
  obtain ⟨pending, finish⟩ := s
  cases pending with
  | nil => exact absurd h (Nat.lt_irrefl 0)
  | cons t ts => exact Nat.lt_succ_self ts.length

/-- Taking off a token other than the end of the input leaves one less. -/
theorem remaining_advance_lt_of_kind {s : TokenStream} (h : s.peek.kind ≠ .eof) :
    s.advance.remaining < s.remaining :=
  remaining_advance_lt
    (Nat.pos_of_ne_zero fun h₀ => h (peek_kind_of_remaining_eq_zero h₀))

/-! ## Places in a stream -/

/-- The token that is handed out after `i` others. -/
def token (s : TokenStream) (i : Nat) : Token := s.pending[i]?.getD (.endOfInput s.finish)

/-- The stream after `i` of its tokens. -/
def skip (s : TokenStream) (i : Nat) : TokenStream := { s with pending := s.pending.drop i }

variable {s} {i j : Nat}

@[simp] theorem skip_zero : s.skip 0 = s := rfl

@[simp] theorem peek_skip : (s.skip i).peek = s.token i := by
  simp [peek, token, skip, List.head?_drop]

@[simp] theorem advance_skip : (s.skip i).advance = s.skip (i + 1) := by
  simp [advance, skip, List.tail_drop]

@[simp] theorem remaining_skip : (s.skip i).remaining = s.remaining - i := List.length_drop

/-- The places in a stream are told apart by what is left behind them. -/
theorem eq_of_skip (hi : i ≤ s.remaining) (hj : j ≤ s.remaining) (h : s.skip i = s.skip j) :
    i = j := by
  have hremaining := congrArg remaining h
  rw [remaining_skip, remaining_skip] at hremaining
  omega

@[simp] theorem skip_behind (w : List Token) : (s.behind w).skip w.length = s := by
  simp [behind, skip]

theorem token_behind {w : List Token} (h : j < w.length) : (s.behind w).token j = w[j] := by
  simp [token, behind, List.getElem?_append_left h, List.getElem?_eq_getElem h]

end TokenStream
end ExprLang
