import ExprLang.Diagnostic.Basic
import ExprLang.Token.Stream
/-!
# `Grammar.Reply` — readers of token streams

A reader takes tokens off a stream, strictly from left to right and with one token in sight, and
stops at the first problem. Also when it fails, its answer holds the stream as the failure left it.

## Contents
- `Halt`, `Reply`: how reading ends.
- `Parse`: readers, a monad.
- `Parse.current`, `Parse.kind`, `Parse.advance`, `Parse.reject`, `Parse.expect`: single steps.
- `Parse.recover`: a failure turned into a value.
- `Parse.bind_apply` and its like: what each step does to a stream.
- `Reply.result`: the answer alone.
-/
namespace ExprLang

/-- Why reading ended without an answer: the fault lies in the table or in the bound on the depth,
    not in the tokens. -/
inductive Halt where
  /-- A kind of token has infix powers, but no operator. -/
  | noOperator (kind : Kind)
  /-- The bound on the depth was reached. -/
  | outOfFuel
  deriving DecidableEq, Repr

/-- The fault in words. -/
def Halt.message : Halt → String
  | noOperator kind => "no binary operator registered for " ++ kind.name
  | outOfFuel => "recursion bound exceeded"

/-- How reading ends: with a value or with a diagnostic, and the stream as it then is; or with
    neither. -/
inductive Reply (α : Type) where
  | ok (value : α) (rest : TokenStream)
  | error (diagnostic : Diagnostic) (rest : TokenStream)
  | halt (cause : Halt)

/-- The answer, where `onError` makes a value of a diagnostic. -/
def Reply.result {α : Type} (onError : Diagnostic → α) : Reply α → Except Halt α
  | ok value _ => .ok value
  | error d _ => .ok (onError d)
  | halt cause => .error cause

/-- The diagnostic of a problem with the current token. What is malformed is reported as such,
    whatever else might be wrong with it. -/
def TokenStream.diagnose (s : TokenStream) (problem : Problem) : Diagnostic :=
  if s.peek.is .error then ⟨.lexical s.peek.value, s.peek.position⟩
  else ⟨problem, s.peek.position⟩

/-- Readers of a value of type `α`. -/
def Parse (α : Type) : Type := TokenStream → Reply α

namespace Parse

variable {α β : Type}

/-- Reads with `p`, and then with what `f` makes of the value. -/
def andThen (p : Parse α) (f : α → Parse β) : Parse β := fun s =>
  match p s with
  | .ok value rest => f value rest
  | .error d rest => .error d rest
  | .halt cause => .halt cause

instance : Monad Parse where
  pure value := fun s => .ok value s
  bind := andThen

@[simp] theorem pure_apply (a : α) (s : TokenStream) : (pure a : Parse α) s = .ok a s := rfl

theorem bind_apply (p : Parse α) (f : α → Parse β) (s : TokenStream) :
    (p >>= f) s = match p s with
      | .ok value rest => f value rest
      | .error d rest => .error d rest
      | .halt cause => .halt cause := rfl

/-! ## Single steps -/

/-- The current token. -/
def current : Parse Token := fun s => .ok s.peek s

/-- The kind of the current token. -/
def kind : Parse Kind := fun s => .ok s.peek.kind s

/-- Takes the current token off the stream. -/
def advance : Parse Token := fun s => .ok s.peek s.advance

/-- Fails with a problem at the position `p`. -/
def rejectAt (problem : Problem) (p : Position) : Parse α := fun s => .error ⟨problem, p⟩ s

/-- Fails with a problem with the current token. -/
def reject (problem : Problem) : Parse α := fun s => .error (s.diagnose problem) s

/-- Ends without an answer. -/
def halt (cause : Halt) : Parse α := fun _ => .halt cause

/-- Takes a token of kind `k` off the stream, or fails with a problem with the current token. -/
def expectOr (k : Kind) (problem : Problem) : Parse Token := fun s =>
  if s.peek.is k then advance s else reject problem s

/-- Takes a token of kind `k`, described as `what`, off the stream. -/
def expect (k : Kind) (what : String) : Parse Token := expectOr k (.expected what)

/-- Turns a failure of `p` into a value. -/
def recover (p : Parse α) (onError : Diagnostic → α) : Parse α := fun s =>
  match p s with
  | .error d rest => .ok (onError d) rest
  | reply => reply

/-! ## What the steps do -/

@[simp] theorem current_apply (s : TokenStream) : current s = .ok s.peek s := rfl

@[simp] theorem kind_apply (s : TokenStream) : kind s = .ok s.peek.kind s := rfl

@[simp] theorem advance_apply (s : TokenStream) : advance s = .ok s.peek s.advance := rfl

@[simp] theorem rejectAt_apply (problem : Problem) (p : Position) (s : TokenStream) :
    (rejectAt problem p : Parse α) s = .error ⟨problem, p⟩ s := rfl

@[simp] theorem reject_apply (problem : Problem) (s : TokenStream) :
    (reject problem : Parse α) s = .error (s.diagnose problem) s := rfl

@[simp] theorem halt_apply (cause : Halt) (s : TokenStream) :
    (halt cause : Parse α) s = .halt cause := rfl

theorem expect_apply (k : Kind) (what : String) (s : TokenStream) :
    expect k what s =
      if s.peek.is k then .ok s.peek s.advance else .error (s.diagnose (.expected what)) s := rfl

end Parse
end ExprLang
