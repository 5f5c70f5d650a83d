import ExprLang.Source.Position
/-!
# `Diagnostic.Basic` — what is wrong with a program, and where

## Contents
- `Problem` and `Problem.message`.
- `Diagnostic`: a problem at a position, shown as `error: <message> at <line>:<column>`.
-/
namespace ExprLang

/-- What is wrong. -/
inductive Problem where
  /-- The text cannot be read as tokens. -/
  | lexical (message : String)
  /-- Something else should stand here. -/
  | expected (what : String)
  /-- A value should stand here. -/
  | expectedValue
  /-- An assignment stands where none is accepted. -/
  | assignmentNotAllowed
  /-- A construct that is reserved, but has no meaning yet. -/
  | notImplemented (construct : String)
  /-- A number that cannot be represented. -/
  | badNumber (text : String)
  deriving DecidableEq, Repr

/-- What is wrong, in words. -/
def Problem.message : Problem → String
  | .lexical message => message
  | .expected what => "expected " ++ what
  | .expectedValue => "expected value"
  | .assignmentNotAllowed => "assignment not allowed"
  | .notImplemented construct => construct ++ " not implemented"
  | .badNumber text => "invalid number literal `" ++ text ++ "`"

/-- A problem and the position it was found at. -/
structure Diagnostic where
  problem : Problem
  position : Position
  deriving DecidableEq, Repr

namespace Diagnostic

/-- What is wrong, in words, without the position. -/
def message (d : Diagnostic) : String := d.problem.message

instance : ToString Diagnostic :=
  ⟨fun d => "error: " ++ d.message ++ " at " ++ toString d.position⟩

end Diagnostic
end ExprLang
