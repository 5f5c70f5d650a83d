import ExprLang.Diagnostic.Excerpt
import ExprLang.Grammar.Derive
import ExprLang.Tree.Text
/-!
# `CommandLine` — the command that shows how a program is read

The command takes a program, or the path of one, and prints its statements, or the first problem
with it. What it does is worked out here as a report; carrying the report out is left to the caller.

## Contents
- `Options`, `Request`, `Request.ofArguments?`: what the command was asked to do.
- `Event`, `Report`: lines written, in their order, and the exit code.
- `Request.report`: the report of the command.
- `elapsedText`: a length of time.
-/
namespace ExprLang.CommandLine

/-- How the command treats its contents. -/
structure Options where
  /-- The contents are a path, and the program is in that file. -/
  file : Bool := false
  /-- Print the tokens first. -/
  tokens : Bool := false
  /-- Read a single expression, and not statements. -/
  expression : Bool := false
  /-- Say how long each phase took. -/
  verbose : Bool := false
  deriving DecidableEq, Repr

/-- What the command was asked to do. -/
structure Request where
  options : Options
  contents : String
  deriving DecidableEq, Repr

/-- Sets the option that is written with one letter. -/
def Options.setLetter (o : Options) : Char → Option Options
  | 'f' => some { o with file := true }
  | 't' => some { o with tokens := true }
  | 'e' => some { o with expression := true }
  | 'v' => some { o with verbose := true }
  | _ => none

/-- Sets the option that is written as a word. -/
def Options.setWord (o : Options) : String → Option Options
  | "file" => o.setLetter 'f'
  | "tokens" => o.setLetter 't'
  | "expression" => o.setLetter 'e'
  | "verbose" => o.setLetter 'v'
  | _ => none

namespace Request

/-- Reads arguments, with the options `o` already set: options as words after two dashes or as
    letters after one, and everything else; all that follows two dashes alone is no option. -/
def split (o : Options) : List String → Option (Options × List String)
  | [] => some (o, [])
  | argument :: more =>
    match argument.toList with
    | ['-', '-'] => some (o, more)
    | '-' :: '-' :: word => (o.setWord (String.ofList word)).bind (split · more)
    | '-' :: letter :: letters =>
      ((letter :: letters).foldlM Options.setLetter o).bind (split · more)
    | _ => (split o more).map fun (o, others) => (o, argument :: others)

/-- The request that the arguments of the command make: there is exactly one that is no option. -/
def ofArguments? (arguments : List String) : Option Request :=
  match split {} arguments with
  | some (options, [contents]) => some ⟨options, contents⟩
  | _ => none

end Request

/-- The phases of the command that are timed. -/
inductive Phase where
  | tokenizing | parsing
  deriving DecidableEq, Repr

/-- How a phase is spoken of once it is over. -/
def Phase.done : Phase → String
  | tokenizing => "Tokenized in"
  | parsing => "Parsed in"

/-- A line written to the output or to the error output. -/
inductive Event where
  | output (line : String)
  | complaint (line : String)
  /-- How long a phase took, to the error output. -/
  | elapsed (phase : Phase)
  deriving DecidableEq, Repr

/-- What the command does: the lines it writes, and its exit code. -/
structure Report where
  events : List Event
  exitCode : Nat
  deriving DecidableEq, Repr

namespace Report

/-- Ends with a line on the error output, and a failure. -/
def failure (line : String) : Report := ⟨[.complaint line], 1⟩

/-- Ends with the given lines of output. -/
def success (lines : List String) : Report := ⟨lines.map .output, 0⟩

/-- Puts events before those of a report. -/
def after (events : List Event) (r : Report) : Report := { r with events := events ++ r.events }

end Report

/-- What is said of the program `source` itself: the trees, or the first problem. -/
def Options.outcome (o : Options) (source : String) : Report :=
  if o.expression then
    match parseExpression source true with
    | .error cause => .failure cause.message
    | .ok e =>
      match e.diagnostic? with
      | some d => .failure (d.excerpt source)
      | none => .success [e.text]
  else
    match parseProgram source with
    | .error cause => .failure cause.message
    | .ok statements =>
      match statements.head?.bind Statement.diagnostic? with
      | some d => .failure (d.excerpt source)
      | none => .success (statements.map Statement.text)

/-- The report on the program `source`. -/
def Options.reportOn (o : Options) (source : String) : Report :=
  let timing (phase : Phase) : List Event := if o.verbose then [.elapsed phase] else []
  let tokens : List Event :=
    if o.tokens then [.output (" ".intercalate ((tokenize source).map toString))] else []
  .after (timing .tokenizing ++ tokens ++ timing .parsing) (o.outcome source)

/-- The report of the command, where `file?` is the text of the file that the contents name, if they
    name one and it can be read as text. -/
def Request.report (r : Request) (file? : Option String) : Report :=
  if r.options.file then
    match file? with
    | none =>
      .failure ("Failed to read the input file '" ++ r.contents ++
        "'. Perhaps this file does not exist?")
    | some source => r.options.reportOn source
  else r.options.reportOn r.contents

/-- A length of time, in the largest unit of which it has at least one. -/
def elapsedText (nanoseconds : Nat) : String :=
  let (unit, size, places) :=
    if 1000000000 ≤ nanoseconds then ("s", 1000000000, 9)
    else if 1000000 ≤ nanoseconds then ("ms", 1000000, 6)
    else if 1000 ≤ nanoseconds then ("µs", 1000, 3)
    else ("ns", 1, 0)
  let digits := Nat.toDigits 10 (nanoseconds % size)
  let decimals := List.replicate (places - digits.length) '0' ++ digits
  let kept := (decimals.reverse.dropWhile (· = '0')).reverse
  toString (nanoseconds / size) ++
    (if kept.isEmpty then "" else "." ++ String.ofList kept) ++ unit

end ExprLang.CommandLine
