import ExprLang.CommandLine
/-!
# `Main` — the command itself

Reads the arguments and the file, and carries out the report of `CommandLine`.
-/
namespace ExprLang.CommandLine

/-- The text of the file at `path`, if there is one and it is text. -/
def readText? (path : String) : IO (Option String) := do
  try
    return String.fromUTF8? (← IO.FS.readBinFile path)
  catch _ =>
    return none

/-- How many nanoseconds it takes to work out `value`. -/
def nanosecondsOf {α : Type} (value : Unit → α) : IO Nat := do
  let start ← IO.monoNanosNow
  let _ ← IO.lazyPure value
  return (← IO.monoNanosNow) - start

/-- Writes the line of an event, timing the phase that it speaks of on the program `source`. -/
def Options.write (o : Options) (source : String) : Event → IO Unit
  | .output line => IO.println line
  | .complaint line => IO.eprintln line
  | .elapsed phase => do
    let time ← match phase with
      | .tokenizing => nanosecondsOf fun _ => tokenize source
      | .parsing => nanosecondsOf fun _ => o.outcome source
    IO.eprintln (phase.done ++ " " ++ elapsedText time)

end ExprLang.CommandLine

/-- The command: `[options] [--] contents`. -/
def main (arguments : List String) : IO UInt32 := do
  match ExprLang.CommandLine.Request.ofArguments? arguments with
  | some request =>
    let file? ← if request.options.file then
        ExprLang.CommandLine.readText? request.contents
      else pure none
    let report := request.report file?
    for event in report.events do
      request.options.write (file?.getD request.contents) event
    return UInt32.ofNat report.exitCode
  | none =>
    IO.eprintln "usage: [-f] [-t] [-e] [-v] [--] contents"
    return 2
