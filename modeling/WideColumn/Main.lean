import WideColumn.Report.Command

/-!
# The program

Reports on the table definition in a file.
-/

namespace WideColumn

/-- The text of a file, or why it cannot be read. -/
def readFile (path : String) : IO (Except FileProblem String) := do
  try
    return .ok (← IO.FS.readFile path)
  catch
    | .noFileOrDirectory .. => return .error .missing
    | e => return .error (.other (toString e))

end WideColumn

open WideColumn in
/-- Runs the command that the arguments ask for. -/
def main (arguments : List String) : IO UInt32 := do
  match ReportCommand.ofArguments? arguments with
  | none =>
    IO.eprintln ReportCommand.usage
    return ReportCommand.misuse.exitCode.toUInt32
  | some command =>
    let outcome := command.outcome (← readFile command.path)
    IO.print outcome.output
    IO.eprint outcome.errorOutput
    return outcome.exitCode.toUInt32
