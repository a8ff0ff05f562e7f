import WideColumn.Report.Rendering

/-!
# The command line

`compile <definition> [--index <column>[=<name>]]… [--json]` reports on the definition in a file.
What is asked for is read from the arguments; `outcome` is what the command answers, given what
reading the file gave.
-/

namespace WideColumn

/-- What the command line asks for. -/
structure ReportCommand where
  path : String
  indexes : List IndexRequest := []
  form : ReportForm := .lines
deriving DecidableEq, Repr

/-- What the command ends with. -/
structure ReportOutcome where
  exitCode : UInt8
  output : String := ""
  error : Option String := none
deriving DecidableEq, Repr

/-- What is written to standard error. -/
def ReportOutcome.errorOutput (o : ReportOutcome) : String :=
  o.error.elim "" fun e => "Error: " ++ e ++ "\n"

namespace ReportCommand

/-- How the command is used. -/
def usage : String := "usage: compile <definition> [--index <column>[=<name>]]... [--json]"

/-- The text after a beginning. -/
def after? (beginning s : String) : Option String :=
  if beginning.toList.isPrefixOf s.toList then
    some (String.ofList (s.toList.drop beginning.length))
  else none

/-- What the arguments read so far ask for. -/
structure Arguments where
  path : Option String := none
  indexes : List IndexRequest := []
  form : ReportForm := .lines

/-- Adds an index to what is asked for. -/
def Arguments.withIndex? (p : Arguments) (s : String) : Option Arguments := do
  return { p with indexes := p.indexes ++ [← IndexRequest.ofText? s] }

/-- Reads arguments. -/
def readArguments? (p : Arguments) : List String → Option Arguments
  | [] => some p
  | "--json" :: rest | "-j" :: rest => readArguments? { p with form := .json } rest
  | "--index" :: s :: rest | "-i" :: s :: rest => do readArguments? (← p.withIndex? s) rest
  | argument :: rest =>
    match after? "--index=" argument, after? "-" argument with
    | some s, _ => do readArguments? (← p.withIndex? s) rest
    | none, some _ => none
    | none, none => if p.path.isSome then none else readArguments? { p with path := argument } rest

/-- What the arguments ask for. -/
def ofArguments? : List String → Option ReportCommand
  | "compile" :: rest => do
    let p ← readArguments? {} rest
    return { path := ← p.path, indexes := p.indexes, form := p.form }
  | _ => none

/-- What arguments that cannot be read end with. -/
def misuse : ReportOutcome := { exitCode := 2 }

/-- The report on what reading the file gave. -/
def report (c : ReportCommand) : Except FileProblem String → Except ReportError String
  | .error problem => .error (.unreadable c.path problem)
  | .ok text => (CompiledTable.ofText text c.indexes).map (Report.render c.form)

/-- What the command answers. -/
def outcome (c : ReportCommand) (file : Except FileProblem String) : ReportOutcome :=
  match c.report file with
  | .ok text => { exitCode := 0, output := text ++ "\n" }
  | .error e => { exitCode := 1, error := some e.message }

end ReportCommand

end WideColumn
