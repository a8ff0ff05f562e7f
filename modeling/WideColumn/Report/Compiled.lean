import WideColumn.Index.Basic
import WideColumn.Json.Reader
import WideColumn.Report.IndexRequest
import WideColumn.Schema.Compilation
import WideColumn.Schema.JsonForm

/-!
# Compiling for a report

From the text of a table definition and the indexes that are asked for to the layouts that a
report shows, and what can go wrong on the way.
-/

namespace WideColumn

/-- A table and indexes on it. -/
structure CompiledTable where
  table : TableSchema
  indexes : List SecondaryIndex
deriving DecidableEq, Repr

/-- Why a file could not be read. -/
inductive FileProblem where
  | missing
  | other (reason : String)
deriving DecidableEq, Repr

/-- The wording of a reason. -/
def FileProblem.message : FileProblem → String
  | missing => "No such file or directory (os error 2)"
  | other reason => reason

/-- Why there is no report. -/
inductive ReportError where
  | unreadable (path : String) (problem : FileProblem)
  /-- The text is not that of a definition. -/
  | malformedDefinition
  | invalidRequest (request : String)
  | refused (e : EngineError)
deriving DecidableEq, Repr

/-- The wording of an error. -/
def ReportError.message : ReportError → String
  | unreadable path problem => s!"cannot read {path}: " ++ problem.message
  | malformedDefinition => "invalid table definition"
  | invalidRequest request => "invalid index \"" ++ request ++ "\" (expected <column>[=<name>])"
  | refused e => e.message

namespace CompiledTable

/-- The index that a text asks for. -/
def readRequest (s : String) : Except ReportError IndexRequest :=
  match IndexRequest.ofText? s with
  | some request => .ok request
  | none => .error (.invalidRequest s)

/-- The indexes that are asked for, in turn. -/
def deriveIndexes (table : TableSchema) :
    List IndexRequest → Except EngineError (List SecondaryIndex)
  | [] => .ok []
  | request :: rest => do
    let x ← SecondaryIndex.ofColumn table request.column request.name
    return x :: (← deriveIndexes table rest)

/-- Compiles a definition and derives indexes on its table. -/
def ofDefinition (d : TableDefinition) (requests : List IndexRequest) :
    Except EngineError CompiledTable := do
  let table ← d.compile.mapError .schema
  return { table, indexes := ← deriveIndexes table requests }

/-- Compiles the definition that a text spells. -/
def ofText (text : String) (requests : List IndexRequest) : Except ReportError CompiledTable :=
  match (Json.ofText? text).bind TableDefinition.ofJson? with
  | none => .error .malformedDefinition
  | some d => (ofDefinition d requests).mapError .refused

end CompiledTable

end WideColumn
