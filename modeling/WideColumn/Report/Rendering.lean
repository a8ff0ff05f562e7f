import WideColumn.Json.Writer
import WideColumn.Report.Compiled
import WideColumn.Schema.Version

/-!
# Reports

A compiled table and its indexes for readers: as lines of text, or as one line of JSON.
-/

namespace WideColumn

/-- How a report is written. -/
inductive ReportForm where
  | lines | json
deriving DecidableEq, Repr

/-- The label of a role. -/
def ColumnRole.label : ColumnRole → String
  | partitionKey => "partition key"
  | clusteringKey => "clustering"
  | static => "static"
  | regular => "regular"
  | compactValue => "compact value"

namespace Report

/-! ### Lines -/

/-- Spaces after a text, up to a number of characters. -/
def padded (width : Nat) (s : String) : String :=
  s.pushn ' ' (width - s.length)

/-- The width of the names in a table, measured in bytes. -/
def nameWidth (columns : List Column) : Nat :=
  columns.foldl (fun width c => max width c.name.utf8ByteSize) 0

/-- The line of a column. -/
def columnLine (width : Nat) (c : Column) : String :=
  let position := c.componentIndex.elim "" fun i => s!" #{i}"
  "    " ++ padded width c.name ++ "  " ++ padded 20 c.type.toText ++ "  "
    ++ c.role.label ++ position

/-- The words for a value column. -/
def compactValueText : Option CompactValue → String
  | some (.column name) => name
  | some .empty => "(empty)"
  | none => "(none)"

/-- The lines of a table. -/
def tableLines (label : String) (s : TableSchema) : List String :=
  [ label ++ " " ++ s.id,
    "  key:           " ++ s.keyLayout.toText,
    "  comparator:    " ++ s.cellLayout.toText,
    "  default:       " ++ s.defaultType.toText,
    "  dense:         " ++ toString s.isDense,
    "  compact:       " ++ toString s.isCompact,
    "  compact value: " ++ compactValueText s.compactValue,
    "  version:       " ++ s.versionText,
    "  columns:" ] ++ s.columns.map (columnLine (nameWidth s.columns))

/-- The lines of an index, after a blank one. -/
def indexLines (x : SecondaryIndex) : List String :=
  "" :: tableLines "index" x.indexSchema ++ ["  on column:     " ++ x.column]

/-- The report as lines of text. -/
def linesText (c : CompiledTable) : String :=
  String.join ((tableLines "table" c.table ++ c.indexes.flatMap indexLines).map (· ++ "\n"))

/-! ### JSON -/

/-- An index as JSON. -/
def indexJson (x : SecondaryIndex) : Json :=
  .object [
    ("id", .text x.id),
    ("name", .text x.name),
    ("column", .text x.column),
    ("target", x.target.toJson),
    ("schema", x.indexSchema.toJson)]

/-- The report as JSON. -/
def toJson (c : CompiledTable) : Json :=
  .object [
    ("table", c.table.toJson),
    ("schema_version", .text c.table.versionText),
    ("indexes", Json.ofList indexJson c.indexes)]

/-- The report. -/
def render (form : ReportForm) (c : CompiledTable) : String :=
  match form with
  | .lines => linesText c
  | .json => (toJson c).sortMembers.compact

/-- The report on the definition that a text spells. -/
def ofText (text : String) (requests : List String) (form : ReportForm) :
    Except ReportError String := do
  let requests ← requests.mapM CompiledTable.readRequest
  return render form (← CompiledTable.ofText text requests)

end Report

end WideColumn
