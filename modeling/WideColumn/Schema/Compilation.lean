import WideColumn.Schema.KeySplit
import WideColumn.Schema.Naming
import WideColumn.Schema.Table

/-!
# From definition to table

`TableDefinition.compile` checks a definition and works out the layout of its table.  It is a
function of the definition alone.
-/

namespace WideColumn

/-- Refuses counters beside columns of other types. -/
def checkCounters (types : List ColumnType) : Except SchemaError Unit :=
  if types.any (·.isCounter) && types.any (!·.isCounter) then .error .mixedCounterColumns
  else .ok ()

namespace TableDefinition

/-- Checks the names of columns, none of which may be `seen` before. -/
def checkColumnNames (seen : List String) : List ColumnDeclaration → Except SchemaError Unit
  | [] => .ok ()
  | c :: rest => do
    Naming.checkColumnName c.name
    if c.name ∈ seen then throw (.duplicateColumn c.name)
    checkColumnNames (c.name :: seen) rest

/-- Checks that static columns have rows to be shared by. -/
def checkStatic (compact : Bool) (k : KeySplit) : Except SchemaError Unit :=
  if !k.hasStatic then .ok ()
  else if compact then .error .staticWithCompactStorage
  else if k.clustering.isEmpty then .error .staticWithoutClustering
  else .ok ()

/-- Key columns with their positions, if keys of their part are composites. -/
def keyRoles (role : ColumnRole) (isComposite : Bool) (columns : List ColumnDeclaration) :
    List Column :=
  columns.mapIdx fun i c => ⟨c.name, c.type, role, if isComposite then some i else none⟩

/-- A column outside the key.  `valueColumn` is the value column of a dense table, and `slot` the
place of the column name in composite cell names. -/
def valueRole (valueColumn : Option String) (slot : Option Nat) (c : ColumnDeclaration) : Column :=
  if valueColumn = some c.name then ⟨c.name, c.type, .compactValue, none⟩
  else ⟨c.name, c.type, if c.isStatic then .static else .regular, slot⟩

/-- The layout of the table, or the first thing that is wrong with the definition. -/
def compile (d : TableDefinition) : Except SchemaError TableSchema := do
  Naming.checkName d.name
  checkColumnNames [] d.columns
  d.properties.check
  let split ← d.keySplit
  if split.hasCounters && 0 < d.properties.defaultTimeToLive then
    throw .counterWithDefaultTtl
  checkCounters (split.remaining.map (·.type))
  checkStatic d.compactStorage split
  let collections := Bindings.ofList (split.multiCell.map fun c => (c.name, c.type))
  let some cellLayout := CellLayout.choose? split.clusteringTypes d.compactStorage collections
    | throw .collectionWithCompactStorage
  let default ←
    DefaultValue.resolve d.compactStorage split.clustering.length split.remaining
  let keyLayout := KeyLayout.ofTypes split.partitionKeyTypes
  let slot := if cellLayout.isCompound then some split.clustering.length else none
  return {
    keyspace := d.keyspace
    name := d.name
    keyLayout
    cellLayout
    defaultType := default.type
    isDense := cellLayout.isDense
    isCompact := d.compactStorage
    columns :=
      keyRoles .partitionKey keyLayout.isComposite split.partitionKey
        ++ keyRoles .clusteringKey cellLayout.isCompound split.clustering
        ++ split.remaining.map
          (valueRole (default.compactValue.bind CompactValue.name?) slot)
    compactValue := default.compactValue
    properties := d.properties }

end TableDefinition

end WideColumn
