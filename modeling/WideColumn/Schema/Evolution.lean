import WideColumn.Schema.Compilation

/-!
# Changing tables

The four changes that a table allows after it was made: another column, one column less, a
wider type for a column, other properties.  Each gives a new schema and keeps what is stored
readable: a dropped collection stays recorded in the layout of cell names.
-/

namespace WideColumn

/-- A change to a table. -/
inductive SchemaChange where
  | addColumn (column : ColumnDeclaration)
  | dropColumn (name : String)
  | retypeColumn (name : String) (type : ColumnType)
  | setProperties (properties : TableProperties)
deriving DecidableEq, Repr

namespace TableSchema

/-- The error for a change that this table does not allow. -/
def refuse (s : TableSchema) (problem : AlterationProblem) : SchemaError :=
  .invalidAlteration s.id problem

/-! ### Columns come and go -/

/-- Checks that a new static column has rows to be shared by. -/
def checkNewStatic (s : TableSchema) (c : ColumnDeclaration) : Except SchemaError Unit :=
  if !c.isStatic then .ok ()
  else if s.isCompact then .error .staticWithCompactStorage
  else if s.cellLayout.clusteringTypes.isEmpty then .error .staticWithoutClustering
  else .ok ()

/-- The layout of cell names with room for a new column. -/
def layoutWith (s : TableSchema) (c : ColumnDeclaration) : Except SchemaError CellLayout :=
  if !c.isMultiCell then .ok s.cellLayout
  else if s.isCompact then .error .collectionWithCompactStorage
  else match s.cellLayout.withCollection? c.name c.type with
    | some layout => .ok layout
    | none => .error (s.refuse .noRoomForCollections)

/-- The place of the column name in cell names, if they are composites. -/
def columnSlot (s : TableSchema) : Option Nat :=
  if s.cellLayout.isCompound then some s.cellLayout.clusteringTypes.length else none

/-- The table with one more regular or static column. -/
def addColumn (s : TableSchema) (c : ColumnDeclaration) : Except SchemaError TableSchema := do
  Naming.checkColumnName c.name
  if (s.column? c.name).isSome then throw (.duplicateColumn c.name)
  if s.isDense then throw (s.refuse .denseTable)
  s.checkNewStatic c
  let cellLayout ← s.layoutWith c
  if c.type.isCounter && 0 < s.properties.defaultTimeToLive then throw .counterWithDefaultTtl
  checkCounters (s.valueColumns.map (·.type) ++ [c.type])
  let column : Column := ⟨c.name, c.type, if c.isStatic then .static else .regular, s.columnSlot⟩
  return { s with
    cellLayout
    defaultType := if !s.isCompact && c.type.isCounter then .counter else s.defaultType
    columns := s.columns ++ [column] }

/-- The table without a regular or static column. -/
def dropColumn (s : TableSchema) (name : String) : Except SchemaError TableSchema :=
  match s.column? name with
  | none => .error (.columnNotFound name)
  | some c =>
    if c.role.isKey then .error (s.refuse (.keyColumn name))
    else if s.isCompact then .error (s.refuse .compactTable)
    else .ok { s with columns := s.columns.filter (·.name ≠ name) }

/-! ### Types widen -/

/-- Checks that the values of a column stay good under a new type. -/
def checkRetype (s : TableSchema) (c : Column) (type : ColumnType) : Except SchemaError Unit :=
  let previous := c.type.base
  if previous.isMultiCell || type.isMultiCell then .error (s.refuse (.collectionColumn c.name))
  else if previous.isCounter != type.isCounter then .error (s.refuse (.counterChange c.name))
  else
    let compatible :=
      if c.role = .clusteringKey then type.keepsOrderOf previous else type.acceptsValuesOf previous
    if compatible then .ok ()
    else .error (s.refuse (.incompatibleType type.toText previous.toText c.name))

/-- The columns with another type for the first one of a name. -/
def retypeFirst (name : String) (type : ColumnType) : List Column → List Column
  | [] => []
  | c :: rest => if c.name = name then { c with type } :: rest else c :: retypeFirst name type rest

/-- The same table with another type for one column and all that follows from it. -/
def retyped (s : TableSchema) (c : Column) (type : ColumnType) : TableSchema :=
  match c.role with
  | .partitionKey =>
    let types := s.partitionKeyColumns.map fun k => if k.name = c.name then type else k.type
    { s with
      keyLayout := KeyLayout.ofTypes types
      columns := retypeFirst c.name type s.columns }
  | .clusteringKey =>
    let stored := if c.type.isDescending then type.descend else type
    { s with
      cellLayout :=
        match s.clusteringColumns.findIdx? (·.name = c.name) with
        | some position => s.cellLayout.withClusteringType position stored
        | none => s.cellLayout
      columns := retypeFirst c.name stored s.columns }
  | .compactValue =>
    { s with defaultType := type, columns := retypeFirst c.name type s.columns }
  | .regular | .static =>
    { s with
      -- A compact table with a single column takes that column's type as its default.
      defaultType := if s.isCompact && s.valueColumns.length == 1 then type else s.defaultType
      columns := retypeFirst c.name type s.columns }

/-- The table with another type for a column, which must accept all that is stored. -/
def retypeColumn (s : TableSchema) (name : String) (type : ColumnType) :
    Except SchemaError TableSchema :=
  match s.column? name with
  | none => .error (.columnNotFound name)
  | some c => do
    s.checkRetype c type
    return s.retyped c type

/-! ### Properties change -/

/-- The table with other properties. -/
def setProperties (s : TableSchema) (p : TableProperties) : Except SchemaError TableSchema := do
  p.check
  if s.isCounter && 0 < p.defaultTimeToLive then throw .counterWithDefaultTtl
  return { s with properties := p }

/-- The table after a change. -/
def change (s : TableSchema) : SchemaChange → Except SchemaError TableSchema
  | .addColumn c => s.addColumn c
  | .dropColumn name => s.dropColumn name
  | .retypeColumn name type => s.retypeColumn name type
  | .setProperties p => s.setProperties p

end TableSchema

end WideColumn
