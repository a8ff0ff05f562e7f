import WideColumn.CellName.Layout
import WideColumn.Schema.DefaultValue

/-!
# Resolved tables

A table with its physical layout: how its keys and its cell names are made up, which part each
column plays, and the type of values without a column.  A `TableSchema` is never changed in
place; `Schema.Evolution` makes new ones out of it.
-/

namespace WideColumn

/-- The part that a column plays in the layout of its table. -/
inductive ColumnRole where
  | partitionKey | clusteringKey | static | regular | compactValue
deriving DecidableEq, Repr

/-- Does the column belong to the primary key? -/
def ColumnRole.isKey : ColumnRole → Bool
  | partitionKey | clusteringKey => true
  | _ => false

/-- A column of a resolved table. -/
structure Column where
  name : String
  type : ColumnType
  role : ColumnRole
  /-- The column's position in the composite that it is part of: of the key for a
  partition-key column, of the cell name for any other; for a column outside the key it is the
  place of the column name. -/
  componentIndex : Option Nat
deriving DecidableEq, Repr

/-- A table with its layout. -/
structure TableSchema where
  keyspace : String
  name : String
  keyLayout : KeyLayout
  cellLayout : CellLayout
  /-- The type of values without a column of their own. -/
  defaultType : ColumnType
  isDense : Bool
  isCompact : Bool
  /-- Partition key, clustering columns, then the others in the order of declaration. -/
  columns : List Column
  compactValue : Option CompactValue
  properties : TableProperties
deriving DecidableEq, Repr

namespace TableSchema

/-- The name of the table with its keyspace. -/
def id (s : TableSchema) : String := s.keyspace ++ "." ++ s.name

/-! ### Columns -/

/-- The column with a name. -/
def column? (s : TableSchema) (name : String) : Option Column :=
  s.columns.find? (·.name = name)

/-- The part that a column plays. -/
def role? (s : TableSchema) (name : String) : Option ColumnRole :=
  (s.column? name).map (·.role)

/-- The columns that play a part. -/
def columnsOf (s : TableSchema) (role : ColumnRole) : List Column :=
  s.columns.filter (·.role = role)

/-- The partition-key columns. -/
def partitionKeyColumns (s : TableSchema) : List Column := s.columnsOf .partitionKey

/-- The clustering columns. -/
def clusteringColumns (s : TableSchema) : List Column := s.columnsOf .clusteringKey

/-- The regular and static columns. -/
def valueColumns (s : TableSchema) : List Column :=
  s.columns.filter fun c => c.role = .regular || c.role = .static

/-- The value column of a dense table. -/
def compactValueColumn? (s : TableSchema) : Option Column :=
  s.columns.find? (·.role = .compactValue)

/-- Has the table static columns? -/
def hasStaticColumns (s : TableSchema) : Bool := s.columns.any (·.role = .static)

/-- Does the table hold counters? -/
def isCounter (s : TableSchema) : Bool :=
  s.defaultType.isCounter || s.columns.any fun c => !c.role.isKey && c.type.isCounter

end TableSchema

end WideColumn
