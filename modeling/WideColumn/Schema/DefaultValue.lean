import WideColumn.Schema.Definition

/-!
# Values without a column of their own

The type of values in cells that belong to no declared column, and the value column of dense
tables.  Both follow from three things: whether the table is compact, how many clustering
columns it has, and which columns are no key columns.
-/

namespace WideColumn

/-- The value column of a compact table. -/
inductive CompactValue where
  /-- The table was declared without one. -/
  | empty
  | column (name : String)
deriving DecidableEq, Repr

/-- The name of the value column, if there is one. -/
def CompactValue.name? : CompactValue → Option String
  | empty => none
  | column name => some name

/-- What is known of values without a column of their own. -/
structure DefaultValue where
  type : ColumnType
  compactValue : Option CompactValue := none
deriving DecidableEq, Repr

namespace DefaultValue

/-- Counters if one of the columns is a counter, and else plain bytes. -/
def counterOrBlob (columns : List ColumnDeclaration) : ColumnType :=
  if columns.any (·.type.isCounter) then .counter else .blob

/-- The default value of a table with `clusteringCount` clustering columns; `remaining` are the
columns outside its key. -/
def resolve (compact : Bool) (clusteringCount : Nat) (remaining : List ColumnDeclaration) :
    Except SchemaError DefaultValue :=
  match compact, clusteringCount, remaining with
  | false, _, columns => .ok { type := counterOrBlob columns }
  | true, 0, [] => .ok { type := .blob, compactValue := some .empty }
  | true, 0, [c] => .ok { type := c.type }
  | true, 0, columns => .ok { type := counterOrBlob columns }
  | true, 1, [] => .ok { type := .text, compactValue := some .empty }
  | true, _, [] => .ok { type := .blob, compactValue := some .empty }
  | true, _, [c] => .ok { type := c.type, compactValue := some (.column c.name) }
  | true, _, columns => .error (.tooManyCompactColumns (columns.map (·.name)))

end DefaultValue

end WideColumn
