import WideColumn.Index.Target
import WideColumn.Schema.Naming
import WideColumn.Value.Display

/-!
# Index tables

An index is kept in a table of its own, whose schema follows from the base table: it is
partitioned by the indexed value, and its cells are named by the key of the base row, followed by
the clustering values that the entry keeps.  A `SecondaryIndex` holds an index with this schema.
-/

namespace WideColumn

/-- An index on a column, with the schema of the table that stores it. -/
structure SecondaryIndex where
  base : TableSchema
  column : String
  indexName : Option String
  target : IndexTarget
  indexSchema : TableSchema
deriving DecidableEq, Repr

/-- The comparison of an index expression. -/
inductive IndexOperator where
  | eq | lt | lte | gt | gte | contains | containsKey
deriving DecidableEq, Repr

namespace IndexOperator

/-- The sign of a comparison. -/
def sign : IndexOperator → String
  | eq => "="
  | lt => "<"
  | lte => "<="
  | gt => ">"
  | gte => ">="
  | contains => "CONTAINS"
  | containsKey => "CONTAINS KEY"

/-- The comparison that a word stands for. -/
def ofWord? : String → Option IndexOperator
  | "eq" => some eq
  | "lt" => some lt
  | "lte" => some lte
  | "gt" => some gt
  | "gte" => some gte
  | "contains" => some contains
  | "contains_key" => some containsKey
  | _ => none

end IndexOperator

namespace SecondaryIndex

/-! ### The index table -/

/-- The name of the column that holds the key of the base row. -/
def rowKeyColumn : String := "partition_key"

/-- The type of base keys in index entries; composite keys are plain bytes there. -/
def rowKeyType (base : TableSchema) : ColumnType :=
  match base.keyLayout with
  | .single t => t.base
  | .composite _ => .blob

/-- The clustering columns of the index table that come from the base table. -/
def keptColumns (base : TableSchema) (types : List ColumnType) : List Column :=
  (base.clusteringColumns.zip types).mapIdx fun i (c, t) =>
    ⟨c.name, t, .clusteringKey, some (i + 1)⟩

/-- The schema of the table for an index on a column of a type. -/
def indexTable (base : TableSchema) (column name : String) (target : IndexTarget)
    (indexedType : ColumnType) : TableSchema :=
  let keyType := rowKeyType base
  let kept :=
    base.cellLayout.clusteringTypes.take (target.keptClustering base.cellLayout)
  let isCompound := base.cellLayout.isCompound
  { keyspace := base.keyspace
    name := base.name ++ "." ++ name
    keyLayout := .single indexedType
    cellLayout := if isCompound then .compoundDense (keyType :: kept) else .simpleDense keyType
    defaultType := .blob
    isDense := true
    isCompact := true
    columns :=
      ⟨column, indexedType, .partitionKey, none⟩
        :: ⟨rowKeyColumn, keyType, .clusteringKey, if isCompound then some 0 else none⟩
        :: if isCompound then keptColumns base kept else []
    compactValue := some .empty
    properties := {} }

/-- The index on a column of a base table, by default named like the column. -/
def ofColumn (base : TableSchema) (column : String) (indexName : Option String) :
    Except EngineError SecondaryIndex := do
  match indexName with
  | some name => (Naming.checkName name).mapError .schema
  | none => pure ()
  let target ← (IndexTarget.resolve base column).mapError .index
  match base.column? column with
  | none => throw (.index (.notFound column))
  | some c =>
    let indexSchema := indexTable base column (indexName.getD column) target c.type.base
    return { base, column, indexName, target, indexSchema }

/-- The same index over another schema of its base table. -/
def rebased (x : SecondaryIndex) (base : TableSchema) : Except EngineError SecondaryIndex :=
  ofColumn base x.column x.indexName

/-! ### Questions -/

/-- The name of the index. -/
def name (x : SecondaryIndex) : String := x.indexName.getD x.column

/-- The name of the index table with its keyspace. -/
def id (x : SecondaryIndex) : String := x.indexSchema.id

/-- The type of the indexed values. -/
def indexedType (x : SecondaryIndex) : ColumnType :=
  (x.indexSchema.keyLayout.types.headD .blob).base

/-- A comparison with a value, in words. -/
def expressionText (x : SecondaryIndex) (operator : IndexOperator) (value : Bytes) : String :=
  "'" ++ x.base.name ++ "." ++ x.column ++ " " ++ operator.sign ++ " "
    ++ x.indexedType.display value ++ "'"

end SecondaryIndex

end WideColumn
