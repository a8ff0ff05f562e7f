import WideColumn.Schema.Definition

/-!
# Key columns and the rest

Splits the columns of a definition into partition key, clustering columns and the remaining
ones, and checks the primary key on the way.  A clustering column that is asked for in
descending order carries a descending type from here on.
-/

namespace WideColumn

/-- The columns of a definition by the part that the primary key gives them. -/
structure KeySplit where
  partitionKey : List ColumnDeclaration
  /-- The clustering columns in key order. -/
  clustering : List ColumnDeclaration
  /-- All other columns in the order of their declaration. -/
  remaining : List ColumnDeclaration
deriving DecidableEq, Repr

namespace KeySplit

/-- The types of the partition-key columns. -/
def partitionKeyTypes (k : KeySplit) : List ColumnType := k.partitionKey.map (·.type)

/-- The types of the clustering columns. -/
def clusteringTypes (k : KeySplit) : List ColumnType := k.clustering.map (·.type)

/-- Is one of the remaining columns a counter? -/
def hasCounters (k : KeySplit) : Bool := k.remaining.any (·.type.isCounter)

/-- Is one of the remaining columns static? -/
def hasStatic (k : KeySplit) : Bool := k.remaining.any (·.isStatic)

/-- The remaining columns that are multi-cell collections. -/
def multiCell (k : KeySplit) : List ColumnDeclaration :=
  k.remaining.filter (·.isMultiCell)

end KeySplit

namespace TableDefinition

/-! ### The clustering order -/

/-- Checks that the entries name the columns `expected` one by one.  `clustering` are all
clustering columns and `named` those that came before. -/
def checkOrder (clustering : List String) :
    (expected named : List String) → List OrderEntry → Except SchemaError Unit
  | [], _, [] => .ok ()
  | column :: _, _, [] => .error (.missingClusteringOrder column)
  | expected, named, entry :: rest =>
    if entry.column ∉ clustering then .error (.orderOnNonClusteringColumn entry.column)
    else if entry.column ∈ named then .error (.repeatedClusteringOrder entry.column)
    else match expected with
      | column :: expected =>
        if column = entry.column then checkOrder clustering expected (entry.column :: named) rest
        else .error (.clusteringOrderMismatch column entry.column)
      -- Every clustering column was named before, so the test above has failed already.
      | [] => .error (.repeatedClusteringOrder entry.column)

/-- The direction of each clustering column.  An empty directive leaves all of them ascending;
any other must name every clustering column once, in key order. -/
def clusteringDirections (d : TableDefinition) : Except SchemaError (List Direction) :=
  if d.clusteringOrder.isEmpty then .ok (d.clusteringColumns.map fun _ => .asc)
  else do
    checkOrder d.clusteringColumns d.clusteringColumns [] d.clusteringOrder
    return d.clusteringOrder.map (·.direction)

/-! ### The primary key -/

/-- A column that may be part of the primary key; `taken` are the parts before it. -/
def keyColumn (d : TableDefinition) (taken : List String) (name : String) :
    Except SchemaError ColumnDeclaration :=
  match d.column? name with
  | none => .error (.unknownKeyColumn name)
  | some c =>
    if name ∈ taken then .error (.repeatedKeyColumn name)
    else if c.isMultiCell then .error (.collectionKeyColumn name)
    else if c.type.isCounter then .error (.counterKeyColumn name)
    else if c.isStatic then .error (.staticKeyColumn name)
    else .ok c

/-- The columns with these names, each a new part of the primary key. -/
def keyColumns (d : TableDefinition) (taken : List String) :
    List String → Except SchemaError (List ColumnDeclaration)
  | [] => .ok []
  | name :: rest => do
    let c ← d.keyColumn taken name
    return c :: (← keyColumns d (name :: taken) rest)

/-- The partition-key columns of the one primary key. -/
def partitionKeyNames (d : TableDefinition) : Except SchemaError (List String) :=
  match d.partitionKeys with
  | [] => .error .missingPrimaryKey
  | [[]] => .error .emptyPartitionKey
  | [names] => .ok names
  | _ => .error .multiplePrimaryKeys

/-- The column in the order asked for. -/
def directed (c : ColumnDeclaration) : Direction → ColumnDeclaration
  | .asc => c
  | .desc => { c with type := c.type.descend }

/-- The columns whose names are not taken, each name once. -/
def untaken (taken : List String) : List ColumnDeclaration → List ColumnDeclaration
  | [] => []
  | c :: rest =>
    if c.name ∈ taken then untaken taken rest else c :: untaken (c.name :: taken) rest

/-- Splits the columns and checks the primary key. -/
def keySplit (d : TableDefinition) : Except SchemaError KeySplit := do
  let partitionNames ← d.partitionKeyNames
  let partitionKey ← d.keyColumns [] partitionNames
  let clustering ← d.keyColumns partitionNames d.clusteringColumns
  let directions ← d.clusteringDirections
  return {
    partitionKey
    clustering := List.zipWith directed clustering directions
    remaining := untaken (partitionNames ++ d.clusteringColumns) d.columns }

end TableDefinition

end WideColumn
