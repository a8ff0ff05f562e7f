import WideColumn.ColumnType.Basic
import WideColumn.Schema.Properties

/-!
# Table definitions

A table as it is declared, before anything about it is checked: its columns in the order of
their declaration, its primary keys (a list, so that none or several can be reported), its
clustering columns and their directions.

The functions `withColumn`, `withPartitionKey`, … each add one declaration, so that a definition
can be written as a chain of them from `empty`.
-/

namespace WideColumn

/-- The order of a clustering column. -/
inductive Direction where
  | asc | desc
deriving DecidableEq, Repr

/-- A declared column. -/
structure ColumnDeclaration where
  name : String
  type : ColumnType
  isStatic : Bool := false
deriving DecidableEq, Repr

/-- The direction asked for one clustering column. -/
structure OrderEntry where
  column : String
  direction : Direction := .asc
deriving DecidableEq, Repr

/-- A table as declared. -/
structure TableDefinition where
  keyspace : String := ""
  name : String := ""
  columns : List ColumnDeclaration := []
  /-- The partition-key columns of each primary key that was declared. -/
  partitionKeys : List (List String) := []
  clusteringColumns : List String := []
  clusteringOrder : List OrderEntry := []
  compactStorage : Bool := false
  properties : TableProperties := {}
deriving DecidableEq, Repr

/-- Is the column a collection whose elements are cells of their own? -/
def ColumnDeclaration.isMultiCell (c : ColumnDeclaration) : Bool := c.type.isMultiCell

namespace TableDefinition

/-- The first declaration of a column. -/
def column? (d : TableDefinition) (name : String) : Option ColumnDeclaration :=
  d.columns.find? (·.name = name)

/-- The names of the columns that are declared static. -/
def staticColumns (d : TableDefinition) : List String :=
  (d.columns.filter (·.isStatic)).map (·.name)

/-! ### Declaring step by step -/

/-- A definition with nothing but its name. -/
def empty (keyspace name : String) : TableDefinition := { keyspace, name }

/-- Declares a column. -/
def withColumn (d : TableDefinition) (c : ColumnDeclaration) : TableDefinition :=
  { d with columns := d.columns ++ [c] }

/-- Declares a primary key by its partition-key columns. -/
def withPartitionKey (d : TableDefinition) (names : List String) : TableDefinition :=
  { d with partitionKeys := d.partitionKeys ++ [names] }

/-- Declares the next clustering column. -/
def withClusteringColumn (d : TableDefinition) (name : String) : TableDefinition :=
  { d with clusteringColumns := d.clusteringColumns ++ [name] }

/-- Declares the direction of a clustering column. -/
def withOrder (d : TableDefinition) (entry : OrderEntry) : TableDefinition :=
  { d with clusteringOrder := d.clusteringOrder ++ [entry] }

/-- Asks for compact storage. -/
def withCompactStorage (d : TableDefinition) : TableDefinition :=
  { d with compactStorage := true }

/-- Sets all properties. -/
def withProperties (d : TableDefinition) (p : TableProperties) : TableDefinition :=
  { d with properties := p }

/-- Sets the default expiry. -/
def withTimeToLive (d : TableDefinition) (seconds : UInt32) : TableDefinition :=
  { d with properties := { d.properties with defaultTimeToLive := seconds } }

/-- Sets the comment. -/
def withComment (d : TableDefinition) (comment : String) : TableDefinition :=
  { d with properties := { d.properties with comment } }

end TableDefinition

end WideColumn
