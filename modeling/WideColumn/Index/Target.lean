import WideColumn.Error
import WideColumn.Json.Basic
import WideColumn.Schema.Table

/-!
# What an index indexes

The part that an indexed column plays in its base table decides where the indexed value is found
in a base cell and how much of the cell's row an index entry keeps.
-/

namespace WideColumn

/-- The part of an indexed column in its base table. -/
inductive IndexTarget where
  /-- A partition-key column; `component` is its place in a composite key. -/
  | partitionKey (component : Option Nat)
  | clusteringKey (position : Nat)
  | regular
  | static
  | compactValue
deriving DecidableEq, Repr

namespace IndexTarget

/-- Why a column cannot be indexed, if so. -/
def obstacle? (c : Column) : Option IndexabilityProblem :=
  if c.type.isMultiCell then some .multiCell
  else if c.type.isCounter then some .counter
  else none

/-- The part of a column in a base table. -/
def resolve (base : TableSchema) (column : String) : Except IndexError IndexTarget :=
  match base.column? column with
  | none => .error (.notIndexable base.id column .noSuchColumn)
  | some c =>
    match obstacle? c with
    | some problem => .error (.notIndexable base.id column problem)
    | none =>
      match c.role with
      | .partitionKey => .ok (partitionKey c.componentIndex)
      | .clusteringKey =>
        match base.clusteringColumns.findIdx? (·.name = column) with
        | some position => .ok (clusteringKey position)
        | none => .error (.notFound (base.id ++ "." ++ column))
      | .regular => .ok regular
      | .static => .ok static
      | .compactValue => .ok compactValue

/-- How many of a base cell's clustering values its index entry keeps: enough to find the row,
and none where base cells have no composite names. -/
def keptClustering (t : IndexTarget) (base : CellLayout) : Nat :=
  if !base.isCompound then 0
  else match t with
    | clusteringKey position => position + 1
    | static => 0
    | partitionKey _ | regular | compactValue => base.clusteringTypes.length

/-- The written target. -/
def toJson : IndexTarget → Json
  | partitionKey component =>
    .object [("kind", .text "partition_key"), ("component", Json.ofOption Json.ofNat component)]
  | clusteringKey position =>
    .object [("kind", .text "clustering_key"), ("position", Json.ofNat position)]
  | regular => .object [("kind", .text "regular")]
  | static => .object [("kind", .text "static")]
  | compactValue => .object [("kind", .text "compact_value")]

end IndexTarget

end WideColumn
