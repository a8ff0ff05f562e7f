import WideColumn.Index.Basic
import WideColumn.Store.Cell

/-!
# Index entries

Where a base cell is recorded in an index: under its indexed value, in a cell named by the key of
its row and the clustering values that the index keeps.  `covers` says which base cells an index
records, and `entry` where.
-/

namespace WideColumn

/-- The place of a base cell in an index table. -/
structure IndexEntry where
  /-- The indexed value. -/
  partitionKey : Bytes
  /-- The name of the entry's cell, which tells the base row. -/
  cellName : Bytes
deriving DecidableEq, Repr

namespace SecondaryIndex

/-- Does the index record a base cell? -/
def covers (x : SecondaryIndex) (c : Cell) : Bool :=
  match x.base.cellLayout.decode c.name with
  | .error _ => false
  | .ok name =>
    match x.target with
    | .regular => name.column = some x.column && !name.isStatic && name.element.isNone
    | .static => name.column = some x.column && name.isStatic && name.element.isNone
    | .compactValue => x.base.cellLayout.isDense
    | .partitionKey _ | .clusteringKey _ => !name.isStatic

/-- The error for a cell that lacks a part of its entry. -/
def missing (x : SecondaryIndex) : EngineError := .index (.missingComponent x.column)

/-- The value under which a cell is recorded. -/
def recordedValue (x : SecondaryIndex) (key : Bytes) (name : CellName) (c : Cell) :
    Except EngineError Bytes :=
  match x.target with
  | .partitionKey none => .ok key
  | .partitionKey (some i) => do
    let parts ← (x.base.keyLayout.decode key).mapError .encoding
    match parts[i]? with
    | some value => return value
    | none => throw x.missing
  | .clusteringKey position =>
    match name.clustering[position]? with
    | some value => .ok value
    | none => .error x.missing
  | .regular | .static | .compactValue => .ok c.value

/-- The name of the cell that records a base cell. -/
def entryCellName (x : SecondaryIndex) (key : Bytes) (name : CellName) : Except EngineError Bytes :=
  let layout := x.base.cellLayout
  let kept := x.target.keptClustering layout
  if !layout.isCompound then .ok key
  else if name.clustering.length < kept then .error x.missing
  else (Composite.encode ⟨key :: name.clustering.take kept, false⟩).mapError .encoding

/-- The place of a base cell in the index table. -/
def entry (x : SecondaryIndex) (key : Bytes) (c : Cell) : Except EngineError IndexEntry := do
  let name ← (x.base.cellLayout.decode c.name).mapError .encoding
  return { partitionKey := ← x.recordedValue key name c, cellName := ← x.entryCellName key name }

end SecondaryIndex

end WideColumn
