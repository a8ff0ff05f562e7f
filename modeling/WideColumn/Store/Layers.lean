import WideColumn.Bindings
import WideColumn.Store.Cell

/-!
# Layers of cells

The cells of a table lie in layers: the memtable takes all writes, memtables that a flush has
taken away come next, and flushed segments are the oldest.  A cell of one name may lie in several
layers; `lookup` and `merged` reconcile them with `Cell.supersedes`.
-/

namespace WideColumn

/-- The cells of one partition by name. -/
abbrev Partition := Bindings Bytes Cell

/-- Partitions by key. -/
abbrev Partitions := Bindings Bytes Partition

instance : DecidableEq Partitions := inferInstanceAs (DecidableEq (List (Bytes × Partition)))

namespace Partition

/-- The cell that counts after another one of its name has come. -/
def absorb (p : Partition) (c : Cell) : Partition :=
  match p.find? c.name with
  | some old => if c.supersedes old then p.insert c.name c else p
  | none => p.insert c.name c

/-- Reconciles the cells of two partitions. -/
def merge (p q : Partition) : Partition :=
  q.values.foldl absorb p

/-- The partition with other cells in place of its own. -/
def extend (p q : Partition) : Partition :=
  q.foldl (fun p (name, c) => p.insert name c) p

end Partition

namespace Partitions

/-- The cells of a partition; none if it is not there. -/
def partition (ps : Partitions) (key : Bytes) : Partition := (ps.find? key).getD []

/-- Reconciles two sets of partitions. -/
def merge (ps qs : Partitions) : Partitions :=
  qs.foldl (fun ps (key, q) => ps.insert key ((ps.partition key).merge q)) ps

/-- How many cells there are. -/
def cellCount (ps : Partitions) : Nat := ps.values.foldl (fun n p => n + p.length) 0

/-- What is left without the cells written at or before a time; partitions that become empty
go. -/
def discard (ps : Partitions) (timestamp : Int) : Partitions :=
  (ps.mapValues fun p => p.filter fun (_, c) => timestamp < c.timestamp).filter (!·.2.isEmpty)

end Partitions

/-- The layers of a table. -/
structure Layers where
  memtable : Partitions := []
  /-- Memtables that are being flushed, by generation, oldest first. -/
  flushing : List (Nat × Partitions) := []
  /-- Flushed segments, oldest first. -/
  segments : List Partitions := []
  nextGeneration : Nat := 0
deriving DecidableEq, Repr

namespace Layers

/-- All layers, oldest first. -/
def sources (l : Layers) : List Partitions :=
  l.segments ++ l.flushing.map Prod.snd ++ [l.memtable]

/-- The cell that counts of two that may be there. -/
def reconcile : Option Cell → Option Cell → Option Cell
  | current, none => current
  | none, some c => some c
  | some current, some c => if c.supersedes current then some c else some current

/-- The cell of a name that counts. -/
def lookup (l : Layers) (key name : Bytes) : Option Cell :=
  l.sources.foldl (fun current ps => reconcile current ((ps.partition key).find? name)) none

/-- All cells that count. -/
def merged (l : Layers) : Partitions :=
  l.sources.foldl Partitions.merge []

/-- The cells of a partition that count, by name. -/
def partition (l : Layers) (key : Bytes) : Partition :=
  l.sources.foldl (fun p ps => p.merge (ps.partition key)) []

/-- Stores cells of a partition in the memtable, in place of those of their names. -/
def store (l : Layers) (key : Bytes) (cells : Partition) : Layers :=
  if cells.isEmpty then l
  else { l with memtable := l.memtable.insert key ((l.memtable.partition key).extend cells) }

/-- Takes the memtable away for a flush; also the flush's generation. -/
def takeMemtable (l : Layers) : Nat × Layers :=
  (l.nextGeneration,
    { l with
      memtable := []
      flushing := l.flushing ++ [(l.nextGeneration, l.memtable)]
      nextGeneration := l.nextGeneration + 1 })

/-- Makes the memtable of a flush the newest segment; `none` if it is not being flushed. -/
def finishFlush? (l : Layers) (generation : Nat) : Option Layers :=
  match l.flushing.find? (·.1 = generation) with
  | none => none
  | some (_, ps) =>
    some { l with
      flushing := l.flushing.eraseP (·.1 = generation)
      segments := l.segments ++ [ps] }

/-- What is left without the cells written at or before a time; segments that become empty
go. -/
def discard (l : Layers) (timestamp : Int) : Layers :=
  { l with
    memtable := l.memtable.discard timestamp
    flushing := l.flushing.map fun (generation, ps) => (generation, ps.discard timestamp)
    segments := (l.segments.map (·.discard timestamp)).filter (!·.isEmpty) }

end Layers

end WideColumn
