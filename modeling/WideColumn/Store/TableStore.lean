import WideColumn.Schema.Table
import WideColumn.Sorting
import WideColumn.Store.Flush
import WideColumn.Store.Layers

/-!
# Stored tables

A table in memory: its schema, its layers of cells, and whether it was retired.  Reads reconcile
the layers.  A write is checked as a whole, shows each change that readers will see to a hook,
and is stored only if the hook accepts all of them.  A flush is issued by `issueFlush` and
finished by `finishFlush` at any later time.
-/

namespace WideColumn

/-- A stored table. -/
structure TableStore where
  id : String
  schema : TableSchema
  layers : Layers := {}
  isInvalidated : Bool := false
deriving DecidableEq, Repr

/-- Is shown each change before it is stored, with the key of its partition.  A hook works on a
state of its own, which stays as the hook left it even if the write is refused. -/
abbrev WriteHook (σ : Type) := Bytes → Cell.Change → ExceptT EngineError (StateM σ) Unit

/-- The hook that does nothing. -/
def WriteHook.none {σ : Type} : WriteHook σ := fun _ _ => pure ()

namespace TableStore

/-- An empty table. -/
def ofSchema (schema : TableSchema) : TableStore := { id := schema.id, schema }

/-! ### Reading -/

/-- Cells in the order of their names. -/
def sorted (s : TableStore) (cells : List Cell) : List Cell :=
  sortBy (fun a b => s.schema.cellLayout.order a.name b.name) cells

/-- The cells of a partition, deletions included. -/
def read (s : TableStore) (key : Bytes) : List Cell :=
  s.sorted (s.layers.partition key).values

/-- The cells of a partition that are live at `now`. -/
def liveCells (s : TableStore) (now : Int) (key : Bytes) : List Cell :=
  (s.read key).filter (·.isLive now)

/-- The cell of a name. -/
def get? (s : TableStore) (key name : Bytes) : Option Cell := s.layers.lookup key name

/-- All cells with the keys of their partitions. -/
def scan (s : TableStore) : List (Bytes × Cell) :=
  s.layers.merged.flatMap fun (key, p) => (s.sorted p.values).map (key, ·)

/-- The mean number of cells in a partition, rounded down. -/
def meanCells (s : TableStore) : Nat :=
  s.layers.merged.cellCount / s.layers.merged.length

/-- The number of cells in the memtable. -/
def memtableCells (s : TableStore) : Nat := s.layers.memtable.cellCount

/-- The number of flushed segments. -/
def segmentCount (s : TableStore) : Nat := s.layers.segments.length

/-! ### Writing -/

/-- Refuses to work on a retired table. -/
def checkValid (s : TableStore) : Except StorageError Unit :=
  if s.isInvalidated then .error (.invalidated s.id) else .ok ()

/-- Checks that the names of cells can be unpacked. -/
def checkNames (layout : CellLayout) : List Cell → Except EncodingError Unit
  | [] => .ok ()
  | c :: rest => do
    let _ ← layout.decode c.name
    checkNames layout rest

/-- Checks that a write fits the table. -/
def checkWrite (s : TableStore) (key : Bytes) (mutation : List Cell) : Except EngineError Unit := do
  s.checkValid.mapError .storage
  let _ ← (s.schema.keyLayout.decode key).mapError .encoding
  (checkNames s.schema.cellLayout mutation).mapError .encoding

/-- The cells of a write that count, after the hook has seen what they change.  `stored` are the
cells before the write and `pending` those of the write that come earlier. -/
def acceptCells {σ : Type} (now : Int) (hook : Cell.Change → ExceptT EngineError (StateM σ) Unit)
    (stored : Bytes → Option Cell) (pending : Partition) :
    List Cell → ExceptT EngineError (StateM σ) Partition
  | [] => pure pending
  | c :: rest =>
    match c.effect now ((pending.find? c.name).or (stored c.name)) with
    | .superseded => acceptCells now hook stored pending rest
    | .unseen => acceptCells now hook stored (pending.insert c.name c) rest
    | .visible change => do
      hook change
      acceptCells now hook stored (pending.insert c.name c) rest

/-- The table after a write to one partition. -/
def apply {σ : Type} (s : TableStore) (now : Int) (hook : WriteHook σ) (key : Bytes)
    (mutation : List Cell) : ExceptT EngineError (StateM σ) TableStore := do
  match s.checkWrite key mutation with
  | .error e => throw e
  | .ok () =>
    let cells ← acceptCells now (hook key) (s.layers.lookup key) [] mutation
    return { s with layers := s.layers.store key cells }

/-- The table after a write that no hook is shown. -/
def write (s : TableStore) (now : Int) (key : Bytes) (mutation : List Cell) :
    Except EngineError TableStore :=
  (s.apply now (WriteHook.none (σ := Unit)) key mutation).run.run () |>.1

/-! ### Flushing -/

/-- Issues a flush: sets a barrier and takes the memtable away.  An empty memtable needs no
flush, but the barrier is set all the same. -/
def issueFlush (s : TableStore) (order : WriteOrder) :
    Except StorageError (Option FlushTicket × TableStore × WriteOrder) := do
  s.checkValid
  let (barrier, order) := order.barrier
  if s.layers.memtable.isEmpty then return (none, s, order)
  let (generation, layers) := s.layers.takeMemtable
  return (some ⟨generation, barrier⟩, { s with layers }, order)

/-- Finishes a flush that was issued, unless the table was retired since. -/
def finishFlush (s : TableStore) (ticket : FlushTicket) : Except StorageError Unit × TableStore :=
  match s.layers.finishFlush? ticket.generation with
  | some layers => (.ok (), { s with layers })
  | none => (.error (.invalidated s.id), s)

/-! ### Truncating and retiring -/

/-- The table without the cells written at or before a time. -/
def discard (s : TableStore) (timestamp : Int) : Except StorageError TableStore := do
  s.checkValid
  return { s with layers := s.layers.discard timestamp }

/-- Retires the table and drops its cells. -/
def invalidate (s : TableStore) : TableStore :=
  if s.isInvalidated then s else { s with layers := {}, isInvalidated := true }

end TableStore

end WideColumn
