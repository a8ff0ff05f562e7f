import WideColumn.Index.Entry
import WideColumn.Schema.Version
import WideColumn.Store.TableStore

/-!
# Keeping an index

A kept index is an index with the table that stores it.  Keeping it in step with its base table
is a sequence of single accesses: looks at whether the index was retired, and writes, flushes and
truncations of the index table.  An index can be retired between any two of them, and work then
ends quietly instead of with the error that the retired table gives.

`Disturbance` plans such a moment, and writes that the index table refuses, so that the behaviour
in either case is a matter of definition.
-/

namespace WideColumn

/-- The life of an index. -/
inductive IndexState where
  /-- The base data of before is not recorded yet. -/
  | building
  | active
  /-- The index was retired, for good. -/
  | invalidated
deriving DecidableEq, Repr

/-- What an operation knows besides the index: the time, and whether the entry of a replaced cell
has to go when that of the new cell is in place. -/
structure Environment where
  now : Int
  dropsOld : IndexEntry → IndexEntry → Bool

/-- An entry goes unless it is the one just written. -/
def dropsOldWhenMoved (old new : IndexEntry) : Bool := old ≠ new

/-! ### Disturbances -/

/-- The kinds of single access. -/
inductive AccessKind where
  | check | write | flush | finish | discard
deriving DecidableEq, Repr

/-- Which writes an index table refuses. -/
inductive WriteFault where
  | none
  /-- Those without a tombstone. -/
  | live
  /-- Those with one. -/
  | tombstone
  | all
deriving DecidableEq, Repr

/-- Is a write refused? -/
def WriteFault.hits (f : WriteFault) (cells : List Cell) : Bool :=
  match f with
  | none => false
  | live => !cells.any (·.isTombstone)
  | tombstone => cells.any (·.isTombstone)
  | all => true

/-- What is planned to go wrong. -/
structure Disturbance where
  fault : WriteFault := .none
  /-- The index is retired just before an access of a kind, after so many others of it. -/
  retirement : Option (AccessKind × Nat) := none
  /-- Its table follows just before an access in turn, and not at once. -/
  tableRetirement : Option (AccessKind × Nat) := none
deriving DecidableEq, Repr

/-- What reached an index table. -/
inductive IndexAccess where
  | write (succeeded : Bool) (key : Bytes) (cells : List Cell)
  /-- A flush, and whether the base table's lock was held. -/
  | flush (locked : Bool)
  | reload
deriving DecidableEq, Repr

/-- An index with its table. -/
structure KeptIndex where
  index : SecondaryIndex
  store : TableStore
  state : IndexState := .building
  disturbance : Disturbance := {}
  /-- What reached the table, in order. -/
  journal : List IndexAccess := []
deriving DecidableEq, Repr

/-- Work on an index.  What was done stays done if the work fails. -/
abbrev Upkeep (α : Type) := ExceptT EngineError (StateM KeptIndex) α

namespace KeptIndex

/-- An index that records nothing yet. -/
def ofIndex (index : SecondaryIndex) : KeptIndex :=
  { index, store := TableStore.ofSchema index.indexSchema }

/-! ### Single accesses -/

/-- Marks the index as retired, which comes first. -/
def beginRetirement (k : KeptIndex) : KeptIndex := { k with state := .invalidated }

/-- Retires the table of an index. -/
def retireTable (k : KeptIndex) : KeptIndex := { k with store := k.store.invalidate }

/-- Retires the index and then its table, unless the index was retired before. -/
def retire (k : KeptIndex) : KeptIndex :=
  if k.state = .invalidated then k else k.beginRetirement.retireTable

/-- Retires the index as planned: its table follows at once, or at a later access. -/
def retireAsPlanned (k : KeptIndex) : KeptIndex :=
  match k.disturbance.tableRetirement with
  | none =>
    { k with disturbance := { k.disturbance with retirement := none } }.beginRetirement.retireTable
  | some later =>
    { k with
      disturbance :=
        { k.disturbance with retirement := some later, tableRetirement := none } }.beginRetirement

/-- What is planned for just before an access. -/
def disturb (kind : AccessKind) (k : KeptIndex) : KeptIndex :=
  match k.disturbance.retirement with
  | some (planned, n) =>
    if planned ≠ kind then k
    else match n with
      | 0 => k.retireAsPlanned
      | n + 1 => { k with disturbance := { k.disturbance with retirement := some (planned, n) } }
  | none => k

/-- Notes what reached the table. -/
def record (access : IndexAccess) (k : KeptIndex) : KeptIndex :=
  { k with journal := k.journal ++ [access] }

/-- Was the index retired? -/
def isRetired : Upkeep Bool := do
  modify (disturb .check)
  return (← get).state = .invalidated

/-- Looks away from an error that only says that the index was retired meanwhile. -/
def unlessRetired (e : StorageError) : Upkeep Unit := do
  match e with
  | .invalidated _ => if !(← isRetired) then throw (.storage e)
  | e => throw (.storage e)

/-- What the index table makes of a write. -/
def tableWrite (k : KeptIndex) (now : Int) (key : Bytes) (c : Cell) :
    Except EngineError TableStore :=
  if k.disturbance.fault.hits [c] then .error (.storage (.io "disk full"))
  else k.store.write now key [c]

/-- Writes a cell to the index table; what comes of it is noted. -/
def writeTable (now : Int) (key : Bytes) (c : Cell) : Upkeep Unit := do
  modify (disturb .write)
  let k ← get
  match k.tableWrite now key c with
  | .ok store => set ({ k with store }.record (.write true key [c]))
  | .error e =>
    set (k.record (.write false key [c]))
    throw e

/-- Writes a cell to the index table, unless the index is retired. -/
def writeEntry (now : Int) (entry : IndexEntry) (c : Cell) : Upkeep Unit := do
  tryCatch (writeTable now entry.partitionKey c) fun e =>
    match e with
    | .storage e => unlessRetired e
    | e => throw e

/-! ### Entries -/

/-- The place of a base cell in the index table. -/
def entryOf (key : Bytes) (c : Cell) : Upkeep IndexEntry := do
  (← get).index.entry key c

/-- The cell that records a base cell; it expires with it. -/
def entryCell (entry : IndexEntry) (c : Cell) : Cell :=
  { name := entry.cellName
    value := []
    timestamp := c.timestamp
    kind :=
      match c.kind with
      | .expiring ttl expiresAt => .expiring ttl expiresAt
      | _ => .live }

/-- Records a base cell, if it is live. -/
def insert (env : Environment) (key : Bytes) (c : Cell) : Upkeep Unit := do
  if (← isRetired) || !c.isLive env.now then return
  let entry ← entryOf key c
  writeEntry env.now entry (entryCell entry c)

/-- Removes the entry of a base cell, if the cell is live.  The tombstone has the cell's
timestamp, so it covers the cell's entry and nothing newer. -/
def delete (env : Environment) (key : Bytes) (c : Cell) : Upkeep Unit := do
  if (← isRetired) || !c.isLive env.now then return
  let entry ← entryOf key c
  writeEntry env.now entry (.tombstone entry.cellName c.timestamp env.now)

/-- Has the entry of a replaced cell to go? -/
def oldEntryGoes (env : Environment) (key : Bytes) (old new : Cell) : Upkeep Bool := do
  if !old.isLive env.now then return false
  if !new.isLive env.now then return true
  let oldEntry ← entryOf key old
  let newEntry ← entryOf key new
  return env.dropsOld oldEntry newEntry

/-- Puts the entry of a cell in place of another one's.  The new entry is written first, so that
readers always find one of them. -/
def update (env : Environment) (key : Bytes) (old new : Cell) : Upkeep Unit := do
  if ← isRetired then return
  insert env key new
  if ← oldEntryGoes env key old new then delete env key old

/-- Follows a change of the base table. -/
def follow (env : Environment) (key : Bytes) : Cell.Change → Upkeep Unit
  | .insert new => insert env key new
  | .update old new => update env key old new
  | .delete old => delete env key old

/-- The cell by which an index decides whether a change concerns it. -/
def subject : Cell.Change → Cell
  | .insert new => new
  | .update _ new => new
  | .delete old => old

/-! ### The whole table -/

/-- Records cells of the base table that are live and covered; also their number. -/
def recordAll (env : Environment) : List (Bytes × Cell) → Upkeep Nat
  | [] => pure 0
  | (key, c) :: rest => do
    if c.isLive env.now && (← get).index.covers c then
      insert env key c
      return (← recordAll env rest) + 1
    else recordAll env rest

/-- Records what the base table holds and makes the index active; also the number of entries. -/
def build (env : Environment) (base : TableStore) : Upkeep Nat := do
  if ← isRetired then throw (.index (.invalidated (← get).store.id))
  let count ← recordAll env base.scan
  modify (disturb .check)
  modify fun k => if k.state = .building then { k with state := .active } else k
  return count

/-- Drops the entries written at or before a time. -/
def truncate (timestamp : Int) : Upkeep Unit := do
  if ← isRetired then return
  modify (disturb .discard)
  let k ← get
  match k.store.discard timestamp with
  | .ok store => set { k with store }
  | .error e => unlessRetired e

/-- Follows a new schema of the base table; also whether the index table has another schema now.
What it holds stays. -/
def reload (base : TableSchema) : Upkeep Bool := do
  if ← isRetired then throw (.index (.invalidated (← get).store.id))
  let k ← get
  let index ← k.index.rebased base
  let changed := index.indexSchema.version != k.index.indexSchema.version
  if changed then
    set ({ k with
      index
      store := { k.store with schema := index.indexSchema } }.record .reload)
  else set { k with index }
  return changed

/-! ### Flushing -/

/-- Issues a flush of the index table, under the base table's lock. -/
def issueFlush (lock : FlushLock) (order : WriteOrder) (k : KeptIndex) :
    Except StorageError (Option FlushTicket) × WriteOrder × KeptIndex :=
  let k := k.disturb .flush
  let (locked, _) := lock.issue (·.isLocked)
  let k := k.record (.flush locked)
  match k.store.issueFlush order with
  | .ok (ticket, store, order) => (.ok ticket, order, { k with store })
  | .error e => (.error e, order, k)

/-- Finishes a flush and waits for it. -/
def finishFlush (k : KeptIndex) : Option FlushTicket → Except StorageError Unit × KeptIndex
  | none => (.ok (), k)
  | some ticket =>
    let k := k.disturb .finish
    let (result, store) := k.store.finishFlush ticket
    let status := (FlushStatus.pending k.store.id).complete result
    ((status.wait?).getD (.ok ()), { k with store })

/-- Begins a flush of the index table, unless the index is retired; what is left to be finished. -/
def beginFlush (lock : FlushLock) (order : WriteOrder) (k : KeptIndex) :
    Except EngineError (Option FlushTicket) × WriteOrder × KeptIndex :=
  match isRetired.run.run k with
  | (.ok false, k) =>
    match k.issueFlush lock order with
    | (.ok ticket, order, k) => (.ok ticket, order, k)
    | (.error e, order, k) =>
      let (result, k) := (unlessRetired e).run.run k
      (result.map fun _ => none, order, k)
  | (.ok true, k) => (.ok none, order, k)
  | (.error e, k) => (.error e, order, k)

/-- Waits for a flush that was begun. -/
def endFlush (ticket : Option FlushTicket) (k : KeptIndex) : Except EngineError Unit × KeptIndex :=
  match k.finishFlush ticket with
  | (.ok (), k) => (.ok (), k)
  | (.error e, k) => (unlessRetired e).run.run k

/-- Flushes the index table and waits for it, while no write is running. -/
def flush (lock : FlushLock) (order : WriteOrder) (k : KeptIndex) :
    Except EngineError Unit × WriteOrder × KeptIndex :=
  match k.beginFlush lock order with
  | (.ok ticket, order, k) =>
    let (result, k) := k.endFlush ticket
    (result, order, k)
  | (.error e, order, k) => (.error e, order, k)

end KeptIndex

end WideColumn
