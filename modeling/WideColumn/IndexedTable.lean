import WideColumn.Index.Set
import WideColumn.Schema.Evolution

/-!
# A table with its indexes

A base table, its indexes, the write order that they share, the clock, and the flushes that were
issued.  A flush is finished as soon as no write that started before it is running; waiting for
one earlier would block.

Indexes that were dropped are still there for those who use them, until another index takes their
column.
-/

namespace WideColumn

/-- Which table is meant. -/
inductive TableRef where
  | base
  | index (column : String)
deriving DecidableEq, Repr

/-- A flush that was issued on a table. -/
structure FlushRecord where
  /-- The table; nothing once another index has taken its column. -/
  table : Option TableRef
  /-- What is left to finish, if anything. -/
  ticket : Option FlushTicket
  status : FlushStatus

/-- What a request can ask for that is not there, or not yet. -/
inductive Refusal where
  | noToken
  | noFlush
  | noIndex (column : String)
  /-- It would have to wait for a running write. -/
  | wouldBlock
deriving DecidableEq, Repr

/-- The wording of a refusal. -/
def Refusal.message : Refusal → String
  | noToken => "no token"
  | noFlush => "no flush"
  | noIndex column => "no index " ++ column
  | wouldBlock => "would block"

/-- How a request can fail. -/
inductive RequestError where
  | refused (r : Refusal)
  | failed (e : EngineError)
deriving DecidableEq, Repr

/-- A table with its indexes. -/
structure IndexedTable where
  base : TableStore
  environment : Environment
  lock : FlushLock := {}
  writes : HeldTokens := {}
  indexes : IndexSet := {}
  /-- The last index of each column that has none any more. -/
  dropped : Bindings String KeptIndex := []
  /-- All flushes, in the order in which they were issued. -/
  flushes : List FlushRecord := []

/-- A request to a table with its indexes. -/
abbrev Request (α : Type) := ExceptT RequestError (StateM IndexedTable) α

namespace IndexedTable

/-- An empty table without indexes. -/
def ofSchema (schema : TableSchema) (environment : Environment) : IndexedTable :=
  { base := TableStore.ofSchema schema, environment }

/-! ### Finding and replacing -/

/-- The last index that a column got. -/
def index? (t : IndexedTable) (column : String) : Option KeptIndex :=
  (t.indexes.members.find? column).or (t.dropped.find? column)

/-- The last index of every column that ever got one. -/
def allIndexes (t : IndexedTable) : Bindings String KeptIndex :=
  t.indexes.members.foldl (fun all (column, k) => all.insert column k) t.dropped

/-- Puts an index in place of the one of its column. -/
def setIndex (t : IndexedTable) (column : String) (k : KeptIndex) : IndexedTable :=
  if t.indexes.members.contains column then
    { t with indexes := { t.indexes with members := t.indexes.members.insert column k } }
  else { t with dropped := t.dropped.insert column k }

/-- A table, if it is there. -/
def store? (t : IndexedTable) : TableRef → Option TableStore
  | .base => some t.base
  | .index column => (t.index? column).map (·.store)

/-- Puts a table in place of the one that is meant. -/
def setStore (t : IndexedTable) (ref : TableRef) (s : TableStore) : IndexedTable :=
  match ref with
  | .base => { t with base := s }
  | .index column =>
    match t.index? column with
    | some k => t.setIndex column { k with store := s }
    | none => t

/-- The error of an operation as that of a request. -/
def failed {α : Type} (result : Except EngineError α) : Request α :=
  match result with
  | .ok a => pure a
  | .error e => throw (.failed e)

/-- The error of a stored table as that of a request. -/
def stored {α : Type} (result : Except StorageError α) : Request α :=
  failed (result.mapError .storage)

/-- The last index of a column, which must be there. -/
def requireIndex (column : String) : Request KeptIndex := do
  match (← get).index? column with
  | some k => return k
  | none => throw (.refused (.noIndex column))

/-- A table, which must be there. -/
def requireStore : TableRef → Request TableStore
  | .base => return (← get).base
  | .index column => return (← requireIndex column).store

/-- Checks that a token is held, if one is named. -/
def requireToken (name : Option String) : Request Unit := do
  match name with
  | none => pure ()
  | some name =>
    if !(← get).writes.tokens.contains name then throw (.refused .noToken)

/-! ### Flushes come to an end -/

/-- Can a flush be finished? -/
def isDue (t : IndexedTable) (r : FlushRecord) : Bool :=
  !r.status.isDone && r.ticket.all fun ticket => t.writes.order.isComplete ticket.barrier

/-- Finishes a flush of a table that is there. -/
def finishOn (t : IndexedTable) (ref : TableRef) (ticket : FlushTicket) :
    Except StorageError Unit × IndexedTable :=
  match t.store? ref with
  | some s =>
    let (result, s) := s.finishFlush ticket
    (result, t.setStore ref s)
  | none => (.ok (), t)

/-- Finishes a flush.  A table that another one has replaced was retired before. -/
def finish (t : IndexedTable) (r : FlushRecord) : FlushRecord × IndexedTable :=
  let (result, t) :=
    match r.table, r.ticket with
    | _, none => (.ok (), t)
    | none, some _ => (.error (.invalidated r.status.table), t)
    | some ref, some ticket => t.finishOn ref ticket
  ({ r with status := r.status.complete result }, t)

/-- Finishes the flushes that can be finished. -/
def settleAll (t : IndexedTable) : List FlushRecord → List FlushRecord × IndexedTable
  | [] => ([], t)
  | r :: rest =>
    let (r, t) := if t.isDue r then t.finish r else (r, t)
    let (rest, t) := settleAll t rest
    (r :: rest, t)

/-- Finishes the flushes that can be finished. -/
def settle (t : IndexedTable) : IndexedTable :=
  let (flushes, t) := t.settleAll t.flushes
  { t with flushes }

/-! ### The clock and running writes -/

/-- Sets the clock. -/
def setNow (now : Int) : Request Unit :=
  modify fun t => { t with environment := { t.environment with now } }

/-- Starts a write under a name; also its epoch. -/
def hold (name : String) : Request Nat := do
  let t ← get
  let (token, writes) := t.writes.hold name
  set { t with writes }.settle
  return token.epoch

/-- Ends the write of a name; also whether there was one. -/
def release (name : String) : Request Bool := do
  let t ← get
  let (found, writes) := t.writes.release name
  set { t with writes }.settle
  return found

/-! ### The base table -/

/-- Writes cells to a partition of the base table, and makes the indexes follow unless they are
not to see the write. -/
def apply (key : Bytes) (cells : List Cell) (direct : Bool) (token : Option String) :
    Request Unit := do
  requireToken token
  let t ← get
  let hook := if direct then WriteHook.none else IndexSet.hook t.environment
  let (result, indexes) := (t.base.apply t.environment.now hook key cells).run.run t.indexes
  set { t with indexes }
  let base ← failed result
  modify fun t => { t with base }

/-- Changes the schema of the base table alone. -/
def alter (change : SchemaChange) : Request Unit := do
  let t ← get
  let schema ← failed ((t.base.schema.change change).mapError .schema)
  set { t with base := { t.base with schema } }

/-! ### Any table -/

/-- Issues a flush; also its number and whether it has ended.  Where nothing stands in its way it
is finished at once, and then only a success has a number. -/
def flush (ref : TableRef) : Request (Nat × Bool) := do
  let s ← requireStore ref
  let (ticket, s, order) ← stored (s.issueFlush (← get).writes.order)
  modify fun t => { t with writes := { t.writes with order } }.setStore ref s
  let status := if ticket.isSome then FlushStatus.pending s.id else FlushStatus.completed s.id
  let r : FlushRecord := { table := some ref, ticket, status }
  let t ← get
  let (r, t) := if t.isDue r then t.finish r else (r, t)
  set t
  match r.status.wait? with
  | some (.error e) => throw (.failed (.storage e))
  | _ =>
    set { t with flushes := t.flushes ++ [r] }
    return (t.flushes.length, r.status.isDone)

/-- Waits for a flush, unless that would block; also whether the flush has ended. -/
def wait (number : Nat) : Request Bool := do
  match (← get).flushes[number]? with
  | none => throw (.refused .noFlush)
  | some r =>
    match r.status.wait? with
    | none => return false
    | some result =>
      stored result
      return true

/-- Drops the cells of a table that were written at or before a time. -/
def discard (ref : TableRef) (timestamp : Int) : Request Unit := do
  let s ← requireStore ref
  let s ← stored (s.discard timestamp)
  modify (·.setStore ref s)

/-- Retires a table. -/
def invalidate (ref : TableRef) : Request Unit := do
  let s ← requireStore ref
  modify (·.setStore ref s.invalidate)

/-! ### Indexes come and go -/

/-- Adds an index on a column; also the name of its table. -/
def addIndex (column : String) (indexName : Option String) : Request String := do
  let t ← get
  let x ← failed (SecondaryIndex.ofColumn t.base.schema column indexName)
  let indexes ← failed (t.indexes.add x)
  let flushes := t.flushes.map fun r =>
    if r.table = some (.index column) then { r with table := none } else r
  set { t with indexes, flushes, dropped := t.dropped.erase column }
  return x.id

/-- Drops the index on a column. -/
def dropIndex (column : String) : Request Unit := do
  let t ← get
  let (k, indexes) ← failed (t.indexes.drop column)
  set { t with indexes, dropped := t.dropped.insert column k }

/-- Drops all indexes. -/
def dropAll : Request Unit :=
  modify fun t =>
    let (retired, indexes) := t.indexes.dropAll
    let dropped := retired.foldl (fun all (column, k) => all.insert column k) t.dropped
    { t with indexes, dropped }

/-! ### Work on indexes -/

/-- Does work on the last index of a column. -/
def onIndex {α : Type} (column : String) (token : Option String) (work : Upkeep α) :
    Request α := do
  let k ← requireIndex column
  requireToken token
  let (result, k, journal) := k.perform work column
  modify fun t =>
    let t := t.setIndex column k
    { t with indexes := t.indexes.note journal }
  failed result

/-- Flushes the last index of a column and waits for it. -/
def flushIndex (column : String) : Request Unit := do
  let t ← get
  if !t.writes.order.isIdle then throw (.refused .wouldBlock)
  let k ← requireIndex column
  let (result, order, k) := { k with journal := [] }.flush t.lock t.writes.order
  let journal := k.journal.map (column, ·)
  let t := { t with writes := { t.writes with order } }.setIndex column { k with journal := [] }
  set { t with indexes := t.indexes.note journal }
  failed result

/-- Flushes all indexes and waits for them. -/
def flushAll : Request Unit := do
  let t ← get
  if !t.writes.order.isIdle then throw (.refused .wouldBlock)
  let (result, order, indexes) := t.indexes.flushAll t.lock t.writes.order
  set { t with writes := { t.writes with order }, indexes }
  failed result

/-- Drops the entries of all indexes that were written at or before a time. -/
def truncateAll (timestamp : Int) : Request Unit := do
  let t ← get
  let (result, indexes) := t.indexes.truncateAll timestamp
  set { t with indexes }
  failed result

/-- Makes all indexes follow the schema of the base table; also the columns whose index tables
have another schema now. -/
def reloadAll : Request (List String) := do
  let t ← get
  let (result, indexes) := t.indexes.reloadAll t.base.schema
  set { t with indexes }
  failed result

/-- Records what the base table holds in the last index of a column; also the number of
entries. -/
def build (column : String) (token : Option String) : Request Nat := do
  let t ← get
  onIndex column token (KeptIndex.build t.environment t.base)

end IndexedTable

end WideColumn
