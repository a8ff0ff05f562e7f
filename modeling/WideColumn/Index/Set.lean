import WideColumn.Index.Upkeep

/-!
# The indexes of a table

The indexes of a table, by column.  As the hook of the table's writes the set shows every change
to each index that covers the changed cell, in the order of the columns, until one of them
fails.
-/

namespace WideColumn

/-- What reached the tables of several indexes, by column. -/
abbrev IndexJournal := List (String × IndexAccess)

/-- The indexes of a table. -/
structure IndexSet where
  members : Bindings String KeptIndex := []
  /-- What reached the index tables, in order. -/
  journal : IndexJournal := []

namespace KeptIndex

/-- Does work on an index; also what reached its table meanwhile. -/
def perform {α : Type} (work : Upkeep α) (column : String) (k : KeptIndex) :
    Except EngineError α × KeptIndex × IndexJournal :=
  let (result, k) := work.run.run { k with journal := [] }
  (result, { k with journal := [] }, k.journal.map (column, ·))

end KeptIndex

namespace IndexSet

/-- Adds to the journal. -/
def note (s : IndexSet) (journal : IndexJournal) : IndexSet :=
  { s with journal := s.journal ++ journal }

/-! ### Work on all indexes -/

/-- Does work on each index in turn, until it fails on one; also the results by column. -/
def performAll {α : Type} (work : Upkeep α) : Bindings String KeptIndex →
    Except EngineError (List (String × α)) × Bindings String KeptIndex × IndexJournal
  | [] => (.ok [], [], [])
  | (column, k) :: rest =>
    match k.perform work column with
    | (.error e, k, journal) => (.error e, (column, k) :: rest, journal)
    | (.ok a, k, journal) =>
      let (results, rest, more) := performAll work rest
      (results.map ((column, a) :: ·), (column, k) :: rest, journal ++ more)

/-- Does work on all indexes. -/
def forAll {α : Type} (s : IndexSet) (work : Upkeep α) :
    Except EngineError (List (String × α)) × IndexSet :=
  let (results, members, journal) := performAll work s.members
  (results, { s with members }.note journal)

/-- Flushes each index in turn, until a flush fails. -/
def flushEach (lock : FlushLock) (order : WriteOrder) : Bindings String KeptIndex →
    Except EngineError Unit × WriteOrder × Bindings String KeptIndex × IndexJournal
  | [] => (.ok (), order, [], [])
  | (column, k) :: rest =>
    let (result, order, k) := { k with journal := [] }.flush lock order
    let journal := k.journal.map (column, ·)
    let k := { k with journal := [] }
    match result with
    | .error e => (.error e, order, (column, k) :: rest, journal)
    | .ok () =>
      let (result, order, rest, more) := flushEach lock order rest
      (result, order, (column, k) :: rest, journal ++ more)

/-- Flushes all indexes. -/
def flushAll (s : IndexSet) (lock : FlushLock) (order : WriteOrder) :
    Except EngineError Unit × WriteOrder × IndexSet :=
  let (result, order, members, journal) := flushEach lock order s.members
  (result, order, { s with members }.note journal)

/-- Drops the entries of all indexes that were written at or before a time. -/
def truncateAll (s : IndexSet) (timestamp : Int) : Except EngineError Unit × IndexSet :=
  let (result, s) := s.forAll (KeptIndex.truncate timestamp)
  (result.map fun _ => (), s)

/-- Makes all indexes follow a new schema of the table; also the columns whose index tables have
another schema now. -/
def reloadAll (s : IndexSet) (base : TableSchema) :
    Except EngineError (List String) × IndexSet :=
  let (result, s) := s.forAll (KeptIndex.reload base)
  (result.map fun changes => (changes.filter Prod.snd).map Prod.fst, s)

/-! ### Following writes -/

/-- What one index does about a change. -/
def followCovered (env : Environment) (key : Bytes) (change : Cell.Change) : Upkeep Unit := do
  if (← get).index.covers (KeptIndex.subject change) then
    KeptIndex.follow env key change

/-- The hook that keeps all indexes in step with the table. -/
def hook (env : Environment) : WriteHook IndexSet := fun key change s =>
  let (result, s) := s.forAll (followCovered env key change)
  (result.map fun _ => (), s)

/-! ### Indexes come and go -/

/-- Adds an index, which records nothing yet. -/
def add (s : IndexSet) (x : SecondaryIndex) : Except EngineError IndexSet :=
  if s.members.contains x.column then .error (.index (.alreadyExists x.id))
  else .ok { s with members := s.members.insert x.column (KeptIndex.ofIndex x) }

/-- Removes an index and retires it; also the retired index. -/
def drop (s : IndexSet) (column : String) : Except EngineError (KeptIndex × IndexSet) :=
  match s.members.find? column with
  | none => .error (.index (.notFound column))
  | some k => .ok (k.retire, { s with members := s.members.erase column })

/-- Removes all indexes and retires them; also the retired indexes. -/
def dropAll (s : IndexSet) : Bindings String KeptIndex × IndexSet :=
  (s.members.mapValues KeptIndex.retire, { s with members := [] })

/-- The number of rows to expect for one value of an indexed column. -/
def estimate? (s : IndexSet) (column : String) : Option Nat :=
  (s.members.find? column).map (·.store.meanCells)

end IndexSet

end WideColumn
