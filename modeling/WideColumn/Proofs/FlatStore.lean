import Mathlib.Data.List.Dedup
import WideColumn.Proofs.Writes

/-!
# The flat store

The plainest store that keeps the newest cells: one map from the key of a partition and a name to
a cell.  A written cell takes the place of the stored one if it supersedes it, a truncation
removes the cells that are not new enough, and a flush does nothing.

A table with its layers cannot be told from a flat store:

* `Represents` — a table and a flat store answer every look-up alike;
* `Represents.perform` — **every action keeps it**, ends in the same way, and shows the same
  changes to the hook;
* `layers_act_like_flat_store` — so does every run, and all reads agree after it.

Flushes are finished at any time after they were issued and in any order, or not at all.
-/

namespace WideColumn

open Effects

/-! ### Cells by key and name -/

instance : Ord (Bytes × Bytes) := lexOrd

/-- Cells by the key of their partition and their name. -/
abbrev CellMap := Bindings (Bytes × Bytes) Cell

/-- A table as one map. -/
structure FlatStore where
  id : String
  schema : TableSchema
  cells : CellMap := []
  isInvalidated : Bool := false

namespace FlatStore

/-- An empty store. -/
def ofSchema (schema : TableSchema) : FlatStore := { id := schema.id, schema }

/-- The cell of a name. -/
def get? (f : FlatStore) (key name : Bytes) : Option Cell := f.cells.find? (key, name)

/-- The cells of a partition, in the order of the bytes of their names. -/
def partition (f : FlatStore) (key : Bytes) : List Cell :=
  (f.cells.filter fun b => b.1.1 = key).map Prod.snd

/-- The cells of a partition in the order of their names, deletions included. -/
def read (f : FlatStore) (key : Bytes) : List Cell :=
  sortBy (fun a b => f.schema.cellLayout.order a.name b.name) (f.partition key)

/-- The cells of a partition that are live at `now`. -/
def liveCells (f : FlatStore) (now : Int) (key : Bytes) : List Cell :=
  (f.read key).filter (·.isLive now)

/-- The keys of the partitions. -/
def keys (f : FlatStore) : List Bytes := (f.cells.map fun b => b.1.1).dedup

/-- All cells with the keys of their partitions. -/
def scan (f : FlatStore) : List (Bytes × Cell) :=
  f.keys.flatMap fun key => (f.read key).map (key, ·)

/-- The mean number of cells in a partition, rounded down. -/
def meanCells (f : FlatStore) : Nat := f.cells.length / f.keys.length

/-- Refuses to work on a retired store. -/
def checkValid (f : FlatStore) : Except StorageError Unit :=
  if f.isInvalidated then .error (.invalidated f.id) else .ok ()

/-- Checks that a write fits the table. -/
def checkWrite (f : FlatStore) (key : Bytes) (mutation : List Cell) : Except EngineError Unit := do
  f.checkValid.mapError .storage
  let _ ← (f.schema.keyLayout.decode key).mapError .encoding
  (TableStore.checkNames f.schema.cellLayout mutation).mapError .encoding

/-- The cells after those of a write, each of which the hook has seen if readers see a
difference. -/
def put {σ : Type} (now : Int) (hook : WriteHook σ) (key : Bytes) (cells : CellMap) :
    List Cell → ExceptT EngineError (StateM σ) CellMap
  | [] => pure cells
  | c :: rest => do
    match cells.find? (key, c.name) with
    | none =>
      if c.isLive now then hook key (.insert c)
      put now hook key (cells.insert (key, c.name) c) rest
    | some old =>
      if c.supersedes old then
        if c.isLive now then hook key (.update old c)
        else if old.isLive now then hook key (.delete old)
        put now hook key (cells.insert (key, c.name) c) rest
      else put now hook key cells rest

/-- The store after a write to one partition. -/
def apply {σ : Type} (f : FlatStore) (now : Int) (hook : WriteHook σ) (key : Bytes)
    (mutation : List Cell) : ExceptT EngineError (StateM σ) FlatStore := do
  match f.checkWrite key mutation with
  | .error e => throw e
  | .ok () =>
    let cells ← put now hook key f.cells mutation
    return { f with cells }

/-- The store without the cells written at or before a time. -/
def discard (f : FlatStore) (timestamp : Int) : FlatStore :=
  { f with cells := f.cells.filter fun b => timestamp < b.2.timestamp }

/-- Retires the store and drops its cells. -/
def invalidate (f : FlatStore) : FlatStore :=
  if f.isInvalidated then f else { f with cells := [], isInvalidated := true }

end FlatStore

/-! ### Actions -/

/-- The calls of hooks so far, and the state that the hooks share. -/
abbrev HookTrace (σ : Type) := List HookCall × σ

/-- The hook, with a note of each of its calls, failed ones included. -/
def WriteHook.traced {σ : Type} (hook : WriteHook σ) : WriteHook (HookTrace σ) :=
  fun key change trace =>
    let (result, st) := runFrom (hook key change) trace.2
    (result, trace.1 ++ [(key, change)], st)

/-- What can be done to a table.  The hook of a write, the time, and the flush that is finished
are of any kind. -/
inductive StoreAction (σ : Type) where
  | apply (now : Int) (hook : WriteHook σ) (key : Bytes) (mutation : List Cell)
  | issueFlush (order : WriteOrder)
  | finishFlush (ticket : FlushTicket)
  | discard (timestamp : Int)
  | invalidate

/-- How an action or several ended, the store afterwards, and the calls of hooks up to then. -/
abbrev Performed (ε S σ : Type) := ε × S × HookTrace σ

/-- How one action ended. -/
abbrev Outcome := Except EngineError Unit

/-- What a write leaves: the old store if it fails. -/
def afterWrite {S σ : Type} (s : S) (write : ExceptT EngineError (StateM (HookTrace σ)) S)
    (trace : HookTrace σ) : Performed Outcome S σ :=
  match runFrom write trace with
  | (.ok s', trace) => (.ok (), s', trace)
  | (.error e, trace) => (.error e, s, trace)

/-- Does something to a table. -/
def TableStore.perform {σ : Type} (s : TableStore) (trace : HookTrace σ) :
    StoreAction σ → Performed Outcome TableStore σ
  | .apply now hook key mutation => afterWrite s (s.apply now hook.traced key mutation) trace
  | .issueFlush order =>
    match s.issueFlush order with
    | .ok (_, s', _) => (.ok (), s', trace)
    | .error e => (.error (.storage e), s, trace)
  | .finishFlush ticket => (.ok (), (s.finishFlush ticket).2, trace)
  | .discard timestamp =>
    match s.discard timestamp with
    | .ok s' => (.ok (), s', trace)
    | .error e => (.error (.storage e), s, trace)
  | .invalidate => (.ok (), s.invalidate, trace)

/-- Does something to a flat store.  A flush only asks whether the store was retired. -/
def FlatStore.perform {σ : Type} (f : FlatStore) (trace : HookTrace σ) :
    StoreAction σ → Performed Outcome FlatStore σ
  | .apply now hook key mutation => afterWrite f (f.apply now hook.traced key mutation) trace
  | .issueFlush _ => (f.checkValid.mapError .storage, f, trace)
  | .finishFlush _ => (.ok (), f, trace)
  | .discard timestamp =>
    match f.checkValid with
    | .ok () => (.ok (), f.discard timestamp, trace)
    | .error e => (.error (.storage e), f, trace)
  | .invalidate => (.ok (), f.invalidate, trace)

/-- Performs actions in turn; also how each of them ended. -/
def performAll {S σ : Type} (perform : S → HookTrace σ → StoreAction σ → Performed Outcome S σ)
    (s : S) (trace : HookTrace σ) : List (StoreAction σ) → Performed (List Outcome) S σ
  | [] => ([], s, trace)
  | a :: rest =>
    let (outcome, s, trace) := perform s trace a
    let (outcomes, s, trace) := performAll perform s trace rest
    (outcome :: outcomes, s, trace)

/-- The first action, and then all others. -/
theorem performAll_cons_eq {S σ : Type} {s s₁ : S} {trace trace₁ : HookTrace σ}
    {perform : S → HookTrace σ → StoreAction σ → Performed Outcome S σ} {a : StoreAction σ}
    {outcome : Outcome} (h : perform s trace a = (outcome, s₁, trace₁))
    (rest : List (StoreAction σ)) :
    performAll perform s trace (a :: rest) =
      (outcome :: (performAll perform s₁ trace₁ rest).1, (performAll perform s₁ trace₁ rest).2) := by
  conv => lhs; unfold performAll
  rw [h]

/-- **When a write succeeds**: the checks and the hook accept it. -/
theorem TableStore.perform_apply_eq_ok {σ : Type} {s s' : TableStore} {trace trace' : HookTrace σ}
    {now : Int} {hook : WriteHook σ} {key : Bytes} {mutation : List Cell} :
    s.perform trace (.apply now hook key mutation) = (.ok (), s', trace') ↔
      s.checkWrite key mutation = .ok () ∧ s' = s.written now key mutation ∧
        runFrom ((s.changes now key mutation).forM (hook.traced key)) trace = (.ok (), trace') := by
  have hperform : s.perform trace (.apply now hook key mutation) = (.ok (), s', trace') ↔
      runFrom (s.apply now hook.traced key mutation) trace = (.ok s', trace') := by
    show afterWrite s _ trace = _ ↔ _
    unfold afterWrite
    rcases runFrom (s.apply now hook.traced key mutation) trace with ⟨e | s₁, trace₁⟩ <;> simp
  rw [hperform]
  refine ⟨apply_ok, fun ⟨hcheck, hs', hhook⟩ => ?_⟩
  rw [apply_eq_plan, hcheck, hs']
  exact bind_eq_ok.2 ⟨⟨⟩, trace', hhook, rfl⟩

/-! ### Reads of all partitions -/

namespace TableStore

theorem mem_merged {s : TableStore} (h : s.layers.WellFormed) {key name : Bytes} {c : Cell} :
    (∃ p, (key, p) ∈ s.layers.merged ∧ (name, c) ∈ p) ↔ s.get? key name = some c := by
  rw [get?, ← Layers.find?_partition h, ← Layers.partition_merged h]
  have hwf := h.merged
  constructor
  · rintro ⟨p, hp, hc⟩
    rw [Partitions.partition, Bindings.find?_eq_some_of_mem hwf.sorted hp]
    exact Bindings.find?_eq_some_of_mem (hwf.partitions key p hp).1.sorted hc
  · intro hc
    have hmem := Bindings.mem_of_find? hc
    unfold Partitions.partition at hmem
    cases hp : s.layers.merged.find? key with
    | none => simp [hp] at hmem
    | some p => exact ⟨p, Bindings.mem_of_find? hp, by simpa [hp] using hmem⟩

/-- A scan reads one partition after the other. -/
theorem scan_eq_flatMap {s : TableStore} (h : s.layers.WellFormed) :
    s.scan = (s.layers.merged.map Prod.fst).flatMap fun key => (s.read key).map (key, ·) := by
  rw [scan, List.flatMap_map]
  refine List.flatMap_congr ?_
  rintro ⟨key, p⟩ hp
  have hpart : s.layers.partition key = p := by
    rw [← Layers.partition_merged h, Partitions.partition,
      Bindings.find?_eq_some_of_mem h.merged.sorted hp]
    rfl
  show (s.sorted p.values).map (key, ·) = (s.read key).map (key, ·)
  rw [read, hpart]

theorem keys_nodup {s : TableStore} (h : s.layers.WellFormed) :
    (s.layers.merged.map Prod.fst).Nodup := by
  refine List.pairwise_map.2 (h.merged.sorted.imp ?_)
  intro a b hab heq
  rw [heq, Std.ReflOrd.compare_self] at hab
  cases hab

theorem mem_scan {s : TableStore} (h : s.layers.WellFormed) {key : Bytes} {c : Cell} :
    (key, c) ∈ s.scan ↔ s.get? key c.name = some c := by
  rw [scan_eq_flatMap h, List.mem_flatMap]
  constructor
  · rintro ⟨k, -, hc⟩
    obtain ⟨d, hd, heq⟩ := List.mem_map.1 hc
    cases heq
    exact (mem_read h).1 hd
  · intro hc
    obtain ⟨p, hp, -⟩ := (mem_merged h).2 hc
    exact ⟨key, List.mem_map.2 ⟨_, hp, rfl⟩, List.mem_map.2 ⟨c, (mem_read h).2 hc, rfl⟩⟩

theorem filter_flatMap_key (cells : Bytes → List Cell) (key : Bytes) {keys : List Bytes}
    (h : keys.Nodup) :
    ((keys.flatMap fun k => (cells k).map (k, ·)).filter fun b => b.1 = key).map Prod.snd =
      if key ∈ keys then cells key else [] := by
  induction keys with
  | nil => rfl
  | cons k rest ih =>
    obtain ⟨hk, hrest⟩ := List.nodup_cons.1 h
    rw [List.flatMap_cons, List.filter_append, List.map_append, ih hrest]
    by_cases heq : key = k
    · subst heq
      simp [hk, List.filter_map, Function.comp_def]
    · simp [heq, Ne.symm heq, List.filter_map, Function.comp_def]

/-- What a scan has of a partition is what a read of the partition gives. -/
theorem scan_partition {s : TableStore} (h : s.layers.WellFormed) (key : Bytes) :
    (s.scan.filter fun b => b.1 = key).map Prod.snd = s.read key := by
  rw [scan_eq_flatMap h, filter_flatMap_key _ _ (keys_nodup h)]
  split
  · rfl
  · rename_i hkey
    refine (List.eq_nil_iff_forall_not_mem.2 fun c hc => hkey ?_).symm
    obtain ⟨p, hp, -⟩ := (mem_merged h).2 ((mem_read h).1 hc)
    exact List.mem_map.2 ⟨_, hp, rfl⟩

/-- A scan has each cell once. -/
theorem scan_nodup {s : TableStore} (h : s.layers.WellFormed) :
    (s.scan.map fun b => (b.1, b.2.name)).Nodup := by
  rw [scan_eq_flatMap h, List.map_flatMap]
  refine List.pairwise_flatMap.2 ⟨fun key _ => ?_, (keys_nodup h).imp ?_⟩
  · have hnames := List.pairwise_map.1 (read_names_nodup h key)
    rw [List.map_map]
    exact List.pairwise_map.2 (hnames.imp fun hne heq => hne (Prod.ext_iff.1 heq).2)
  · intro k k' hne a ha b hb heq
    obtain ⟨d, hd, rfl⟩ := List.mem_map.1 ha
    obtain ⟨e, he, rfl⟩ := List.mem_map.1 hd
    obtain ⟨d', hd', rfl⟩ := List.mem_map.1 hb
    obtain ⟨e', he', rfl⟩ := List.mem_map.1 hd'
    exact hne (Prod.ext_iff.1 heq).1

end TableStore

/-! ### Answering alike -/

/-- The table and the flat store answer every look-up alike. -/
structure Represents (s : TableStore) (f : FlatStore) : Prop where
  id : s.id = f.id
  schema : s.schema = f.schema
  isInvalidated : s.isInvalidated = f.isInvalidated
  layers : s.layers.WellFormed
  sorted : f.cells.Sorted
  get? : ∀ key name, s.get? key name = f.get? key name

/-- Both ended alike, after the same calls of hooks, and answer alike from then on. -/
structure Alike {ε σ : Type} (table : Performed ε TableStore σ) (flat : Performed ε FlatStore σ) :
    Prop where
  outcome : table.1 = flat.1
  trace : table.2.2 = flat.2.2
  represents : Represents table.2.1 flat.2.1

namespace Represents

variable {s : TableStore} {f : FlatStore}

theorem ofSchema (schema : TableSchema) :
    Represents (.ofSchema schema) (.ofSchema schema) where
  id := rfl
  schema := rfl
  isInvalidated := rfl
  layers := Layers.WellFormed.empty
  sorted := List.Pairwise.nil
  get? := fun _ _ => rfl

/-! ### Reads -/

theorem mem_cells (h : Represents s f) {key name : Bytes} {c : Cell} :
    ((key, name), c) ∈ f.cells ↔ s.get? key name = some c := by
  rw [h.get?, FlatStore.get?, Bindings.find?_eq_some_iff h.sorted]

/-- The first parts of keys of one partition say nothing, so the second ones are in order. -/
theorem compare_snd {key a b : Bytes} (h : compare (key, a) (key, b) = .lt) :
    compare a b = .lt := by
  have hthen : (compare key key).then (compare a b) = .lt := h
  rwa [Std.ReflOrd.compare_self] at hthen

theorem compare_fst {a b : (Bytes × Bytes) × Cell} (h : compare a.1 b.1 = .lt) :
    compare a.1.1 b.1.1 ≠ .gt := by
  have hthen : (compare a.1.1 b.1.1).then (compare a.1.2 b.1.2) = .lt := h
  intro hgt
  rw [hgt] at hthen
  cases hthen

theorem partition_eq (h : Represents s f) (key : Bytes) :
    (s.layers.partition key).values = f.partition key := by
  have hsorted : Bindings.Sorted
      ((f.cells.filter fun b => b.1.1 = key).map fun b => (b.1.2, b.2)) := by
    refine List.pairwise_map.2 ((Bindings.filter_sorted _ h.sorted).imp_of_mem ?_)
    rintro ⟨⟨k, n⟩, c⟩ ⟨⟨k', n'⟩, c'⟩ hb hb' hlt
    obtain rfl : k = key := by simpa using (List.mem_filter.1 hb).2
    obtain rfl : k' = k := by simpa using (List.mem_filter.1 hb').2
    exact compare_snd hlt
  have heq : s.layers.partition key =
      (f.cells.filter fun b => b.1.1 = key).map fun b => (b.1.2, b.2) := by
    refine (h.layers.partition key).sorted.eq_of_mem_iff hsorted fun ⟨name, c⟩ => ?_
    rw [← Bindings.find?_eq_some_iff (h.layers.partition key).sorted,
      Layers.find?_partition h.layers]
    show s.get? key name = some c ↔ _
    rw [← h.mem_cells]
    constructor
    · exact fun hc => List.mem_map.2 ⟨((key, name), c), List.mem_filter.2 ⟨hc, by simp⟩, rfl⟩
    · intro hc
      obtain ⟨⟨⟨k, n⟩, d⟩, hd, hdc⟩ := List.mem_map.1 hc
      cases hdc
      obtain ⟨hmem, hk⟩ := List.mem_filter.1 hd
      obtain rfl : k = key := by simpa using hk
      exact hmem
  rw [heq, Bindings.values, List.map_map]
  rfl

theorem read_eq (h : Represents s f) (key : Bytes) : s.read key = f.read key := by
  unfold TableStore.read TableStore.sorted FlatStore.read
  rw [h.partition_eq, h.schema]

theorem keys_eq (h : Represents s f) : s.layers.merged.map Prod.fst = f.keys := by
  have hwf := h.layers.merged
  have hkeys : (s.layers.merged.map Prod.fst).Pairwise fun a b => compare a b = .lt :=
    List.pairwise_map.2 hwf.sorted
  have hrising : f.keys.Pairwise fun a b => compare a b = .lt := by
    have hle : (f.cells.map fun b => b.1.1).Pairwise fun a b => compare a b ≠ .gt :=
      List.pairwise_map.2 (h.sorted.imp compare_fst)
    refine ((hle.sublist (List.dedup_sublist _)).and (List.nodup_dedup _)).imp ?_
    rintro a b ⟨hab, hne⟩
    cases hc : compare a b with
    | lt => rfl
    | eq => exact absurd (Std.LawfulEqOrd.eq_of_compare hc) hne
    | gt => exact absurd hc hab
  refine Bindings.eq_of_mem_iff_of_rising (fun key : Bytes => key) hkeys hrising fun key => ?_
  rw [FlatStore.keys, List.mem_dedup]
  constructor
  · intro hkey
    obtain ⟨⟨k, p⟩, hp, rfl⟩ := List.mem_map.1 hkey
    obtain ⟨⟨name, c⟩, hc⟩ := List.exists_mem_of_ne_nil p (hwf.partitions k p hp).2
    exact List.mem_map.2 ⟨_, h.mem_cells.2 ((TableStore.mem_merged h.layers).1 ⟨p, hp, hc⟩), rfl⟩
  · intro hkey
    obtain ⟨⟨⟨k, name⟩, c⟩, hc, rfl⟩ := List.mem_map.1 hkey
    obtain ⟨p, hp, -⟩ := (TableStore.mem_merged h.layers).2 (h.mem_cells.1 hc)
    exact List.mem_map.2 ⟨_, hp, rfl⟩

theorem scan_eq (h : Represents s f) : s.scan = f.scan := by
  rw [TableStore.scan_eq_flatMap h.layers, h.keys_eq, FlatStore.scan]
  exact List.flatMap_congr fun key _ => by rw [h.read_eq]

/-- The cells of the flat store are those of the merged layers, partition by partition. -/
theorem cells_eq (h : Represents s f) :
    f.cells = s.layers.merged.flatMap fun b => b.2.map fun d => ((b.1, d.1), d.2) := by
  have hwf := h.layers.merged
  refine h.sorted.eq_of_mem_iff (List.pairwise_flatMap.2 ⟨?_, ?_⟩) ?_
  · rintro ⟨key, p⟩ hp
    refine List.pairwise_map.2 ((hwf.partitions key p hp).1.sorted.imp ?_)
    intro a b hab
    show (compare key key).then (compare a.1 b.1) = .lt
    rwa [Std.ReflOrd.compare_self]
  · refine hwf.sorted.imp ?_
    rintro ⟨k, p⟩ ⟨k', p'⟩ hlt a ha b hb
    obtain ⟨d, -, rfl⟩ := List.mem_map.1 ha
    obtain ⟨d', -, rfl⟩ := List.mem_map.1 hb
    show (compare k k').then (compare d.1 d'.1) = .lt
    rw [show compare k k' = .lt from hlt]
    rfl
  · rintro ⟨⟨key, name⟩, c⟩
    rw [h.mem_cells, ← TableStore.mem_merged h.layers, List.mem_flatMap]
    constructor
    · rintro ⟨p, hp, hc⟩
      exact ⟨(key, p), hp, List.mem_map.2 ⟨(name, c), hc, rfl⟩⟩
    · rintro ⟨⟨k, p⟩, hp, hc⟩
      obtain ⟨⟨n, d⟩, hd, hdc⟩ := List.mem_map.1 hc
      cases hdc
      exact ⟨p, hp, hd⟩

theorem meanCells_eq (h : Represents s f) : s.meanCells = f.meanCells := by
  have hcount : s.layers.merged.cellCount = f.cells.length := by
    rw [h.cells_eq, List.length_flatMap, Partitions.cellCount, List.sum_eq_foldl, List.foldl_map,
      Bindings.values, List.foldl_map]
    simp
  rw [TableStore.meanCells, FlatStore.meanCells, hcount, ← h.keys_eq, List.length_map]

/-! ### Writes -/

theorem find?_insert_eq {v : Ledger} {key : Bytes} {pending : Partition} {cells : CellMap}
    (h : ∀ k n, cells.find? (k, n) = v.overlay key pending k n) (c : Cell) (k n : Bytes) :
    Bindings.find? (k, n) (Bindings.insert (key, c.name) c cells) =
      v.overlay key (Bindings.insert c.name c pending) k n := by
  rw [Ledger.overlay_insert, Bindings.find?_insert, Ledger.set, h]
  by_cases hk : k = key ∧ n = c.name <;> simp [hk]

/-- **A write of cells is its plan** in the flat store too. -/
theorem put_eq_plan {σ : Type} (now : Int) (hook : WriteHook σ) (key : Bytes) {v : Ledger}
    (mutation : List Cell) {pending : Partition} {cells : CellMap} (hsorted : cells.Sorted)
    (hcells : ∀ k n, cells.find? (k, n) = v.overlay key pending k n) :
    ∃ cells' : CellMap,
      (FlatStore.put now hook key cells mutation = do
        (TableStore.planCells now (v key) pending mutation).1.forM (hook key)
        pure cells') ∧
      cells'.Sorted ∧
      ∀ k n, cells'.find? (k, n) =
        v.overlay key (TableStore.planCells now (v key) pending mutation).2 k n := by
  induction mutation generalizing pending cells with
  | nil => exact ⟨cells, by simp [FlatStore.put, TableStore.planCells], hsorted, hcells⟩
  | cons c rest ih =>
    have hview : (pending.find? c.name).or (v key c.name) = cells.find? (key, c.name) := by
      rw [hcells, Ledger.overlay, if_pos rfl]
    obtain ⟨new, hnew, hnewSorted, hnewCells⟩ :=
      ih (Bindings.insert_sorted (key, c.name) c hsorted) (find?_insert_eq hcells c)
    obtain ⟨same, hsame, hsameSorted, hsameCells⟩ := ih hsorted hcells
    unfold FlatStore.put TableStore.planCells
    rw [hview]
    cases cells.find? (key, c.name) with
    | none =>
      refine ⟨new, ?_, ?_⟩ <;>
        cases hc : c.isLive now <;> simp [Cell.effect, hc, hnew, hnewSorted, hnewCells]
    | some old =>
      cases hs : c.supersedes old with
      | false =>
        refine ⟨same, ?_, ?_⟩ <;> simp [Cell.effect, hs, hsame, hsameSorted, hsameCells]
      | true =>
        refine ⟨new, ?_, ?_⟩ <;>
          cases hc : c.isLive now <;> cases ho : old.isLive now <;>
            simp [Cell.effect, hs, hc, ho, hnew, hnewSorted, hnewCells]

theorem checkWrite_eq (h : Represents s f) (key : Bytes) (mutation : List Cell) :
    s.checkWrite key mutation = f.checkWrite key mutation := by
  unfold TableStore.checkWrite FlatStore.checkWrite TableStore.checkValid FlatStore.checkValid
  rw [h.id, h.schema, h.isInvalidated]

/-- A write to both ends in the same way, with the same work of the hook. -/
theorem afterWrite_apply {σ : Type} (h : Represents s f) (now : Int)
    (hook : WriteHook (HookTrace σ)) (key : Bytes) (mutation : List Cell) (trace : HookTrace σ) :
    Alike (afterWrite s (s.apply now hook key mutation) trace)
      (afterWrite f (f.apply now hook key mutation) trace) := by
  have hnil : ∀ k n, f.cells.find? (k, n) = Ledger.overlay s.get? key [] k n := fun k n => by
    rw [Ledger.overlay_nil, h.get?]
    rfl
  obtain ⟨cells, hput, hsorted, hcells⟩ := put_eq_plan now hook key mutation h.sorted hnil
  unfold afterWrite
  rw [TableStore.apply_eq_plan, FlatStore.apply, h.checkWrite_eq]
  rcases f.checkWrite key mutation with e | ⟨⟨⟩⟩
  · exact ⟨rfl, rfl, h⟩
  · have hplan : s.changes now key mutation =
        (TableStore.planCells now (s.get? key) [] mutation).1 := rfl
    simp only [hput, bind_assoc, pure_bind, runFrom_bind, hplan]
    rcases runFrom ((TableStore.planCells now (s.get? key) [] mutation).1.forM (hook key)) trace
      with ⟨e | ⟨⟨⟩⟩, trace'⟩
    · exact ⟨rfl, rfl, h⟩
    · refine ⟨rfl, rfl, ⟨h.id, h.schema, h.isInvalidated, ?_, hsorted, fun k n => ?_⟩⟩
      · exact TableStore.written_wellFormed h.layers now key mutation
      · show (s.written now key mutation).get? k n = _
        rw [TableStore.get?_written h.layers]
        exact (hcells k n).symm

/-! ### Runs -/

theorem checkValid_eq (h : Represents s f) : s.checkValid = f.checkValid := by
  unfold TableStore.checkValid FlatStore.checkValid
  rw [h.id, h.isInvalidated]

theorem rearranged (h : Represents s f) {s' : TableStore} (hs : s.Rearranged s') :
    Represents s' f :=
  ⟨hs.id.trans h.id, hs.schema.trans h.schema, hs.isInvalidated.trans h.isInvalidated, hs.layers,
    h.sorted, fun key name => by rw [hs.get?, h.get?]⟩

theorem discard {s' : TableStore} {timestamp : Int} (h : Represents s f)
    (hs : s.Truncated s' timestamp) : Represents s' (f.discard timestamp) := by
  refine ⟨hs.id.trans h.id, hs.schema.trans h.schema, hs.isInvalidated.trans h.isInvalidated,
    hs.layers, Bindings.filter_sorted _ h.sorted, fun key name => ?_⟩
  rw [hs.get?, FlatStore.get?, FlatStore.discard, Bindings.find?_filter _ _ h.sorted,
    Ledger.discard, h.get?]
  rfl

theorem invalidate (h : Represents s f) : Represents s.invalidate f.invalidate := by
  unfold TableStore.invalidate FlatStore.invalidate
  rw [h.isInvalidated]
  split
  · exact h
  · exact ⟨h.id, h.schema, rfl, Layers.WellFormed.empty, List.Pairwise.nil, fun _ _ => rfl⟩

/-- **Every action keeps the representation**, ends in the same way for both, and calls the hook
alike. -/
theorem perform {σ : Type} (h : Represents s f) (trace : HookTrace σ) (a : StoreAction σ) :
    Alike (s.perform trace a) (f.perform trace a) := by
  cases a with
  | apply now hook key mutation => exact h.afterWrite_apply now hook.traced key mutation trace
  | issueFlush order =>
    simp only [TableStore.perform, FlatStore.perform, ← h.checkValid_eq]
    rcases TableStore.issueFlush_cases h.layers order with ⟨e, hv, hf⟩ | ⟨hv, t, s', o, hf, hs⟩
    · rw [hv, hf]
      exact ⟨rfl, rfl, h⟩
    · rw [hv, hf]
      exact ⟨rfl, rfl, h.rearranged hs⟩
  | finishFlush ticket =>
    exact ⟨rfl, rfl, h.rearranged (TableStore.finishFlush_rearranged h.layers ticket)⟩
  | discard timestamp =>
    simp only [TableStore.perform, FlatStore.perform, ← h.checkValid_eq]
    rcases TableStore.discard_cases h.layers timestamp with ⟨e, hv, hd⟩ | ⟨hv, s', hd, hs⟩
    · rw [hv, hd]
      exact ⟨rfl, rfl, h⟩
    · rw [hv, hd]
      exact ⟨rfl, rfl, h.discard hs⟩
  | invalidate => exact ⟨rfl, rfl, h.invalidate⟩

theorem performAll {σ : Type} (h : Represents s f) (trace : HookTrace σ)
    (actions : List (StoreAction σ)) :
    Alike (performAll TableStore.perform s trace actions)
      (performAll FlatStore.perform f trace actions) := by
  induction actions generalizing s f trace with
  | nil => exact ⟨rfl, rfl, h⟩
  | cons a rest ih =>
    have hstep := h.perform trace a
    revert hstep
    unfold WideColumn.performAll
    rcases s.perform trace a with ⟨outcome, s', trace'⟩
    rcases f.perform trace a with ⟨outcome', f', trace''⟩
    rintro ⟨houtcome, htrace, hrep⟩
    cases houtcome
    cases htrace
    have hrest := ih hrep trace'
    exact ⟨congrArg (outcome :: ·) hrest.outcome, hrest.trace, hrest.represents⟩

end Represents

/-! ### All reads -/

/-- Every way of reading gives the same for both, and each stored cell turns up once. -/
structure ReadAlike (s : TableStore) (f : FlatStore) : Prop where
  get? : ∀ key name, s.get? key name = f.get? key name
  read : ∀ key, s.read key = f.read key
  liveCells : ∀ now key, s.liveCells now key = f.liveCells now key
  scan : s.scan = f.scan
  meanCells : s.meanCells = f.meanCells
  /-- A scan and the reads of single partitions agree. -/
  scan_partition : ∀ key, (s.scan.filter fun b => b.1 = key).map Prod.snd = s.read key
  mem_scan : ∀ key c, (key, c) ∈ s.scan ↔ s.get? key c.name = some c
  scan_nodup : (s.scan.map fun b => (b.1, b.2.name)).Nodup

theorem Represents.readAlike {s : TableStore} {f : FlatStore} (h : Represents s f) :
    ReadAlike s f where
  get? := h.get?
  read := h.read_eq
  liveCells := fun now key => by
    rw [TableStore.liveCells, FlatStore.liveCells, h.read_eq]
  scan := h.scan_eq
  meanCells := h.meanCells_eq
  scan_partition := TableStore.scan_partition h.layers
  mem_scan := fun _ _ => TableStore.mem_scan h.layers
  scan_nodup := TableStore.scan_nodup h.layers

/-- **A table with its layers cannot be told from a flat store.**  After any run of writes,
flushes, truncations and retirements of an empty table, with hooks of any kind, each action has
ended in the same way, the hooks were called alike and hold the same state, and all reads
agree. -/
theorem layers_act_like_flat_store {σ : Type} (schema : TableSchema)
    (actions : List (StoreAction σ)) (st : σ) :
    let table := performAll TableStore.perform (.ofSchema schema) ([], st) actions
    let flat := performAll FlatStore.perform (.ofSchema schema) ([], st) actions
    table.1 = flat.1 ∧ table.2.2 = flat.2.2 ∧ ReadAlike table.2.1 flat.2.1 := by
  have h := (Represents.ofSchema schema).performAll ([], st) actions
  exact ⟨h.outcome, h.trace, h.represents.readAlike⟩

end WideColumn
