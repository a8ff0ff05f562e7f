import WideColumn.IndexedTable
import WideColumn.Proofs.FollowedChanges
import WideColumn.Schema.Compilation

/-!
# Runs of a table with its indexes

A base table whose writes all go through its indexes, with a clock that never goes back.  Flushes
of either kind of table are finished at any later time, and a truncation concerns the base table
and all of its indexes.  A run is a list of steps all of which succeed.

* `Deployment.step` — one step; it fails if the table or one of the indexes refuses the work;
* `Deployment.step_write` and the like — **what a step does** if it succeeds;
* `Tracks` — what is said of the look-ups in the base table and in the table of one index;
* `Tracks.write` — **from single cells to whole writes**, and `Tracks.before_change` into their
  midst;
* `Tracks.run`, `Tracks.run_writes` — what every step keeps holds after every run;
* `readings` — a small table, on which the results about indexes are tried.
-/

namespace WideColumn

open Effects KeptIndex

/-! ### Steps -/

/-- A base table with its indexes and the time. -/
structure Deployment where
  base : TableStore
  indexes : IndexSet
  now : Int
  /-- The changes of the base table that readers have seen, in order. -/
  history : List HookCall := []

/-- What can happen to a table with its indexes. -/
inductive DeploymentStep where
  /-- A write to a partition of the base table. -/
  | write (key : Bytes) (mutation : List Cell)
  | issueFlush (table : TableRef) (order : WriteOrder)
  | finishFlush (table : TableRef) (ticket : FlushTicket)
  /-- Drops the cells written at or before a time, and the entries too. -/
  | truncate (timestamp : Int)
  /-- Lets time pass. -/
  | wait (seconds : Nat)

namespace Deployment

/-- An empty table with indexes on it. -/
def start (schema : TableSchema) (indexes : IndexSet) (now : Int) : Deployment :=
  { base := TableStore.ofSchema schema, indexes, now }

/-- What the indexes know besides their own state. -/
def environment (d : Deployment) : Environment := ⟨d.now, dropsOldWhenMoved⟩

/-- A table, if it is there. -/
def store? (d : Deployment) : TableRef → Option TableStore
  | .base => some d.base
  | .index column => (d.indexes.members.find? column).map (·.store)

/-- Puts a table in place of the one that is meant. -/
def setStore (d : Deployment) (table : TableRef) (s : TableStore) : Deployment :=
  match table with
  | .base => { d with base := s }
  | .index column =>
    match d.indexes.members.find? column with
    | none => d
    | some k =>
      let members := d.indexes.members.insert column { k with store := s }
      { d with indexes := { d.indexes with members } }

/-- One step, unless it fails. -/
def step (d : Deployment) : DeploymentStep → Option Deployment
  | .write key mutation =>
    match runFrom (d.base.apply d.now (IndexSet.hook d.environment) key mutation) d.indexes with
    | (.ok base, indexes) =>
      let seen := (d.base.changes d.now key mutation).map (key, ·)
      some { d with base, indexes, history := d.history ++ seen }
    | (.error _, _) => none
  | .issueFlush table order =>
    match d.store? table with
    | none => none
    | some s =>
      match s.issueFlush order with
      | .ok (_, s', _) => some (d.setStore table s')
      | .error _ => none
  | .finishFlush table ticket =>
    match d.store? table with
    | none => none
    | some s => some (d.setStore table (s.finishFlush ticket).2)
  | .truncate timestamp =>
    match d.base.discard timestamp, d.indexes.truncateAll timestamp with
    | .ok base, (.ok (), indexes) => some { d with base, indexes }
    | _, _ => none
  | .wait seconds => some { d with now := d.now + seconds }

/-- Steps in turn, all of which succeed. -/
def run (d : Deployment) (steps : List DeploymentStep) : Option Deployment := steps.foldlM step d

theorem run_cons {d d' : Deployment} {a : DeploymentStep} {rest : List DeploymentStep} :
    d.run (a :: rest) = some d' ↔ ∃ d₁, d.step a = some d₁ ∧ d₁.run rest = some d' := by
  unfold run
  rw [List.foldlM_cons]
  exact Option.bind_eq_some_iff

/-! ### What a step does -/

/-- A write succeeds if the hook accepts all of its changes. -/
theorem step_write {d d' : Deployment} {key : Bytes} {mutation : List Cell}
    (h : d.step (.write key mutation) = some d') :
    ∃ base indexes,
      runFrom (d.base.apply d.now (IndexSet.hook d.environment) key mutation) d.indexes =
        (.ok base, indexes) ∧
      d' = { d with
        base
        indexes
        history := d.history ++ (d.base.changes d.now key mutation).map (key, ·) } := by
  unfold Deployment.step at h
  rcases hrun : runFrom (d.base.apply d.now (IndexSet.hook d.environment) key mutation) d.indexes
    with ⟨e | base, indexes⟩
  · simp only [hrun] at h
    cases h
  · simp only [hrun] at h
    cases h
    exact ⟨base, indexes, rfl, rfl⟩

theorem step_issueFlush {d d' : Deployment} {table : TableRef} {order : WriteOrder}
    (h : d.step (.issueFlush table order) = some d') :
    ∃ s ticket s' order', d.store? table = some s ∧ s.issueFlush order = .ok (ticket, s', order') ∧
      d' = d.setStore table s' := by
  unfold Deployment.step at h
  cases hs : d.store? table with
  | none => simp [hs] at h
  | some s =>
    rcases hissue : s.issueFlush order with e | ⟨ticket, s', order'⟩
    · simp [hs, hissue] at h
    · simp only [hs, hissue] at h
      cases h
      exact ⟨s, ticket, s', order', rfl, hissue, rfl⟩

theorem step_finishFlush {d d' : Deployment} {table : TableRef} {ticket : FlushTicket}
    (h : d.step (.finishFlush table ticket) = some d') :
    ∃ s, d.store? table = some s ∧ d' = d.setStore table (s.finishFlush ticket).2 := by
  unfold Deployment.step at h
  cases hs : d.store? table with
  | none => simp [hs] at h
  | some s =>
    simp only [hs] at h
    cases h
    exact ⟨s, rfl, rfl⟩

theorem step_truncate {d d' : Deployment} {timestamp : Int}
    (h : d.step (.truncate timestamp) = some d') :
    ∃ base indexes, d.base.discard timestamp = .ok base ∧
      d.indexes.truncateAll timestamp = (.ok (), indexes) ∧ d' = { d with base, indexes } := by
  unfold Deployment.step at h
  cases hbase : d.base.discard timestamp with
  | error e => simp [hbase] at h
  | ok base =>
    rcases hall : d.indexes.truncateAll timestamp with ⟨e | ⟨⟨⟩⟩, indexes⟩
    · simp [hbase, hall] at h
    · simp only [hbase, hall] at h
      cases h
      exact ⟨base, indexes, rfl, rfl, rfl⟩

end Deployment

/-! ### One index -/

/-- Every cell is found under its own name, which the layout of the table makes. -/
def Ledger.Named (s : TableSchema) (v : Ledger) : Prop :=
  ∀ key name b, v key name = some b → b.name = name ∧ s.HasName name

theorem Ledger.Named.set {s : TableSchema} {v : Ledger} (h : v.Named s) (key : Bytes) {c : Cell}
    (hc : s.HasName c.name) : (v.set key c).Named s := by
  intro k name b hb
  unfold Ledger.set at hb
  split at hb
  · rename_i hk
    cases hb
    exact ⟨hk.2.symm, hk.2 ▸ hc⟩
  · exact h k name b hb

theorem Ledger.Named.discard {s : TableSchema} {v : Ledger} (h : v.Named s) (timestamp : Int) :
    (v.discard timestamp).Named s :=
  fun key name b hb => h key name b (Option.filter_eq_some_iff.1 hb).1

/-- What holds of the time, the look-ups in a base table, its history and the look-ups in the
table of an index. -/
abbrev IndexInvariant := Int → Ledger → List HookCall → Ledger → Prop

/-- The index of a column works, and an invariant holds of its table. -/
structure Tracks (I : IndexInvariant) (x : SecondaryIndex) (d : Deployment) : Prop where
  base : d.base.layers.WellFormed
  named : Ledger.Named x.base d.base.get?
  index : ∃ k, d.indexes.members.find? x.column = some k ∧ k.Healthy ∧ k.index = x ∧
    I d.now d.base.get? d.history k.store.get?

/-- Each cell of a write keeps the invariant, together with what the index does about it. -/
structure KeptByCells (I : IndexInvariant) (x : SecondaryIndex) : Prop where
  unseen : ∀ {now v log w key c}, I now v log w → Ledger.Named x.base v → x.base.HasName c.name →
    c.effect now (v key c.name) = .unseen → I now (v.set key c) log w
  uncovered : ∀ {now v log w key c change}, I now v log w → Ledger.Named x.base v →
    x.base.HasName c.name → x.covers c = false → c.effect now (v key c.name) = .visible change →
    I now (v.set key c) (log ++ [(key, change)]) w
  covered : ∀ {now v log w w' key c change}, I now v log w → Ledger.Named x.base v →
    x.base.HasName c.name → x.covers c = true → c.effect now (v key c.name) = .visible change →
    Follows x now key change w w' → I now (v.set key c) (log ++ [(key, change)]) w'

/-- Truncations and passing time keep the invariant as well. -/
structure KeptBySteps (I : IndexInvariant) (x : SecondaryIndex) : Prop extends KeptByCells I x where
  discard : ∀ {now v log w} (timestamp : Int), I now v log w →
    I now (v.discard timestamp) log (w.discard timestamp)
  later : ∀ {now later v log w}, now ≤ later → I now v log w → I later v log w

namespace Tracks

variable {I : IndexInvariant} {x : SecondaryIndex} {d d' : Deployment}

/-- The cell that a change is about has the name of the cell that was written. -/
theorem subject_name {s : TableSchema} {v : Ledger} (hv : v.Named s) {key : Bytes} {c : Cell}
    {now : Int} {change : Cell.Change} (h : c.effect now (v key c.name) = .visible change) :
    (subject change).name = c.name := by
  rcases Cell.visible_cases h with ⟨-, -, rfl⟩ | ⟨o, -, -, -, rfl⟩ | ⟨o, ho, -, -, -, rfl⟩
  · rfl
  · rfl
  · exact (hv key c.name o ho).1

/-- An index that was added to a table, and records nothing yet. -/
theorem add (hbase : d.base.layers.WellFormed) (hv : Ledger.Named x.base d.base.get?)
    {indexes : IndexSet} (hadd : d.indexes.add x = .ok indexes)
    (hI : I d.now d.base.get? d.history (fun _ _ => none)) : Tracks I x { d with indexes } where
  base := hbase
  named := hv
  index := ⟨ofIndex x, IndexSet.find?_of_add hadd, Healthy.ofIndex x, rfl, hI⟩

/-- An index that was added to empty tables. -/
theorem start {others indexes : IndexSet} (hadd : others.add x = .ok indexes) (now : Int)
    (hI : I now (fun _ _ => none) [] (fun _ _ => none)) :
    Tracks I x (.start x.base indexes now) :=
  add (d := .start x.base others now) Layers.WellFormed.empty (fun _ _ _ h => by cases h) hadd hI

/-- What holds in the midst of a write to a partition, after the hook has been shown the changes
`log`: an invariant of the look-ups in the base table as they are going to be, and in the table of
the index. -/
def Midway (I : IndexInvariant) (x : SecondaryIndex) (d : Deployment) (key : Bytes) (v : Ledger)
    (log : List Cell.Change) (s : IndexSet) : Prop :=
  Ledger.Named x.base v ∧ ∃ k, s.members.find? x.column = some k ∧ k.Healthy ∧ k.index = x ∧
    I d.now v (d.history ++ log.map (key, ·)) k.store.get?

theorem midway (h : Tracks I x d) (key : Bytes) : Midway I x d key d.base.get? [] d.indexes := by
  obtain ⟨k, hk, hhealthy, hindex, hinv⟩ := h.index
  exact ⟨h.named, k, hk, hhealthy, hindex, by simpa using hinv⟩

theorem Midway.unseen (hI : KeptByCells I x) {key : Bytes} {v : Ledger} {log : List Cell.Change}
    {s : IndexSet} (h : Midway I x d key v log s) {c : Cell} (hname : x.base.HasName c.name)
    (heff : c.effect d.now (v key c.name) = .unseen) : Midway I x d key (v.set key c) log s := by
  obtain ⟨hv, k, hk, hhealthy, hindex, hinv⟩ := h
  exact ⟨hv.set key hname, k, hk, hhealthy, hindex, hI.unseen hinv hv hname heff⟩

theorem Midway.visible (hI : KeptByCells I x) {key : Bytes} {v : Ledger} {log : List Cell.Change}
    {s s' : IndexSet} (h : Midway I x d key v log s) {c : Cell} (hname : x.base.HasName c.name)
    {change : Cell.Change} (heff : c.effect d.now (v key c.name) = .visible change)
    (hhook : runFrom (IndexSet.hook d.environment key change) s = (.ok (), s')) :
    Midway I x d key (v.set key c) (log ++ [change]) s' := by
  obtain ⟨hv, k, hk, hhealthy, hindex, hinv⟩ := h
  have hcovers := x.covers_congr (subject_name hv heff)
  obtain ⟨k', hk', hdone⟩ := IndexSet.hook_ok hk hhealthy (showsLive_of_effect heff) hhook
  rw [hindex, hcovers] at hdone
  refine ⟨hv.set key hname, k', hk', ?_⟩
  rw [List.map_append, ← List.append_assoc]
  rcases hdone with ⟨hcov, w, hw, hbecame⟩ | ⟨hcov, hbecame⟩
  · refine ⟨hbecame.healthy, hbecame.index.trans hindex, ?_⟩
    rw [hbecame.get?]
    exact hI.covered hinv hv hname hcov heff hw
  · refine ⟨hbecame.healthy, hbecame.index.trans hindex, ?_⟩
    rw [hbecame.get?]
    exact hI.uncovered hinv hv hname hcov heff

/-- **From single cells to whole writes.** -/
theorem write (hI : KeptByCells I x) (h : Tracks I x d) {key : Bytes} {mutation : List Cell}
    (hnames : ∀ c ∈ mutation, x.base.HasName c.name)
    (hstep : d.step (.write key mutation) = some d') : Tracks I x d' := by
  obtain ⟨base, indexes, hrun, rfl⟩ := Deployment.step_write hstep
  obtain ⟨hnamed, hindex⟩ := TableStore.apply_induction h.base hrun (Midway I x d key)
    (fun _ _ _ c hc hmid heff => hmid.unseen hI (hnames c hc) heff)
    (fun _ _ _ _ c _ hc hmid heff hhook => hmid.visible hI (hnames c hc) heff hhook)
    (h.midway key)
  obtain ⟨-, rfl, -⟩ := TableStore.apply_ok hrun
  exact ⟨TableStore.written_wellFormed h.base d.now key mutation, hnamed, hindex⟩

/-- What holds whenever an accepted write is about to show a change to the indexes. -/
theorem before_change (hI : KeptByCells I x) (h : Tracks I x d) {key : Bytes}
    {mutation : List Cell} (hnames : ∀ c ∈ mutation, x.base.HasName c.name)
    (hstep : d.step (.write key mutation) = some d') {before after : List Cell.Change}
    {change : Cell.Change}
    (hchanges : d.base.changes d.now key mutation = before ++ change :: after) :
    ∃ (s s' : IndexSet) (v : Ledger) (c : Cell),
      runFrom (before.forM (IndexSet.hook d.environment key)) d.indexes = (.ok (), s) ∧
      runFrom (IndexSet.hook d.environment key change) s = (.ok (), s') ∧
      Midway I x d key v before s ∧ x.base.HasName c.name ∧
      c.effect d.now (v key c.name) = .visible change := by
  obtain ⟨base, indexes, hrun, -⟩ := Deployment.step_write hstep
  obtain ⟨-, -, hhook⟩ := TableStore.apply_ok hrun
  rw [hchanges] at hhook
  obtain ⟨s, hbefore, hrest⟩ := forM_append_eq_ok.1 hhook
  obtain ⟨⟨⟩, s', hchange, -⟩ := bind_eq_ok.1 hrest
  obtain ⟨v, c, hc, hmid, heff⟩ := TableStore.changes_before (Midway I x d key)
    (fun _ _ _ c hc hmid heff => hmid.unseen hI (hnames c hc) heff)
    (fun _ _ _ _ c _ hc hmid heff hhook => hmid.visible hI (hnames c hc) heff hhook)
    (h.midway key) hchanges hbefore
  exact ⟨s, s', v, c, hbefore, hchange, hmid, hnames c hc, heff⟩

/-- A table that was rearranged answers as before. -/
theorem setStore (h : Tracks I x d) {table : TableRef} {s s' : TableStore}
    (hs : d.store? table = some s) (hsame : s.layers.WellFormed → s.Rearranged s') :
    Tracks I x (d.setStore table s') := by
  cases table with
  | base =>
    cases hs
    have hsame := hsame h.base
    have hget : s'.get? = d.base.get? := hsame.get?
    exact ⟨hsame.layers, hget ▸ h.named, hget ▸ h.index⟩
  | index column =>
    obtain ⟨k, hk, hhealthy, hindex, hinv⟩ := h.index
    simp only [Deployment.store?] at hs
    cases hfind : d.indexes.members.find? column with
    | none => simp [hfind] at hs
    | some k₁ =>
      simp only [hfind, Option.map_some, Option.some.injEq] at hs
      subst hs
      simp only [Deployment.setStore, hfind]
      refine ⟨h.base, h.named, ?_⟩
      simp only [Bindings.find?_insert]
      by_cases hc : x.column = column
      · subst hc
        cases hfind.symm.trans hk
        have hsame := hsame hhealthy.layers
        refine ⟨_, if_pos rfl, ⟨hhealthy.state, hhealthy.undisturbed, hsame.layers⟩, hindex, ?_⟩
        rw [hsame.get?]
        exact hinv
      · exact ⟨k, by rw [if_neg hc]; exact hk, hhealthy, hindex, hinv⟩

theorem flush (h : Tracks I x d) {table : TableRef} {order : WriteOrder}
    (hstep : d.step (.issueFlush table order) = some d') : Tracks I x d' := by
  obtain ⟨s, ticket, s', order', hs, hissue, rfl⟩ := Deployment.step_issueFlush hstep
  exact h.setStore hs fun hwf => TableStore.rearranged_of_issueFlush hwf hissue

theorem finish (h : Tracks I x d) {table : TableRef} {ticket : FlushTicket}
    (hstep : d.step (.finishFlush table ticket) = some d') : Tracks I x d' := by
  obtain ⟨s, hs, rfl⟩ := Deployment.step_finishFlush hstep
  exact h.setStore hs fun hwf => TableStore.finishFlush_rearranged hwf ticket

theorem truncate (h : Tracks I x d) {timestamp : Int}
    (hI : ∀ {v log w}, I d.now v log w → I d.now (v.discard timestamp) log (w.discard timestamp))
    (hstep : d.step (.truncate timestamp) = some d') : Tracks I x d' := by
  obtain ⟨k, hk, hhealthy, hindex, hinv⟩ := h.index
  obtain ⟨base, indexes, hdiscard, hall, rfl⟩ := Deployment.step_truncate hstep
  have hbase := TableStore.truncated_of_discard h.base hdiscard
  obtain ⟨k', hk', hbecame⟩ := IndexSet.truncateAll_ok hk hhealthy hall
  refine ⟨hbase.layers, ?_, k', hk', hbecame.healthy, hbecame.index.trans hindex, ?_⟩
  · show Ledger.Named x.base base.get?
    rw [hbase.get?]
    exact h.named.discard timestamp
  · show I d.now base.get? d.history k'.store.get?
    rw [hbase.get?, hbecame.get?]
    exact hI hinv

/-- **What every step keeps holds after every run.** -/
theorem run (hI : KeptBySteps I x) {steps : List DeploymentStep}
    (hnames : ∀ key mutation, .write key mutation ∈ steps → ∀ c ∈ mutation, x.base.HasName c.name)
    (h : Tracks I x d) (hrun : d.run steps = some d') : Tracks I x d' := by
  induction steps generalizing d with
  | nil =>
    cases hrun
    exact h
  | cons a rest ih =>
    obtain ⟨d₁, hstep, hrest⟩ := Deployment.run_cons.1 hrun
    refine ih (fun key mutation hmem => hnames key mutation (List.mem_cons_of_mem _ hmem)) ?_ hrest
    cases a with
    | write key mutation =>
      exact h.write hI.toKeptByCells (hnames key mutation List.mem_cons_self) hstep
    | issueFlush table order => exact h.flush hstep
    | finishFlush table ticket => exact h.finish hstep
    | truncate timestamp => exact h.truncate (hI.discard timestamp) hstep
    | wait seconds =>
      cases hstep
      have hle : d.now ≤ d.now + seconds := by omega
      obtain ⟨k, hk, hhealthy, hindex, hinv⟩ := h.index
      exact ⟨h.base, h.named, k, hk, hhealthy, hindex, hI.later hle hinv⟩

/-- A run of writes needs no more than that each cell keeps the invariant, and takes no time. -/
theorem run_writes (hI : KeptByCells I x) {writes : List (Bytes × List Cell)}
    (hnames : ∀ write ∈ writes, ∀ c ∈ write.2, x.base.HasName c.name) (h : Tracks I x d)
    (hrun : d.run (writes.map fun write => .write write.1 write.2) = some d') :
    Tracks I x d' ∧ d'.now = d.now := by
  induction writes generalizing d with
  | nil =>
    cases hrun
    exact ⟨h, rfl⟩
  | cons write rest ih =>
    obtain ⟨d₁, hstep, hrest⟩ := Deployment.run_cons.1 hrun
    have hnow : d₁.now = d.now := by
      obtain ⟨_, _, -, rfl⟩ := Deployment.step_write hstep
      rfl
    have h₁ := h.write hI (hnames write List.mem_cons_self) hstep
    obtain ⟨h', hnow'⟩ := ih (fun w hw => hnames w (List.mem_cons_of_mem _ hw)) h₁ hrest
    exact ⟨h', hnow'.trans hnow⟩

end Tracks

/-! ### Readings of rivers -/

/-- Readings at rivers: a row for each hour, with a level and a note. -/
def readingsDefinition : TableDefinition where
  keyspace := "rivers"
  name := "readings"
  columns := [⟨"river", .text, false⟩, ⟨"hour", .text, false⟩, ⟨"level", .text, false⟩,
    ⟨"note", .text, false⟩]
  partitionKeys := [["river"]]
  clusteringColumns := ["hour"]

/-- The table of the readings. -/
def readings : TableSchema where
  keyspace := "rivers"
  name := "readings"
  keyLayout := .single .text
  cellLayout := .compoundSparse [.text] none
  defaultType := .blob
  isDense := false
  isCompact := false
  columns := [⟨"river", .text, .partitionKey, none⟩, ⟨"hour", .text, .clusteringKey, some 0⟩,
    ⟨"level", .text, .regular, some 1⟩, ⟨"note", .text, .regular, some 1⟩]
  compactValue := none
  properties := {}

theorem readings_compile : readingsDefinition.compile = .ok readings := by decide

/-- The name of a column's cell in the row of hour 8. -/
def readingName (column : String) : Bytes :=
  ((readings.cellLayout.encode (.regular [[56]] column)).toOption).getD []

/-- A reading at hour 8. -/
def reading (column : String) (value : UInt8) (timestamp : Int) : Cell :=
  .ofValue (readingName column) [value] timestamp

theorem hasName_level : readings.HasName (readingName "level") := ⟨.regular [[56]] "level", rfl⟩

theorem hasName_note : readings.HasName (readingName "note") := ⟨.regular [[56]] "note", rfl⟩

/-- The index of the levels. -/
def readingsByLevel : SecondaryIndex where
  base := readings
  column := "level"
  indexName := none
  target := .regular
  indexSchema := SecondaryIndex.indexTable readings "level" "level" .regular .text

theorem readingsByLevel_ofColumn :
    SecondaryIndex.ofColumn readings "level" none = .ok readingsByLevel := rfl

/-- The readings, with an index, before any was written. -/
def Deployment.ofReadings (x : SecondaryIndex) : Deployment :=
  .start readings { members := [(x.column, .ofIndex x)] } 0

end WideColumn
