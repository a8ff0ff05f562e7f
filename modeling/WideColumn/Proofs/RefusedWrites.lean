import WideColumn.Proofs.Deployments
import WideColumn.Proofs.Requests
import WideColumn.Proofs.UpkeepRuns

/-!
# Writes that fail

A write of the base table is stored as a whole or not at all.  The indexes follow its changes one
after the other, and what an index table has accepted before the write fails stays there.

* `KeptIndex.Traced` — what a table became of by writes that it accepted;
* `IndexSet.hook_traced` — **the hook leaves in each index table what the table accepted**, whether
  it succeeds or fails;
* `refused_write_leaves_accepted_entries` — the same for a base write that fails, which leaves the
  base table as it was;
* `refused_write_loses_entry` — a write that fails, and a live cell whose entry is gone.
-/

namespace WideColumn

open Effects

/-! ### Accepted writes -/

/-- The writes among the accesses that the index table accepted. -/
def acceptedWrites (accesses : List IndexAccess) : List (Bytes × List Cell) :=
  accesses.filterMap fun
    | .write true key cells => some (key, cells)
    | _ => none

/-- The table after several writes that no hook is shown. -/
def TableStore.writeAll (s : TableStore) (now : Int) (writes : List (Bytes × List Cell)) :
    Except EngineError TableStore :=
  writes.foldlM (fun s write => s.write now write.1 write.2) s

theorem TableStore.writeAll_append (s : TableStore) (now : Int)
    (writes more : List (Bytes × List Cell)) :
    s.writeAll now (writes ++ more) = s.writeAll now writes >>= fun s => s.writeAll now more :=
  List.foldlM_append

namespace KeptIndex

/-- The index is as it was, and its table what it becomes of by writes that it accepts. -/
structure Traced (now : Int) (k k' : KeptIndex) (writes : List (Bytes × List Cell)) : Prop where
  index : k'.index = k.index
  state : k'.state = k.state
  disturbance : k'.disturbance = k.disturbance
  store : k.store.writeAll now writes = .ok k'.store

variable {now : Int} {k k' k'' : KeptIndex}

theorem Traced.refl (now : Int) (k : KeptIndex) : Traced now k k [] := ⟨rfl, rfl, rfl, rfl⟩

theorem Traced.trans {writes more : List (Bytes × List Cell)} (h : Traced now k k' writes)
    (h' : Traced now k' k'' more) : Traced now k k'' (writes ++ more) := by
  refine ⟨h'.index.trans h.index, h'.state.trans h.state, h'.disturbance.trans h.disturbance, ?_⟩
  rw [TableStore.writeAll_append, h.store]
  exact h'.store

/-- **Single accesses leave in the table what it accepted.** -/
theorem traced_keptByAccess (hcalm : k.disturbance.retirement = none) :
    KeptByAccess now fun k' => Traced now k k' (acceptedWrites k'.journal) where
  disturbed := fun k' kind h => by
    have hsame : k'.disturb kind = k' := by
      unfold disturb
      rw [h.disturbance, hcalm]
    rw [hsame]
    exact h
  accepted := fun k' key c store h hwrite => by
    have hstore : k'.store.write now key [c] = .ok store := write_of_tableWrite hwrite
    have hlast : Traced now k' { k' with store } [(key, [c])] :=
      ⟨rfl, rfl, rfl, except_bind_eq_ok.2 ⟨store, hstore, rfl⟩⟩
    obtain ⟨hindex, hstate, hdisturbance, hall⟩ := h.trans hlast
    have hjournal : acceptedWrites (k'.journal ++ [.write true key [c]]) =
        acceptedWrites k'.journal ++ [(key, [c])] := by
      simp [acceptedWrites]
    exact ⟨hindex, hstate, hdisturbance, hjournal ▸ hall⟩
  refused := fun k' key c h => by
    have hjournal : acceptedWrites (k'.journal ++ [.write false key [c]]) =
        acceptedWrites k'.journal := by
      simp [acceptedWrites]
    exact ⟨h.index, h.state, h.disturbance, hjournal ▸ h.store⟩

end KeptIndex

/-! ### All indexes -/

namespace IndexSet

/-- Each index of a column has become another one of that column. -/
def Becomes (s s' : IndexSet) (R : String → KeptIndex → KeptIndex → Prop) : Prop :=
  ∀ column, (s.members.find? column = none ∧ s'.members.find? column = none) ∨
    ∃ k k', s.members.find? column = some k ∧ s'.members.find? column = some k' ∧ R column k k'

/-- No retirement is planned, and there is one index for each column. -/
structure Calm (s : IndexSet) : Prop where
  sorted : s.members.Sorted
  retirement : ∀ column k, s.members.find? column = some k → k.disturbance.retirement = none

/-- Each index table is what it became of by the writes that it accepted, and the journal tells
them. -/
structure Traced (now : Int) (s s' : IndexSet) (journal : IndexJournal) : Prop where
  calm : s'.Calm
  noted : s'.journal = s.journal ++ journal
  becomes : s.Becomes s' fun column k k' =>
    KeptIndex.Traced now k k' (acceptedWrites (journal.of column))

variable {now : Int} {s s' s'' : IndexSet}

theorem Traced.refl (h : s.Calm) : Traced now s s [] where
  calm := h
  noted := (List.append_nil _).symm
  becomes := fun column => by
    cases hk : s.members.find? column with
    | none => exact .inl ⟨rfl, rfl⟩
    | some k => exact .inr ⟨k, k, rfl, rfl, .refl now k⟩

theorem Traced.trans {journal more : IndexJournal} (h : Traced now s s' journal)
    (h' : Traced now s' s'' more) : Traced now s s'' (journal ++ more) where
  calm := h'.calm
  noted := by rw [h'.noted, h.noted, List.append_assoc]
  becomes := fun column => by
    rcases h.becomes column with ⟨hk, hk'⟩ | ⟨k, k', hk, hk', hfirst⟩ <;>
      rcases h'.becomes column with ⟨hk₁, hk''⟩ | ⟨k₁, k'', hk₁, hk'', hsecond⟩
    · exact .inl ⟨hk, hk''⟩
    · rw [hk'] at hk₁
      cases hk₁
    · rw [hk'] at hk₁
      cases hk₁
    · rw [hk'] at hk₁
      cases hk₁
      have hof : acceptedWrites (IndexJournal.of (journal ++ more) column) =
          acceptedWrites (journal.of column) ++ acceptedWrites (more.of column) := by
        rw [IndexJournal.of_append]
        exact List.filterMap_append
      refine .inr ⟨k, k'', hk, hk'', ?_⟩
      show KeptIndex.Traced now k k'' _
      rw [hof]
      exact hfirst.trans hsecond

/-- An index table that accepted nothing is as it was. -/
theorem Traced.store_eq {journal : IndexJournal} (h : Traced now s s' journal) {column : String}
    {k : KeptIndex} (hk : s.members.find? column = some k)
    (hnone : acceptedWrites (journal.of column) = []) :
    ∃ k', s'.members.find? column = some k' ∧ k'.store = k.store := by
  rcases h.becomes column with ⟨hno, -⟩ | ⟨k₁, k', hk₁, hk', htraced⟩
  · rw [hno] at hk
    cases hk
  · rw [hk] at hk₁
    cases hk₁
    refine ⟨k', hk', ?_⟩
    have hstore := htraced.store
    rw [hnone] at hstore
    exact (Except.ok.inj hstore).symm

/-- **The hook leaves in each index table what the table accepted.** -/
theorem hook_traced (h : s.Calm) (env : Environment) (key : Bytes) (change : Cell.Change) :
    ∃ journal, Traced env.now s (runFrom (hook env key change) s).2 journal := by
  refine ⟨(performAll (followCovered env key change) s.members).2.2, ?_⟩
  have hbecomes : s.Becomes (runFrom (hook env key change) s).2 fun column k k' =>
      KeptIndex.Traced env.now k k'
        (acceptedWrites ((performAll (followCovered env key change) s.members).2.2.of column)) := by
    intro column
    cases hk : s.members.find? column with
    | none => exact .inl ⟨rfl, (performAll_find?_eq_none _).2 hk⟩
    | some k =>
      obtain ⟨k', hk', hdone⟩ := performAll_member (followCovered env key change) h.sorted hk
      refine .inr ⟨k, k', rfl, hk', ?_⟩
      rcases hdone with ⟨rfl, hnone⟩ | hdone
      · rw [hnone]
        exact .refl env.now k'
      · have hcalm := h.retirement column k hk
        have hkept := (KeptIndex.traced_keptByAccess (k := { k with journal := [] }) hcalm
          ).followCovered (rfl : env.now = env.now) key change { k with journal := [] }
          (.refl env.now _)
        rw [hdone.index, hdone.accesses]
        exact ⟨hkept.index, hkept.state, hkept.disturbance, hkept.store⟩
  refine ⟨⟨performAll_sorted _ h.sorted, fun column k' hk' => ?_⟩, rfl, hbecomes⟩
  rcases hbecomes column with ⟨-, hnone⟩ | ⟨k, k₁, hk, hk₁, htraced⟩
  · rw [hnone] at hk'
    cases hk'
  · rw [hk'] at hk₁
    cases hk₁
    rw [htraced.disturbance]
    exact h.retirement column k hk

end IndexSet

/-! ### Writes of the base table -/

/-- What a write of the base table leaves in the indexes, whether it succeeds or fails. -/
theorem TableStore.apply_traced {s : IndexSet} (h : s.Calm) (base : TableStore)
    (env : Environment) (key : Bytes) (mutation : List Cell) :
    ∃ journal, IndexSet.Traced env.now s
      (runFrom (base.apply env.now (IndexSet.hook env) key mutation) s).2 journal := by
  refine TableStore.apply_keeps (P := fun s' => ∃ journal, IndexSet.Traced env.now s s' journal)
    base env.now (fun change _ s' hs' => ?_) s ⟨[], .refl h⟩
  obtain ⟨journal, hs'⟩ := hs'
  obtain ⟨more, hmore⟩ := IndexSet.hook_traced hs'.calm env key change
  exact ⟨_, hs'.trans hmore⟩

/-- **What a failed write leaves behind.**  If a write of the base table fails, then nothing has
changed except the tables of the indexes.  Each of these holds exactly what it becomes of by the
index writes that it accepted before the failure; so an index table is as it was if it accepted
none, and all is as it was if it is the base table that refuses the write. -/
theorem refused_write_leaves_accepted_entries {t t' : IndexedTable} (hcalm : t.indexes.Calm)
    {key : Bytes} {cells : List Cell} {token : Option String} {e : RequestError}
    (h : runFrom (IndexedTable.apply key cells false token) t = (.error e, t')) :
    (t.base.checkWrite key cells ≠ .ok () → t' = t) ∧
    ∃ members journal, t' = { t with indexes := ⟨members, t.indexes.journal ++ journal⟩ } ∧
      (t.indexes.Becomes t'.indexes fun column k k' =>
        KeptIndex.Traced t.environment.now k k' (acceptedWrites (journal.of column))) ∧
      ∀ column k, t.indexes.members.find? column = some k →
        acceptedWrites (journal.of column) = [] →
        ∃ k', t'.indexes.members.find? column = some k' ∧ k'.store = k.store := by
  rcases t.apply_cases key cells false token with
    ⟨e₁, hrequest⟩ | ⟨error, indexes, hrun, hrequest⟩ | ⟨base, indexes, -, hrequest⟩
  · cases h.symm.trans hrequest
    have htraced : IndexSet.Traced t.environment.now _ _ [] := .refl hcalm
    exact ⟨fun _ => rfl, _, [], by rw [← htraced.noted], htraced.becomes,
      fun column k hk hnone => htraced.store_eq hk hnone⟩
  · cases h.symm.trans hrequest
    have hrun : runFrom (t.base.apply t.environment.now (IndexSet.hook t.environment) key cells)
        t.indexes = (.error error, indexes) := hrun
    obtain ⟨journal, htraced⟩ := TableStore.apply_traced hcalm t.base t.environment key cells
    rw [hrun] at htraced
    refine ⟨fun hcheck => ?_, indexes.members, journal, by rw [← htraced.noted], htraced.becomes,
      fun column k hk hnone => htraced.store_eq hk hnone⟩
    rw [TableStore.apply_eq_plan] at hrun
    cases hc : t.base.checkWrite key cells with
    | ok u => exact absurd hc hcheck
    | error e₁ =>
      rw [hc] at hrun
      cases hrun
      rfl
  · cases h.symm.trans hrequest

/-! ### Tides -/

/-- Tides of rivers: the level at each hour and minute, stored compactly. -/
def tidesDefinition : TableDefinition where
  keyspace := "rivers"
  name := "tides"
  columns := [⟨"river", .text, false⟩, ⟨"hour", .text, false⟩, ⟨"minute", .text, false⟩,
    ⟨"level", .text, false⟩]
  partitionKeys := [["river"]]
  clusteringColumns := ["hour", "minute"]
  compactStorage := true

/-- The table of the tides: its cells are named by the hour and the minute, or by the hour. -/
def tides : TableSchema where
  keyspace := "rivers"
  name := "tides"
  keyLayout := .single .text
  cellLayout := .compoundDense [.text, .text]
  defaultType := .text
  isDense := true
  isCompact := true
  columns := [⟨"river", .text, .partitionKey, none⟩, ⟨"hour", .text, .clusteringKey, some 0⟩,
    ⟨"minute", .text, .clusteringKey, some 1⟩, ⟨"level", .text, .compactValue, none⟩]
  compactValue := some (.column "level")
  properties := {}

theorem tides_compile : tidesDefinition.compile = .ok tides := by decide

/-- A level at some time of the day. -/
def tide (time : List Bytes) (value : UInt8) (timestamp : Int) : Cell :=
  .ofValue (((tides.cellLayout.encode (.dense time)).toOption).getD []) [value] timestamp

/-- The tides with an index of the levels, and one level of river 65. -/
def recordedTide : IndexedTable :=
  (runFrom (do
    let _ ← IndexedTable.addIndex "level" none
    IndexedTable.apply [65] [tide [[56], [49]] 49 1] false none)
    (IndexedTable.ofSchema tides ⟨0, dropsOldWhenMoved⟩)).2

/-- Another level at that time, and one that lacks the minute. -/
def risingTide : List Cell := [tide [[56], [49]] 50 2, tide [[56]] 50 1]

/-- The entries of a level that are found. -/
def IndexedTable.levelEntries (t : IndexedTable) (level : UInt8) : Option (List Cell) :=
  (t.index? "level").map fun k => k.store.liveCells 0 [level]

theorem recordedTide_calm : recordedTide.indexes.Calm := by
  have hmembers : recordedTide.indexes.members.map
      (fun b => (b.1, b.2.disturbance.retirement)) = [("level", none)] := by decide +kernel
  obtain ⟨b, hb, hpair⟩ := List.map_eq_singleton_iff.1 hmembers
  refine ⟨?_, fun column k hk => ?_⟩
  · rw [hb]
    exact List.pairwise_singleton _ _
  · have hmem := Bindings.mem_of_find? hk
    rw [hb] at hmem
    cases List.mem_singleton.1 hmem
    exact (Prod.mk.inj hpair).2

/-- The index table holds what it accepted of a write that failed. -/
theorem refused_write_leaves_accepted_tides : recordedTide.indexes.Calm ∧
    ∃ e t', runFrom (IndexedTable.apply [65] risingTide false none) recordedTide = (.error e, t') ∧
      ∃ journal, t'.indexes.journal = recordedTide.indexes.journal ++ journal ∧
        recordedTide.indexes.Becomes t'.indexes fun column k k' =>
          KeptIndex.Traced recordedTide.environment.now k k'
            (acceptedWrites (journal.of column)) := by
  have herror : (runFrom (IndexedTable.apply [65] risingTide false none) recordedTide).1 =
      .error (.failed (.index (.missingComponent "level"))) := by decide +kernel
  refine ⟨recordedTide_calm, _, _, Prod.ext herror rfl, ?_⟩
  obtain ⟨-, members, journal, hsame, hbecomes, -⟩ :=
    refused_write_leaves_accepted_entries recordedTide_calm (Prod.ext herror rfl)
  refine ⟨journal, ?_, hbecomes⟩
  rw [hsame]

/-- **An entry that is lost.**  The second cell has no place in the index and the write fails; but
the index has followed the first one, and the old level, which is still there, is not found. -/
theorem refused_write_loses_entry :
    tidesDefinition.compile = .ok tides ∧
    recordedTide.levelEntries 49 = some [.ofValue [0, 1, 65, 0, 0, 1, 56, 0, 0, 1, 49, 0] [] 1] ∧
    (runFrom (IndexedTable.apply [65] risingTide false none) recordedTide).1 =
      .error (.failed (.index (.missingComponent "level"))) ∧
    (runFrom (IndexedTable.apply [65] risingTide false none) recordedTide).2.base.liveCells 0 [65] =
      [tide [[56], [49]] 49 1] ∧
    (runFrom (IndexedTable.apply [65] risingTide false none) recordedTide).2.levelEntries 49 =
      some [] := by
  refine ⟨tides_compile, ?_, ?_, ?_, ?_⟩ <;> decide +kernel

end WideColumn
