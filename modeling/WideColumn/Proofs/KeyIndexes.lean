import WideColumn.Proofs.SharedEntries

/-!
# Indexes of key columns

An entry of an index on a column of the primary key belongs to all cells of a row, or of all rows
that begin alike.  It depends on the name of a cell alone, so no update ever leaves an entry.  What
hides an entry is a deletion: it marks the entry as deleted at the time of the deleted cell, and so
hides what the other cells of the row recorded there up to that time.

* `entry_congr_of_key` — only the name of a cell matters;
* `removedAt_iff_deleted` — only deletions remove;
* `key_index_entry_found_iff` — **when an entry is found**: one of its live cells is newer than
  every deleted one;
* `key_index_loses_row` — a row with a live cell that the index does not find.
-/

namespace WideColumn

namespace SecondaryIndex

variable {x : SecondaryIndex}

/-- The index is on a column of the primary key. -/
def IsOnKeyColumn (x : SecondaryIndex) : Prop := x.target.role.isKey = true

theorem isOnKeyColumn_of_role (hx : x.IsResolved)
    (h : x.base.role? x.column = some .partitionKey ∨
      x.base.role? x.column = some .clusteringKey) : x.IsOnKeyColumn := by
  unfold IsResolved at hx
  unfold IsOnKeyColumn
  rcases h with h | h <;>
    · rw [hx] at h
      rw [Option.some.inj h]
      rfl

/-- **Only the name of a cell matters** to an index on a key column. -/
theorem entry_congr_of_key (h : x.IsOnKeyColumn) (key : Bytes) {c d : Cell}
    (hname : c.name = d.name) : x.entry key c = x.entry key d := by
  have hvalue : ∀ name, x.recordedValue key name c = x.recordedValue key name d := by
    intro name
    unfold IsOnKeyColumn at h
    unfold recordedValue
    cases ht : x.target with
    | partitionKey component => cases component <;> rfl
    | clusteringKey position => rfl
    | regular => simp [ht, IndexTarget.role, ColumnRole.isKey] at h
    | static => simp [ht, IndexTarget.role, ColumnRole.isKey] at h
    | compactValue => simp [ht, IndexTarget.role, ColumnRole.isKey] at h
  unfold entry
  simp only [hname, hvalue]

end SecondaryIndex

/-! ### What removes -/

/-- Every update in the history replaces a cell by one of the same name. -/
def UpdatesKeepNames : IndexInvariant := fun _ _ history _ =>
  ∀ key old new, (key, Cell.Change.update old new) ∈ history → old.name = new.name

theorem keptByCells_updatesKeepNames (x : SecondaryIndex) : KeptByCells UpdatesKeepNames x := by
  have hsnoc : ∀ {now : Int} {v w w' : Ledger} {history : List HookCall} {key : Bytes} {c : Cell}
      {change : Cell.Change}, UpdatesKeepNames now v history w → v.Named x.base →
      c.effect now (v key c.name) = .visible change →
      UpdatesKeepNames now (v.set key c) (history ++ [(key, change)]) w' := by
    intro now v w w' history key c change h hv heff k old new hmem
    rcases List.mem_append.1 hmem with hmem | hmem
    · exact h k old new hmem
    · cases List.mem_singleton.1 hmem
      rcases Cell.visible_cases heff with ⟨-, -, he⟩ | ⟨o, ho, -, -, he⟩ | ⟨o, -, -, -, -, he⟩ <;>
        cases he
      exact (hv key c.name _ ho).1
  exact
    { unseen := fun h _ _ _ => h
      uncovered := fun h hv _ _ heff => hsnoc h hv heff
      covered := fun h hv _ _ heff _ => hsnoc h hv heff }

/-- **Only deletions remove** cells from the entries of an index on a key column. -/
theorem removedAt_iff_deleted {x : SecondaryIndex} (hx : x.IsOnKeyColumn) {now : Int}
    {history : List HookCall}
    (hnames : ∀ key old new, (key, Cell.Change.update old new) ∈ history → old.name = new.name)
    {e : IndexEntry} {r : Cell} :
    RemovedAt x now history e r ↔
      ∃ key, (key, .delete r) ∈ history ∧ x.covers r = true ∧ x.entry key r = .ok e := by
  constructor
  · rintro ⟨key, change, hmem, hcov, he, rfl | ⟨new, rfl, -, hne⟩⟩
    · exact ⟨key, hmem, hcov, he⟩
    · exact absurd ((x.entry_congr_of_key hx key (hnames key r new hmem)).symm.trans he) hne
  · rintro ⟨key, hmem, hcov, he⟩
    exact ⟨key, _, hmem, hcov, he, .inl rfl⟩

/-! ### When an entry is found -/

/-- **When the entry of a row is found.**  Take an index on a partition-key or a clustering
column, added while its base table is empty.  After every run of writes at one time each live cell
that the index covers has an entry, and an entry is found if and only if one of its live cells is
newer than every cell of it that a write deleted. -/
theorem key_index_entry_found_iff {schema : TableSchema} {column : String}
    {indexName : Option String} {x : SecondaryIndex}
    (hx : SecondaryIndex.ofColumn schema column indexName = .ok x)
    (hrole : schema.role? column = some .partitionKey ∨ schema.role? column = some .clusteringKey)
    {others indexes : IndexSet} (hadd : others.add x = .ok indexes) (now : Int)
    {writes : List (Bytes × List Cell)}
    (hnames : ∀ write ∈ writes, ∀ c ∈ write.2, schema.HasName c.name) {d : Deployment}
    (hrun : (Deployment.start schema indexes now).run
      (writes.map fun write => .write write.1 write.2) = some d) :
    ∃ k, d.indexes.members.find? column = some k ∧
      (∀ key c, c ∈ d.base.liveCells now key → x.covers c = true → ∃ e, x.entry key c = .ok e) ∧
      ∀ e, k.store.Shows now e ↔
        ∃ key b, b ∈ d.base.liveCells now key ∧ x.covers b = true ∧ x.entry key b = .ok e ∧
          ∀ key' r, (key', .delete r) ∈ d.history → x.covers r = true → x.entry key' r = .ok e →
            r.timestamp < b.timestamp := by
  obtain ⟨rfl, rfl, hresolved⟩ := SecondaryIndex.ofColumn_ok hx
  have hkey := SecondaryIndex.isOnKeyColumn_of_role hresolved hrole
  obtain ⟨k, hk, hagree⟩ := entriesAgree_of_run hadd hnames hrun
  obtain ⟨_, _, _, _, hupdates⟩ := ((Tracks.start hadd now fun _ _ _ h => by cases h).run_writes
    (keptByCells_updatesKeepNames x) hnames hrun).1.index
  refine ⟨k, hk, hagree.entries, fun e => ?_⟩
  have hremoved : ∀ b : Cell, (∀ r, RemovedAt x now d.history e r → r.timestamp < b.timestamp) ↔
      ∀ key' r, (key', .delete r) ∈ d.history → x.covers r = true → x.entry key' r = .ok e →
        r.timestamp < b.timestamp := by
    intro b
    simp only [removedAt_iff_deleted hkey hupdates]
    exact ⟨fun h key' r hmem hcov he => h r ⟨key', hmem, hcov, he⟩,
      fun h r ⟨key', hmem, hcov, he⟩ => h key' r hmem hcov he⟩
  simp only [hagree.shows_iff e, hremoved]

/-! ### Rivers that are found, and one that is not -/

/-- The index of the rivers. -/
def readingsByRiver : SecondaryIndex where
  base := readings
  column := "river"
  indexName := none
  target := .partitionKey none
  indexSchema := SecondaryIndex.indexTable readings "river" "river" (.partitionKey none) .text

theorem readingsByRiver_ofColumn :
    SecondaryIndex.ofColumn readings "river" none = .ok readingsByRiver := rfl

/-- A level and a note are read, and the level is deleted. -/
def deletedLevel (noteTime : Int) : List (Bytes × List Cell) :=
  [([65], [reading "level" 49 1, reading "note" 97 noteTime]),
    ([65], [.tombstone (readingName "level") 2 0])]

theorem hasName_of_deletedLevel (noteTime : Int) :
    ∀ write ∈ deletedLevel noteTime, ∀ c ∈ write.2, readings.HasName c.name := by
  intro write hwrite c hc
  simp only [deletedLevel, List.mem_cons, List.not_mem_nil, or_false] at hwrite
  rcases hwrite with rfl | rfl
  · simp only [List.mem_cons, List.not_mem_nil, or_false] at hc
    rcases hc with rfl | rfl
    · exact hasName_level
    · exact hasName_note
  · cases List.mem_singleton.1 hc
    exact hasName_level

/-- The note is newer than the level that was deleted, and the river is found. -/
theorem key_index_entry_found_of_newer_note :
    SecondaryIndex.ofColumn readings "river" none = .ok readingsByRiver ∧
      readings.role? "river" = some .partitionKey ∧
      ∃ d k, (Deployment.ofReadings readingsByRiver).run
          ((deletedLevel 3).map fun write => .write write.1 write.2) = some d ∧
        d.indexes.members.find? "river" = some k ∧
        ∃ e, readingsByRiver.entry [65] (reading "note" 97 3) = .ok e ∧ k.store.Shows 0 e := by
  have hsees : ((Deployment.ofReadings readingsByRiver).run
      ((deletedLevel 3).map fun write => .write write.1 write.2)).map
      (fun d => (d.base.liveCells 0 [65], d.history)) =
      some ([reading "note" 97 3], [([65], .insert (reading "level" 49 1)),
        ([65], .insert (reading "note" 97 3)), ([65], .delete (reading "level" 49 1))]) := by
    decide +kernel
  obtain ⟨d, hrun, hd⟩ := Option.map_eq_some_iff.1 hsees
  obtain ⟨hlive, hhistory⟩ := Prod.mk.inj hd
  have hadd : IndexSet.add {} readingsByRiver =
      .ok { members := [("river", .ofIndex readingsByRiver)] } := rfl
  obtain ⟨k, hk, hentries, hfound⟩ := key_index_entry_found_iff readingsByRiver_ofColumn (.inl rfl)
    hadd 0 (hasName_of_deletedLevel 3) hrun
  have hnote : reading "note" 97 3 ∈ d.base.liveCells 0 [65] := by rw [hlive]; simp
  have hcov : readingsByRiver.covers (reading "note" 97 3) = true := by decide +kernel
  obtain ⟨e, he⟩ := hentries [65] _ hnote hcov
  refine ⟨readingsByRiver_ofColumn, rfl, d, k, hrun, hk, e, he,
    (hfound e).2 ⟨[65], _, hnote, hcov, he, ?_⟩⟩
  intro key r hr _ _
  rw [hhistory] at hr
  simp only [List.mem_cons, Prod.mk.injEq, reduceCtorEq, and_false, List.not_mem_nil, false_or,
    or_false, Cell.Change.delete.injEq] at hr
  rw [hr.2]
  decide

/-- **A row that is lost.**  The note is as old as the level that was deleted: the mark of the
deletion hides the entry that the note shares, and the river is not found while it has a note. -/
theorem key_index_loses_row :
    ∃ d k, readingsDefinition.compile = .ok readings ∧
      SecondaryIndex.ofColumn readings "river" none = .ok readingsByRiver ∧
      (Deployment.ofReadings readingsByRiver).run
        ((deletedLevel 1).map fun write => .write write.1 write.2) = some d ∧
      d.indexes.members.find? "river" = some k ∧
      ¬ RecordsAll readingsByRiver d.base k.store 0 := by
  have hsees : ((Deployment.ofReadings readingsByRiver).run
      ((deletedLevel 1).map fun write => .write write.1 write.2)).map
      (fun d => (d.base.liveCells 0 [65],
        (d.indexes.members.find? "river").map fun k => k.store.liveCells 0 [65])) =
      some ([reading "note" 97 1], some []) := by
    decide +kernel
  obtain ⟨d, hrun, hd⟩ := Option.map_eq_some_iff.1 hsees
  obtain ⟨hlive, hindex⟩ := Prod.mk.inj hd
  obtain ⟨k, hk, hnone⟩ := Option.map_eq_some_iff.1 hindex
  refine ⟨d, k, readings_compile, readingsByRiver_ofColumn, hrun, hk, fun hall => ?_⟩
  have hcov : readingsByRiver.covers (reading "note" 97 1) = true := by decide +kernel
  obtain ⟨e, he, i, hi, -⟩ := hall [65] (reading "note" 97 1) (by rw [hlive]; simp) hcov
  have hkey : (readingsByRiver.entry [65] (reading "note" 97 1)).map IndexEntry.partitionKey =
      .ok [65] := by decide +kernel
  rw [he] at hkey
  rw [Except.ok.inj hkey, hnone] at hi
  cases hi

end WideColumn
