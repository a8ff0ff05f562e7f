import WideColumn.Proofs.SharedEntries

/-!
# Indexes of the value of a dense table

A dense table has one cell for each row, and an index on its value column covers all of them.  How
much an entry tells of the row depends on the layout of names.  With composite names it keeps all
clustering values, and the index misses no row.  With simple names, which one clustering column
has, it keeps none: the rows of a partition with one value share an entry, and a change of one row
can hide it from the others.

* `covers_of_dense` — every cell is covered;
* `Mirrors.recordsAll` — an index of values misses no cell;
* `compact_value_index_entry_found_iff` — **when an entry is found**, in both layouts, and that
  **composite names lose no row**;
* `compact_value_index_loses_row` — a row that an index over simple names does not find.
-/

namespace WideColumn

open KeptIndex

namespace SecondaryIndex

variable {x : SecondaryIndex}

theorem isCompactValue_of_role (hx : x.IsResolved)
    (h : x.base.role? x.column = some .compactValue) : x.target = .compactValue := by
  unfold IsResolved at hx
  rw [hx] at h
  cases ht : x.target <;> simp_all [IndexTarget.role]

/-- **An index on the value of a dense table covers every cell.** -/
theorem covers_of_dense (h : x.target = .compactValue) (hdense : x.base.cellLayout.isDense = true)
    {c : Cell} (hname : x.base.HasName c.name) : x.covers c = true := by
  obtain ⟨name, hdec, -⟩ := hname.parts
  unfold covers
  rw [hdec, h]
  exact hdense

end SecondaryIndex

/-- An index of values misses no cell. -/
theorem Mirrors.recordsAll {x : SecondaryIndex} (hx : x.RecordsValues) {base index : TableStore}
    {now : Int} (hbase : base.layers.WellFormed) (hindex : index.layers.WellFormed)
    (h : Mirrors x now base.get? index.get?) : RecordsAll x base index now := by
  intro key c hc hcov
  obtain ⟨hget, hlive⟩ := (TableStore.mem_liveCells hbase).1 hc
  obtain ⟨p, hp, hw⟩ := h.recorded key c.name c hget hcov hlive
  exact ⟨⟨c.value, p⟩, (hx.entry_eq_ok key c _).2 ⟨rfl, hp⟩,
    (TableStore.shows_iff hindex).2 ⟨mirror p c, hw, mirror_isLive hlive⟩⟩

/-! ### When an entry is found -/

/-- **When the entry of a value is found.**  Take an index on the value column of a dense table,
added while the table is empty.  After every run of writes at one time every live cell is covered
and has an entry, and an entry is found if and only if one of its live cells is newer than every
cell that was removed there.  If names are composites, the entry of every live cell is found. -/
theorem compact_value_index_entry_found_iff {schema : TableSchema} {column : String}
    {indexName : Option String} {x : SecondaryIndex}
    (hx : SecondaryIndex.ofColumn schema column indexName = .ok x)
    (hrole : schema.role? column = some .compactValue)
    (hdense : schema.cellLayout.isDense = true)
    {others indexes : IndexSet} (hadd : others.add x = .ok indexes) (now : Int)
    {writes : List (Bytes × List Cell)}
    (hnames : ∀ write ∈ writes, ∀ c ∈ write.2, schema.HasName c.name) {d : Deployment}
    (hrun : (Deployment.start schema indexes now).run
      (writes.map fun write => .write write.1 write.2) = some d) :
    ∃ k, d.indexes.members.find? column = some k ∧
      (∀ key c, c ∈ d.base.liveCells now key → x.covers c = true) ∧
      EntriesAgree x d.base k.store now d.history ∧
      (schema.cellLayout.isCompound = true → RecordsAll x d.base k.store now) := by
  obtain ⟨rfl, rfl, hresolved⟩ := SecondaryIndex.ofColumn_ok hx
  have htarget := SecondaryIndex.isCompactValue_of_role hresolved hrole
  obtain ⟨k, hk, hagree⟩ := entriesAgree_of_run hadd hnames hrun
  obtain ⟨h, -⟩ := (Tracks.start hadd now SharedEntries.empty).run_writes
    (keptByCells_sharedEntries x) hnames hrun
  refine ⟨k, hk, fun key c hc => ?_, hagree, fun hcompound => ?_⟩
  · obtain ⟨hget, -⟩ := (TableStore.mem_liveCells h.base).1 hc
    exact SecondaryIndex.covers_of_dense htarget hdense (h.named key c.name c hget).2
  · have hrecords := SecondaryIndex.recordsValues_of_compound_dense htarget hcompound
    obtain ⟨hm, hnow⟩ := (Tracks.start hadd now Mirrors.empty).run_writes
      (keptBySteps_mirrors hrecords).toKeptByCells hnames hrun
    obtain ⟨k', hk', hhealthy, -, hI⟩ := hm.index
    cases hk.symm.trans hk'
    rw [hnow] at hI
    exact Mirrors.recordsAll hrecords hm.base hhealthy.layers hI

/-! ### Levels that are found, and one that is not -/

/-- Levels of rivers by hour, with nothing else. -/
def levelsDefinition : TableDefinition where
  keyspace := "rivers"
  name := "levels"
  columns := [⟨"river", .text, false⟩, ⟨"hour", .text, false⟩, ⟨"level", .text, false⟩]
  partitionKeys := [["river"]]
  clusteringColumns := ["hour"]
  compactStorage := true

/-- The table of the levels: its cells are named by the hours. -/
def levels : TableSchema where
  keyspace := "rivers"
  name := "levels"
  keyLayout := .single .text
  cellLayout := .simpleDense .text
  defaultType := .text
  isDense := true
  isCompact := true
  columns := [⟨"river", .text, .partitionKey, none⟩, ⟨"hour", .text, .clusteringKey, none⟩,
    ⟨"level", .text, .compactValue, none⟩]
  compactValue := some (.column "level")
  properties := {}

theorem levels_compile : levelsDefinition.compile = .ok levels := by decide

/-- The index of the levels of a dense table. -/
def levelsByValue : SecondaryIndex where
  base := levels
  column := "level"
  indexName := none
  target := .compactValue
  indexSchema := SecondaryIndex.indexTable levels "level" "level" .compactValue .text

theorem levelsByValue_ofColumn :
    SecondaryIndex.ofColumn levels "level" none = .ok levelsByValue := rfl

/-- The same level at two hours, the first of which is deleted. -/
def deletedHour (timestamp : Int) : List (Bytes × List Cell) :=
  [([65], [.ofValue [56] [49] 1, .ofValue [57] [49] timestamp]), ([65], [.tombstone [56] 2 0])]

theorem hasName_of_deletedHour (timestamp : Int) :
    ∀ write ∈ deletedHour timestamp, ∀ c ∈ write.2, levels.HasName c.name := by
  intro write hwrite c hc
  simp only [deletedHour, List.mem_cons, List.not_mem_nil, or_false] at hwrite
  rcases hwrite with rfl | rfl
  · simp only [List.mem_cons, List.not_mem_nil, or_false] at hc
    rcases hc with rfl | rfl
    · exact ⟨.dense [[56]], rfl⟩
    · exact ⟨.dense [[57]], rfl⟩
  · cases List.mem_singleton.1 hc
    exact ⟨.dense [[56]], rfl⟩

/-- The empty table of the levels with its index. -/
def Deployment.ofLevels : Deployment :=
  .start levels { members := [("level", .ofIndex levelsByValue)] } 0

/-- The other hour is newer than the one that was deleted, and its level is found. -/
theorem compact_value_index_entry_found_of_newer_hour :
    SecondaryIndex.ofColumn levels "level" none = .ok levelsByValue ∧
      levels.role? "level" = some .compactValue ∧ levels.cellLayout.isDense = true ∧
      ∃ d k, Deployment.ofLevels.run ((deletedHour 3).map fun write => .write write.1 write.2) =
          some d ∧
        d.indexes.members.find? "level" = some k ∧
        ∃ e, levelsByValue.entry [65] (.ofValue [57] [49] 3) = .ok e ∧ k.store.Shows 0 e := by
  have hsees : (Deployment.ofLevels.run
      ((deletedHour 3).map fun write => .write write.1 write.2)).map
      (fun d => (d.base.liveCells 0 [65], d.history)) =
      some ([.ofValue [57] [49] 3], [([65], .insert (.ofValue [56] [49] 1)),
        ([65], .insert (.ofValue [57] [49] 3)), ([65], .delete (.ofValue [56] [49] 1))]) := by
    decide +kernel
  obtain ⟨d, hrun, hd⟩ := Option.map_eq_some_iff.1 hsees
  obtain ⟨hlive, hhistory⟩ := Prod.mk.inj hd
  have hadd : IndexSet.add {} levelsByValue =
      .ok { members := [("level", .ofIndex levelsByValue)] } := rfl
  obtain ⟨k, hk, hcovers, hagree, -⟩ := compact_value_index_entry_found_iff levelsByValue_ofColumn
    rfl rfl hadd 0 (hasName_of_deletedHour 3) hrun
  have hnine : .ofValue [57] [49] 3 ∈ d.base.liveCells 0 [65] := by rw [hlive]; simp
  have hcov := hcovers [65] _ hnine
  obtain ⟨e, he⟩ := hagree.entries [65] _ hnine hcov
  refine ⟨levelsByValue_ofColumn, rfl, rfl, d, k, hrun, hk, e, he,
    (hagree.shows_iff e).2 ⟨[65], _, hnine, hcov, he, ?_⟩⟩
  rintro r ⟨key, change, hmem, -, -, hchange⟩
  rw [hhistory] at hmem
  rcases hchange with rfl | ⟨new, rfl, -⟩
  · simp only [List.mem_cons, Prod.mk.injEq, reduceCtorEq, and_false, List.not_mem_nil, false_or,
      or_false, Cell.Change.delete.injEq] at hmem
    rw [hmem.2]
    decide
  · simp at hmem

/-- **A row that is lost.**  The other hour is as old as the one that was deleted: the mark of the
deletion hides the entry that both share, and the level is not found while the other hour has it. -/
theorem compact_value_index_loses_row :
    ∃ d k, levelsDefinition.compile = .ok levels ∧
      SecondaryIndex.ofColumn levels "level" none = .ok levelsByValue ∧
      Deployment.ofLevels.run ((deletedHour 1).map fun write => .write write.1 write.2) =
        some d ∧
      d.indexes.members.find? "level" = some k ∧
      ¬ RecordsAll levelsByValue d.base k.store 0 := by
  have hsees : (Deployment.ofLevels.run
      ((deletedHour 1).map fun write => .write write.1 write.2)).map
      (fun d => (d.base.liveCells 0 [65],
        (d.indexes.members.find? "level").map fun k => k.store.liveCells 0 [49])) =
      some ([.ofValue [57] [49] 1], some []) := by
    decide +kernel
  obtain ⟨d, hrun, hd⟩ := Option.map_eq_some_iff.1 hsees
  obtain ⟨hlive, hindex⟩ := Prod.mk.inj hd
  obtain ⟨k, hk, hnone⟩ := Option.map_eq_some_iff.1 hindex
  refine ⟨d, k, levels_compile, levelsByValue_ofColumn, hrun, hk, fun hall => ?_⟩
  obtain ⟨e, he, i, hi, -⟩ := hall [65] (.ofValue [57] [49] 1) (by rw [hlive]; simp) rfl
  have hvalue : e.partitionKey = [49] := by cases he; rfl
  rw [hvalue, hnone] at hi
  cases hi

end WideColumn
