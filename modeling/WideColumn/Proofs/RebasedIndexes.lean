import WideColumn.Proofs.ColumnPlaces
import WideColumn.Proofs.EntryExistence
import WideColumn.Proofs.FollowedChanges

/-!
# Indexes over changed tables

When the schema of a base table changes, its indexes are made anew for the new one, while what they
have stored stays where it is.  The entries are found again only if the new index records each cell
in the same place as the old one.

* `IndexTarget.resolve_congr` — a column that keeps its place is indexed in the same way;
* `SecondaryIndex.RecordsAlike` — two indexes look at the same parts of keys and names;
  `RecordsAlike.covers`, `RecordsAlike.entry` — **they cover the same cells and have the same
  entries**;
* `IsOver.rebased_recordsAlike` — **an index made anew after changes** records alike;
* `KeptIndex.Lasting.reload` — an index that is made anew keeps what it has stored;
* `TableDefinition.rebased_index_keeps_entries` — **so do indexes of all tables**, whatever changes
  there are, unless their column is dropped.
-/

namespace WideColumn

open Effects

/-! ### Targets -/

/-- The place of a name follows from the names. -/
theorem findIdx?_name_congr {columns columns' : List Column}
    (h : columns'.map (·.name) = columns.map (·.name)) (name : String) :
    columns'.findIdx? (·.name = name) = columns.findIdx? (·.name = name) := by
  have hnames (columns : List Column) :
      columns.findIdx? (·.name = name) = (columns.map (·.name)).findIdx? (· = name) := by
    rw [List.findIdx?_map]
    rfl
  rw [hnames, hnames, h]

namespace IndexTarget

/-- **A column that keeps its place is indexed in the same way.** -/
theorem resolve_congr {base base' : TableSchema} {column : String} {target : IndexTarget}
    (hplaces : base.KeepsPlaces base') (hplace : base.KeepsPlace base' column)
    (h : resolve base column = .ok target) : resolve base' column = .ok target := by
  unfold resolve at h ⊢
  cases hc : base.column? column with
  | none =>
    rw [hc] at h
    cases h
  | some c =>
    obtain ⟨c', hc', hsame⟩ := hplace c hc
    have hobstacle : obstacle? c' = obstacle? c := by
      unfold obstacle?
      rw [hsame.multiCell, hsame.counter]
    simp only [hc, hc', hobstacle, hsame.role, hsame.componentIndex,
      findIdx?_name_congr hplaces.clustering] at h ⊢
    cases hproblem : obstacle? c with
    | some problem =>
      simp only [hproblem] at h
      cases h
    | none =>
      simp only [hproblem] at h ⊢
      cases hrole : c.role with
      | clusteringKey =>
        simp only [hrole] at h ⊢
        split at h
        · exact h
        · cases h
      | partitionKey | regular | static | compactValue =>
        simp only [hrole] at h ⊢
        exact h

end IndexTarget

/-! ### Indexes that record alike -/

namespace SecondaryIndex

variable {x x' : SecondaryIndex} {s s' : TableSchema}

/-- The indexes look at the same parts of keys and names, and take them apart alike. -/
structure RecordsAlike (x x' : SecondaryIndex) : Prop where
  column : x'.column = x.column
  target : x'.target = x.target
  names : x'.base.cellLayout.decode = x.base.cellLayout.decode
  keys : x'.base.keyLayout.decode = x.base.keyLayout.decode
  isDense : x'.base.cellLayout.isDense = x.base.cellLayout.isDense
  isCompound : x'.base.cellLayout.isCompound = x.base.cellLayout.isCompound
  kept : x'.target.keptClustering x'.base.cellLayout = x.target.keptClustering x.base.cellLayout

/-- **They cover the same cells.** -/
theorem RecordsAlike.covers (h : x.RecordsAlike x') (c : Cell) : x'.covers c = x.covers c := by
  unfold SecondaryIndex.covers
  rw [h.names, h.target, h.column, h.isDense]

/-- **They have the same entries**, and refuse the same cells. -/
theorem RecordsAlike.entry (h : x.RecordsAlike x') (key : Bytes) (c : Cell) :
    x'.entry key c = x.entry key c := by
  have hmissing : x'.missing = x.missing := by
    unfold missing
    rw [h.column]
  have hvalue (name : CellName) : x'.recordedValue key name c = x.recordedValue key name c := by
    unfold recordedValue
    rw [h.target, h.keys, hmissing]
  have hcell (name : CellName) : x'.entryCellName key name = x.entryCellName key name := by
    unfold entryCellName
    simp only [h.isCompound, h.kept, hmissing]
  unfold SecondaryIndex.entry
  simp only [h.names, hvalue, hcell]

/-- **An index made anew after changes** records alike, if its column was not dropped. -/
theorem IsOver.rebased_recordsAlike (hx : x.IsOver s) (hs : s.Consistent)
    {changes : List SchemaChange} (hchanges : s.changeAll changes = .ok s')
    (hkept : .dropColumn x.column ∉ changes) :
    ∃ x', x.rebased s' = .ok x' ∧ x'.IsOver s' ∧ x.RecordsAlike x' := by
  obtain rfl := hx.base_eq
  have hs' := hs.changeAll hchanges
  obtain ⟨hplaces, hplace⟩ := TableSchema.placed_changeAll hs hchanges
  obtain ⟨hreadable, -⟩ := TableSchema.kept_changeAll hs hchanges
  obtain ⟨target, c, htarget, hparts⟩ := ofColumn_parts hx
  have htarget' := IndexTarget.resolve_congr hplaces (hplace x.column hkept) htarget
  obtain ⟨c', hc'⟩ : ∃ c', s'.column? x.column = some c' := by
    have hrole := IndexTarget.role_of_resolve htarget'
    exact (Option.map_eq_some_iff.1 hrole).imp fun _ => And.left
  have hmade := ofColumn_of_resolve (checkName_of_ofColumn hx) htarget' hc'
  have hlength : s'.cellLayout.clusteringTypes.length =
      x.base.cellLayout.clusteringTypes.length := by
    have hnames := congrArg List.length hplaces.clustering
    simpa [hs.clustering, hs'.clustering] using hnames
  obtain rfl : x.target = target := congrArg SecondaryIndex.target hparts
  refine ⟨_, hmade, isOver_of_ofColumn hmade, rfl, rfl, hreadable.names, hreadable.keys,
    hplaces.isDense, hplaces.isCompound, ?_⟩
  unfold IndexTarget.keptClustering
  rw [hplaces.isCompound, hlength]

end SecondaryIndex

/-! ### Reloaded indexes -/

/-- **An index that is made anew keeps what it has stored.** -/
theorem KeptIndex.Lasting.reload {k : KeptIndex} (h : k.Lasting) {base : TableSchema}
    {x' : SecondaryIndex} (hx' : k.index.rebased base = .ok x') :
    ∃ k', runFrom (reload base) k =
        (.ok (x'.indexSchema.version != k.index.indexSchema.version), k') ∧
      k'.index = x' ∧ k'.state = k.state ∧ k'.store.layers = k.store.layers := by
  rw [runFrom_reload, h.disturb, if_neg h.state, hx']
  refine ⟨_, rfl, ?_⟩
  unfold takeIndex
  -- Whether the schema of the index table has to follow, its layers stay.
  split <;> exact ⟨rfl, rfl, rfl⟩

/-! ### Histories -/

namespace TableDefinition

/-- **Entries that were written before changes are those that are kept after them.**  Whatever
changes a table went through, and whatever changes follow, an index on a column that is not dropped
can be made anew, covers the same cells as before and has the same entries for them; and an index in
use that is reloaded becomes the new one, and keeps all that it has stored. -/
theorem rebased_index_keeps_entries {d : TableDefinition} {s₀ s s' : TableSchema}
    {before after : List SchemaChange} {x : SecondaryIndex} (hcompile : d.compile = .ok s₀)
    (hbefore : s₀.changeAll before = .ok s) (hx : x.IsOver s)
    (hafter : s.changeAll after = .ok s') (hkept : .dropColumn x.column ∉ after) :
    ∃ x', x.rebased s' = .ok x' ∧ x'.IsOver s' ∧
      (∀ c, x'.covers c = x.covers c) ∧ (∀ key c, x'.entry key c = x.entry key c) ∧
      ∀ k : KeptIndex, k.Lasting → k.index = x →
        ∃ changed k', runFrom (KeptIndex.reload s') k = (.ok changed, k') ∧ k'.index = x' ∧
          k'.state = k.state ∧ k'.store.layers = k.store.layers := by
  have hs := (consistent_of_compile hcompile).changeAll hbefore
  obtain ⟨x', hx', hover, halike⟩ := hx.rebased_recordsAlike hs hafter hkept
  refine ⟨x', hx', hover, halike.covers, halike.entry, ?_⟩
  rintro k hlasting rfl
  obtain ⟨k', hrun, hk'⟩ := hlasting.reload hx'
  exact ⟨_, k', hrun, hk'⟩

/-- Of berths, an index on the day that was made before the types of pier and day were widened and
the boats were dropped. -/
theorem rebased_index_keeps_entries_berths :
    ∃ s₀ s s' x x', berthsDefinition.compile = .ok s₀ ∧
      s₀.changeAll (berthsChanges.take 2) = .ok s ∧ s.changeAll (berthsChanges.drop 2) = .ok s' ∧
      x.IsOver s ∧ x.column = "day" ∧ x.rebased s' = .ok x' ∧
      x'.indexSchema.keyLayout = .single (.scalar .varint) ∧
      (∀ key c, x'.entry key c = x.entry key c) ∧
      ∃ changed k', runFrom (KeptIndex.reload s') (KeptIndex.ofIndex x) = (.ok changed, k') ∧
        k'.index = x' := by
  obtain ⟨x', hx', -, -, hentry, hreload⟩ := rebased_index_keeps_entries
    (show berthsDefinition.compile = .ok _ from rfl)
    (show TableSchema.changeAll _ (berthsChanges.take 2) = .ok _ from rfl)
    (SecondaryIndex.isOver_of_ofColumn (show SecondaryIndex.ofColumn _ "day" none = .ok _ from rfl))
    (show TableSchema.changeAll _ (berthsChanges.drop 2) = .ok _ from rfl) (by decide)
  obtain ⟨changed, k', hrun, hk', -⟩ := hreload (KeptIndex.ofIndex _) ⟨nofun, rfl⟩ rfl
  have htype : x'.indexSchema.keyLayout = .single (.scalar .varint) := by
    obtain rfl := Except.ok.inj (hx'.symm.trans (show SecondaryIndex.rebased _ _ = .ok _ from rfl))
    rfl
  refine ⟨_, _, _, _, x', rfl, rfl, rfl, ?_, ?_, hx', htype, hentry, changed, k', hrun, hk'⟩
  · rfl
  · rfl

end TableDefinition

end WideColumn
