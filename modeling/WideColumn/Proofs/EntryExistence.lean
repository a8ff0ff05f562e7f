import WideColumn.Proofs.CompiledTables
import WideColumn.Proofs.IndexEntries

/-!
# Which cells have an entry

An index covers a cell by the part that its column plays; that there is a place for the cell in the
index table is another matter.  Where cell names are composites, the entry's name is a composite of
the key and the clustering values that are kept, so the key must not be too long and the name of
the cell must carry these values.

* `WellMade` — what an index knows of its base table and of its own one;
* `wellMade_of_ofColumn` — indexes on the columns of compiled tables are well made;
* `entry_exists_iff` — **which cells have an entry**;
* `entry_exists_of_name` — cells of one name have entries alike;
* `entry_decodes` — an entry fits into the index table.
-/

namespace WideColumn

open Effects

namespace SecondaryIndex

variable {x : SecondaryIndex}

/-- The indexed column has a place in the keys or in the names of the base table, and the index
table is made for the target. -/
structure WellMade (x : SecondaryIndex) : Prop where
  component : ∀ i, x.target = .partitionKey (some i) →
    ∃ ts, x.base.keyLayout = .composite ts ∧ i < ts.length
  position : ∀ i, x.target = .clusteringKey i → i < x.base.cellLayout.clusteringTypes.length
  table : ∃ column name type, x.indexSchema = indexTable x.base column name x.target type

/-- The target of an index on a column, by the part that the column plays. -/
theorem target_of_resolve {base : TableSchema} {column : String} {target : IndexTarget}
    (h : IndexTarget.resolve base column = .ok target) :
    (∃ c, base.column? column = some c ∧ c.role = .partitionKey ∧
      target = .partitionKey c.componentIndex) ∨
    (∃ i, base.clusteringColumns.findIdx? (·.name = column) = some i ∧
      target = .clusteringKey i) ∨
    target = .regular ∨ target = .static ∨ target = .compactValue := by
  unfold IndexTarget.resolve at h
  cases hc : base.column? column with
  | none => simp [hc] at h
  | some c =>
    simp only [hc] at h
    split at h
    · cases h
    · cases hr : c.role with
      | partitionKey =>
        simp only [hr] at h
        cases h
        exact .inl ⟨c, rfl, hr, rfl⟩
      | clusteringKey =>
        simp only [hr] at h
        split at h
        · rename_i i hi
          cases h
          exact .inr (.inl ⟨i, hi, rfl⟩)
        · cases h
      | _ =>
        simp only [hr] at h
        cases h
        simp

/-- **Indexes on the columns of compiled tables are well made.** -/
theorem wellMade_of_ofColumn {base : TableSchema} (hbase : base.KeysFit) {column : String}
    {indexName : Option String} (h : ofColumn base column indexName = .ok x) : x.WellMade := by
  obtain ⟨target, c, htarget, rfl⟩ := ofColumn_parts h
  refine ⟨fun i hi => ?_, fun i hi => ?_, _, _, _, rfl⟩
  · obtain rfl : target = .partitionKey (some i) := hi
    rcases target_of_resolve htarget with ⟨d, hd, hrole, htarget⟩ | ⟨j, -, htarget⟩ |
      htarget | htarget | htarget
    · injection htarget with htarget
      exact hbase.partitionKey d (List.mem_of_find?_eq_some hd) hrole i htarget.symm
    all_goals cases htarget
  · obtain rfl : target = .clusteringKey i := hi
    rcases target_of_resolve htarget with ⟨d, -, -, htarget⟩ | ⟨j, hj, htarget⟩ |
      htarget | htarget | htarget
    · cases htarget
    · cases htarget
      obtain ⟨hlt, -⟩ := List.findIdx?_eq_some_iff_getElem.1 hj
      exact hbase.clustering ▸ hlt
    all_goals cases htarget

/-! ### Room for an entry -/

/-- Where names are composites, the key fits into one and the name carries the clustering values
that the index keeps. -/
def HasRoom (x : SecondaryIndex) (key name : Bytes) : Prop :=
  x.base.cellLayout.isCompound = true → key.length ≤ Composite.maxComponentSize ∧
    ∀ parts, x.base.cellLayout.decode name = .ok parts →
      x.target.keptClustering x.base.cellLayout ≤ parts.clustering.length

/-- Every cell with room for its entry has a value to be recorded under. -/
theorem recordedValue_exists (hx : x.WellMade) {key packed : Bytes} {values : List Bytes}
    (hkey : x.base.keyLayout.encode values = .ok key) {name : CellName}
    (hname : x.base.cellLayout.encode name = .ok packed)
    (hkept : x.base.cellLayout.isCompound = true →
      x.target.keptClustering x.base.cellLayout ≤ name.clustering.length) (c : Cell) :
    ∃ value, x.recordedValue key name c = .ok value := by
  unfold recordedValue
  cases ht : x.target with
  | partitionKey component =>
    cases component with
    | none => exact ⟨key, rfl⟩
    | some i =>
      obtain ⟨ts, hlayout, hlt⟩ := hx.component i ht
      obtain ⟨hdecode, hlength⟩ := KeyLayout.decode_of_encode hkey
      have hi : i < values.length := by
        rw [hlength, hlayout]
        exact hlt
      refine ⟨values[i], except_bind_eq_ok.2 ⟨values, mapError_eq_ok.2 hdecode, ?_⟩⟩
      rw [List.getElem?_eq_getElem hi]
      rfl
  | clusteringKey i =>
    have hi : i < name.clustering.length := by
      cases hc : x.base.cellLayout.isCompound with
      | false => exact CellLayout.clustering_complete hname hc ▸ hx.position i ht
      | true =>
        have hlength : i + 1 ≤ name.clustering.length := by
          simpa [ht, IndexTarget.keptClustering, hc] using hkept hc
        omega
    simp only [List.getElem?_eq_getElem hi]
    exact ⟨_, rfl⟩
  | _ => exact ⟨c.value, rfl⟩

/-- How many clustering values an entry keeps. -/
def kept (x : SecondaryIndex) : Nat := x.target.keptClustering x.base.cellLayout

/-- The key of the index table's cells is that of the index, followed by the values that are kept. -/
theorem entryCellName_eq_ok_iff {key cellName : Bytes} {name : CellName} :
    x.entryCellName key name = .ok cellName ↔
      if x.base.cellLayout.isCompound = true then
        x.kept ≤ name.clustering.length ∧
          Composite.encode ⟨key :: name.clustering.take x.kept, false⟩ = .ok cellName
      else cellName = key := by
  unfold entryCellName kept
  cases hc : x.base.cellLayout.isCompound with
  | false =>
    simp only [hc, Bool.not_false, if_true, Bool.false_eq_true, if_false, Except.ok.injEq]
    exact eq_comm
  | true =>
    simp only [hc, Bool.not_true, Bool.false_eq_true, if_false, if_true, ite_error_eq_ok,
      mapError_eq_ok, Nat.not_lt]

/-- The name of an entry exists if there is room for it, and only then. -/
theorem entryCellName_exists_iff {key packed : Bytes} {name : CellName}
    (hname : x.base.cellLayout.encode name = .ok packed) :
    (∃ cellName, x.entryCellName key name = .ok cellName) ↔
      (x.base.cellLayout.isCompound = true → key.length ≤ Composite.maxComponentSize ∧
        x.target.keptClustering x.base.cellLayout ≤ name.clustering.length) := by
  unfold entryCellName
  cases hc : x.base.cellLayout.isCompound with
  | false =>
    simp only [hc, Bool.not_false, if_true]
    exact ⟨fun _ => nofun, fun _ => ⟨key, rfl⟩⟩
  | true =>
    simp only [hc, Bool.not_true, Bool.false_eq_true, if_false, forall_const]
    by_cases hkept : name.clustering.length < x.target.keptClustering x.base.cellLayout
    · rw [if_pos hkept]
      constructor
      · rintro ⟨_, h⟩
        cases h
      · rintro ⟨-, hle⟩
        omega
    · rw [if_neg hkept]
      have hvalues := (CellLayout.clustering_fits hname).2 hc
      have hexists := Composite.encode_exists_iff
        (c := ⟨key :: name.clustering.take (x.target.keptClustering x.base.cellLayout), false⟩)
      simp only [mapError_eq_ok, hexists, List.forall_mem_cons]
      exact ⟨fun h => ⟨h.1, by omega⟩,
        fun h => ⟨h.1, fun value hv => hvalues value (List.mem_of_mem_take hv)⟩⟩

/-- **Which cells have an entry**: those for which there is room. -/
theorem entry_exists_iff (hx : x.WellMade) {key : Bytes} {values : List Bytes}
    (hkey : x.base.keyLayout.encode values = .ok key) {c : Cell}
    (hname : x.base.HasName c.name) :
    (∃ e, x.entry key c = .ok e) ↔ x.HasRoom key c.name := by
  obtain ⟨name, hdecode, hencode⟩ := hname.parts
  have hroom : x.HasRoom key c.name ↔ (x.base.cellLayout.isCompound = true →
      key.length ≤ Composite.maxComponentSize ∧
        x.target.keptClustering x.base.cellLayout ≤ name.clustering.length) := by
    unfold HasRoom
    simp only [hdecode, Except.ok.injEq, forall_eq']
  rw [hroom, ← entryCellName_exists_iff hencode]
  constructor
  · rintro ⟨e, he⟩
    obtain ⟨parts, hparts, -, hplace⟩ := entry_ok he
    exact ⟨_, (place_ok hdecode).1 hplace⟩
  · rintro ⟨cellName, hcell⟩
    obtain ⟨value, hvalue⟩ := recordedValue_exists hx hkey hencode
      (fun hc => ((entryCellName_exists_iff hencode).1 ⟨cellName, hcell⟩ hc).2) c
    refine ⟨⟨value, cellName⟩, except_bind_eq_ok.2 ⟨name, mapError_eq_ok.2 hdecode, ?_⟩⟩
    exact except_bind_eq_ok.2 ⟨value, hvalue, except_bind_eq_ok.2 ⟨cellName, hcell, rfl⟩⟩

/-- Cells of one name have entries alike, whatever their values. -/
theorem entry_exists_of_name {key : Bytes} {c d : Cell} {e : IndexEntry}
    (he : x.entry key c = .ok e) (hname : d.name = c.name) : ∃ e', x.entry key d = .ok e' := by
  obtain ⟨parts, hparts, hvalue, hplace⟩ := entry_ok he
  have hcell := (place_ok hparts).1 hplace
  obtain ⟨value, hvalue'⟩ : ∃ value, x.recordedValue key parts d = .ok value := by
    unfold recordedValue at hvalue ⊢
    cases ht : x.target with
    | partitionKey component =>
      cases component with
      | none => exact ⟨key, rfl⟩
      | some i =>
        rw [ht] at hvalue
        exact ⟨_, hvalue⟩
    | clusteringKey i =>
      rw [ht] at hvalue
      exact ⟨_, hvalue⟩
    | _ => exact ⟨d.value, rfl⟩
  refine ⟨⟨value, e.cellName⟩, except_bind_eq_ok.2 ⟨parts, mapError_eq_ok.2 ?_, ?_⟩⟩
  · rw [hname]
    exact hparts
  · exact except_bind_eq_ok.2 ⟨value, hvalue', except_bind_eq_ok.2 ⟨_, hcell, rfl⟩⟩

/-! ### Entries in the index table -/

/-- **An entry fits into the index table**: its key and its name can be unpacked there. -/
theorem entry_decodes
    (htable : ∃ column name type, x.indexSchema = indexTable x.base column name x.target type)
    {key : Bytes} {c : Cell} {e : IndexEntry} (he : x.entry key c = .ok e) :
    (∃ values, x.indexSchema.keyLayout.decode e.partitionKey = .ok values) ∧
      ∃ parts, x.indexSchema.cellLayout.decode e.cellName = .ok parts := by
  obtain ⟨column, name, type, htable⟩ := htable
  obtain ⟨parts, hdecode, -, hplace⟩ := entry_ok he
  have hcell := (place_ok hdecode).1 hplace
  rw [htable]
  refine ⟨⟨[e.partitionKey], rfl⟩, ?_⟩
  simp only [indexTable]
  cases hc : x.base.cellLayout.isCompound with
  | false => exact ⟨.dense [e.cellName], rfl⟩
  | true =>
    rw [entryCellName_eq_ok_iff, if_pos hc] at hcell
    have hfits := CellLayout.clustering_le_of_decode hdecode
    have hcount : (key :: parts.clustering.take
        (x.target.keptClustering x.base.cellLayout)).length ≤
        (rowKeyType x.base :: x.base.cellLayout.clusteringTypes.take
          (x.target.keptClustering x.base.cellLayout)).length := by
      simp only [List.length_cons, List.length_take]
      omega
    exact ⟨_, CellLayout.compoundDense_decode hcell.2 hcount⟩

/-! ### Indexes over a table -/

/-- The index is what its column and its name give over a base table. -/
def IsOver (x : SecondaryIndex) (base : TableSchema) : Prop :=
  ofColumn base x.column x.indexName = .ok x

theorem isOver_of_ofColumn {base : TableSchema} {column : String} {indexName : Option String}
    (h : ofColumn base column indexName = .ok x) : x.IsOver base := by
  obtain ⟨_, _, -, rfl⟩ := ofColumn_parts h
  exact h

theorem IsOver.base_eq {base : TableSchema} (h : x.IsOver base) : x.base = base :=
  (ofColumn_ok h).1

end SecondaryIndex

end WideColumn
