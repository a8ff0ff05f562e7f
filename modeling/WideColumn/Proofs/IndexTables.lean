import WideColumn.Proofs.EntryExistence
import WideColumn.Proofs.StoredData

/-!
# Entries and the tables they are kept in

An index table gets its types from the base table, and its entries get their bytes from the keys and
the cells of the base table.  The two have to agree: an entry's key is a value of the type that the
index table is partitioned by, and its name is made up of the key of the base row and the clustering
values that the entry keeps, each a value of the type at its place.

* `TableSchema.Locates` and `Consistent.locates_exists` — where the values of a column are found, for
  each part that it can play;
* `TableSchema.valueOf?` — **the value of a column in a cell**, read off the values that a key and a
  name were packed from;
* `SecondaryIndex.recordedValue_eq`, `decode_entryCellName` — what an entry is made of, and how its
  table takes it apart;
* `TableDefinition.index_table_fits_entries` — **indexes on all columns that can be indexed fit
  their entries**, and two cells share an entry if and only if they agree in the value, the key and
  the clustering values that are kept.
-/

namespace WideColumn

open Effects

/-! ### Values at their places -/

theorem FitTypes.of_getElem? {types : List ColumnType} {values : List Bytes}
    (h : FitTypes types values) {i : Nat} {t : ColumnType} {value : Bytes}
    (ht : types[i]? = some t) (hvalue : values[i]? = some value) : t.validate value = .ok () := by
  induction types generalizing values i with
  | nil => cases ht
  | cons first types ih =>
    cases values with
    | nil => cases hvalue
    | cons v values =>
      obtain ⟨hfirst, hrest⟩ := h.tail
      cases i with
      | zero =>
        cases ht
        cases hvalue
        exact hfirst
      | succ i => exact ih hrest ht hvalue

theorem FitTypes.cons {types : List ColumnType} {values : List Bytes} {t : ColumnType}
    {value : Bytes} (hvalue : t.validate value = .ok ()) (h : FitTypes types values) :
    FitTypes (t :: types) (value :: values) :=
  ⟨Nat.succ_le_succ h.length, except_bind_eq_ok.2 ⟨(), hvalue, h.valid⟩⟩

theorem FitTypes.take {types : List ColumnType} {values : List Bytes} (h : FitTypes types values)
    (n : Nat) : FitTypes (types.take n) (values.take n) := by
  induction n generalizing types values with
  | zero => exact ⟨Nat.le_refl _, rfl⟩
  | succ n ih =>
    cases types with
    | nil =>
      rw [List.length_eq_zero_iff.1 (Nat.le_zero.1 h.length)]
      exact ⟨Nat.le_refl _, rfl⟩
    | cons t types =>
      cases values with
      | nil => exact ⟨Nat.zero_le _, rfl⟩
      | cons value values =>
        obtain ⟨hvalue, hvalues⟩ := h.tail
        exact (ih hvalues).cons hvalue

/-! ### Where the values of a column are found -/

namespace TableSchema

variable {s : TableSchema} {c : Column}

/-- The target tells where the values of the column are found in keys and in cells. -/
inductive Locates (s : TableSchema) (c : Column) : IndexTarget → Prop
  /-- The column alone makes up the keys. -/
  | key (hrole : c.role = .partitionKey) (h : s.partitionKeyColumns = [c]) :
      Locates s c (.partitionKey none)
  | component (hrole : c.role = .partitionKey) {i : Nat} (h : s.partitionKeyColumns[i]? = some c) :
      Locates s c (.partitionKey (some i))
  | position (hrole : c.role = .clusteringKey) {i : Nat} (h : s.clusteringColumns[i]? = some c) :
      Locates s c (.clusteringKey i)
  | regular (hrole : c.role = .regular) : Locates s c .regular
  | static (hrole : c.role = .static) : Locates s c .static
  | compactValue (hrole : c.role = .compactValue) : Locates s c .compactValue

/-- **The value of a column in a cell**: a part of the key, a part of the name, or the value of the
cell. -/
def valueOf? (s : TableSchema) (c : Column) (key : List Bytes) (name : CellName) (cell : Cell) :
    Option Bytes :=
  match c.role with
  | .partitionKey => key[s.partitionKeyColumns.idxOf c]?
  | .clusteringKey => name.clustering[s.clusteringColumns.idxOf c]?
  | .regular | .static | .compactValue => some cell.value

/-- The columns of a part are apart. -/
theorem Consistent.columnsOf_nodup (hs : s.Consistent) (role : ColumnRole) :
    (s.columnsOf role).Nodup :=
  hs.names.of_map.sublist List.filter_sublist

theorem idxOf_of_getElem? {columns : List Column} (h : columns.Nodup) {i : Nat}
    (hi : columns[i]? = some c) : columns.idxOf c = i := by
  obtain ⟨hlt, rfl⟩ := List.getElem?_eq_some_iff.1 hi
  exact h.idxOf_getElem i hlt

/-- Where keys are no composites, one column makes them up. -/
theorem Consistent.partitionKeyColumns_eq_singleton (hs : s.Consistent)
    (hsingle : s.keyLayout.isComposite = false) (hc : c ∈ s.partitionKeyColumns) :
    s.partitionKeyColumns = [c] := by
  rw [hs.keyLayout, KeyLayout.isComposite_ofTypes, List.length_map] at hsingle
  have hone : s.partitionKeyColumns.length = 1 := by simpa using hsingle
  obtain ⟨only, honly⟩ := List.length_eq_one_iff.1 hone
  rw [honly] at hc ⊢
  rw [List.mem_singleton.1 hc]

/-- **The part of a column is found**, and tells where its values are. -/
theorem Consistent.locates_exists (hs : s.Consistent) (hc : c ∈ s.columns)
    (hobstacle : IndexTarget.obstacle? c = none) :
    ∃ target, IndexTarget.resolve s c.name = .ok target ∧ s.Locates c target := by
  have hfound := hs.column?_eq_some_iff.2 ⟨hc, rfl⟩
  unfold IndexTarget.resolve
  simp only [hfound, hobstacle]
  cases hrole : c.role with
  | partitionKey =>
    have hmem := mem_partitionKeyColumns.2 ⟨hc, hrole⟩
    obtain ⟨i, hi⟩ := List.mem_iff_getElem?.1 hmem
    refine ⟨_, rfl, ?_⟩
    rw [hs.partitionIndex i c hi]
    cases hcomposite : s.keyLayout.isComposite with
    | false => exact .key hrole (hs.partitionKeyColumns_eq_singleton hcomposite hmem)
    | true => exact .component hrole hi
  | clusteringKey =>
    have hmem := mem_clusteringColumns.2 ⟨hc, hrole⟩
    cases hposition : s.clusteringColumns.findIdx? (·.name = c.name) with
    | none => simpa using List.findIdx?_eq_none_iff.1 hposition c hmem
    | some i =>
      obtain ⟨hlt, hname, -⟩ := List.findIdx?_eq_some_iff_getElem.1 hposition
      have hfirst := (mem_clusteringColumns.1 (List.getElem_mem hlt)).1
      have hsame := hs.eq_of_name hfirst hc (by simpa using hname)
      exact ⟨_, rfl, .position hrole (List.getElem?_eq_some_iff.2 ⟨hlt, hsame⟩)⟩
  | regular => exact ⟨_, rfl, .regular hrole⟩
  | static => exact ⟨_, rfl, .static hrole⟩
  | compactValue => exact ⟨_, rfl, .compactValue hrole⟩

/-- The value of a column is valid for its type. -/
theorem Consistent.validate_of_valueOf? (hs : s.Consistent) (hc : c ∈ s.columns) {values : List Bytes}
    {key packed value : Bytes} {name : CellName} {cell : Cell}
    (hkey : s.keyLayout.encode values = .ok key) (hname : s.cellLayout.encode name = .ok packed)
    (hcell : c.role.isKey = false → c.type.validate cell.value = .ok ())
    (hvalue : s.valueOf? c values name cell = some value) : c.type.validate value = .ok () := by
  have htype {columns : List Column} (hmem : c ∈ columns) :
      (columns.map (·.type))[columns.idxOf c]? = some c.type := by
    have hlt := List.idxOf_lt_length_iff.2 hmem
    rw [List.getElem?_map, List.getElem?_eq_getElem hlt, List.getElem_idxOf hlt]
    rfl
  unfold valueOf? at hvalue
  cases hrole : c.role with
  | partitionKey =>
    have hfits := KeyLayout.fitTypes_of_encode hkey
    rw [hs.keyLayout, KeyLayout.types_ofTypes] at hfits
    rw [hrole] at hvalue
    exact hfits.of_getElem? (htype (mem_partitionKeyColumns.2 ⟨hc, hrole⟩)) hvalue
  | clusteringKey =>
    have hfits := CellLayout.fitTypes_of_encode hname
    rw [hs.clustering] at hfits
    rw [hrole] at hvalue
    exact hfits.of_getElem? (htype (mem_clusteringColumns.2 ⟨hc, hrole⟩)) hvalue
  | regular | static | compactValue =>
    simp only [hrole, Option.some.injEq] at hvalue
    exact hvalue ▸ hcell (by rw [hrole]; rfl)

end TableSchema

/-! ### Entries -/

namespace SecondaryIndex

variable {x : SecondaryIndex} {s : TableSchema} {c : Column}

theorem kept_eq_zero (h : x.base.cellLayout.isCompound = false) : x.kept = 0 := by
  simp [kept, IndexTarget.keptClustering, h]

/-- The index is on a column of the table. -/
structure IsOn (x : SecondaryIndex) (s : TableSchema) (c : Column) : Prop where
  base : x.base = s
  target : s.Locates c x.target
  table : ∃ name, x.indexSchema = indexTable s c.name name x.target c.type.base

/-- **Each column that can be indexed has an index.** -/
theorem isOn_exists (hs : s.Consistent) (hc : c ∈ s.columns)
    (hobstacle : IndexTarget.obstacle? c = none) {indexName : Option String}
    (hname : ∀ name ∈ indexName, Naming.checkName name = .ok ()) :
    ∃ x, ofColumn s c.name indexName = .ok x ∧ x.IsOn s c := by
  obtain ⟨target, htarget, hlocates⟩ := hs.locates_exists hc hobstacle
  have hfound := hs.column?_eq_some_iff.2 ⟨hc, rfl⟩
  exact ⟨_, ofColumn_of_resolve hname htarget hfound, rfl, hlocates, _, rfl⟩

/-- An entry keeps no more clustering values than there are. -/
theorem IsOn.kept_le (hx : x.IsOn s c) (hs : s.Consistent) :
    x.kept ≤ s.cellLayout.clusteringTypes.length := by
  obtain ⟨rfl, hlocates, -⟩ := hx
  unfold kept IndexTarget.keptClustering
  cases x.base.cellLayout.isCompound with
  | false => exact Nat.zero_le _
  | true =>
    generalize x.target = target at hlocates ⊢
    cases hlocates with
    | position hrole hi =>
      rw [hs.clustering, List.length_map]
      exact (List.getElem?_eq_some_iff.1 hi).1
    | static => exact Nat.zero_le _
    | key | component | regular | compactValue => exact Nat.le_refl _

/-- The types that the names of entries are made up of. -/
theorem IsOn.clusteringTypes (hx : x.IsOn s c) :
    x.indexSchema.cellLayout.clusteringTypes =
      rowKeyType s :: s.cellLayout.clusteringTypes.take x.kept := by
  obtain ⟨rfl, -, name, htable⟩ := hx
  rw [htable]
  unfold indexTable
  cases hcompound : x.base.cellLayout.isCompound with
  | false =>
    rw [kept_eq_zero hcompound]
    simp [CellLayout.clusteringTypes]
  | true => simp [CellLayout.clusteringTypes, kept]

theorem zip_take_types (columns : List Column) (n : Nat) :
    columns.zip ((columns.map (·.type)).take n) = (columns.map fun c => (c, c.type)).take n := by
  induction columns generalizing n with
  | nil => simp
  | cons c columns ih =>
    cases n with
    | zero => rfl
    | succ n =>
      simp only [List.map_cons, List.take_succ_cons, List.zip_cons_cons, ih]

/-- **The columns of the index table**: the indexed one, the key of the base row, and the clustering
columns whose values are kept. -/
theorem IsOn.columns (hx : x.IsOn s c) (hs : s.Consistent) :
    x.indexSchema.columns.map (fun c => (c.name, c.type)) =
      (c.name, c.type.base) :: (rowKeyColumn, rowKeyType s) ::
        (s.clusteringColumns.map fun c => (c.name, c.type)).take x.kept := by
  obtain ⟨rfl, -, name, htable⟩ := hx
  have hkept : (keptColumns x.base (x.base.cellLayout.clusteringTypes.take x.kept)).map
      (fun c => (c.name, c.type)) =
        (x.base.clusteringColumns.map fun c => (c.name, c.type)).take x.kept := by
    unfold keptColumns
    rw [hs.clustering, zip_take_types]
    refine List.ext_getElem (by simp) fun i _ _ => by simp
  rw [htable]
  unfold indexTable
  cases hcompound : x.base.cellLayout.isCompound with
  | false =>
    rw [kept_eq_zero hcompound]
    rfl
  | true => exact congrArg (fun columns => _ :: _ :: columns) hkept

/-- **The value that an entry is recorded under** is that of the column. -/
theorem recordedValue_eq (hbase : x.base = s) (hlocates : s.Locates c x.target)
    (hs : s.Consistent) {key value : Bytes} {values : List Bytes} {name : CellName} {cell : Cell}
    (hkey : s.keyLayout.encode values = .ok key)
    (h : x.recordedValue key name cell = .ok value) :
    s.valueOf? c values name cell = some value := by
  subst hbase
  obtain ⟨hdecode, -⟩ := KeyLayout.decode_of_encode hkey
  unfold recordedValue at h
  unfold TableSchema.valueOf?
  cases htarget : x.target with
  | partitionKey component =>
    rw [htarget] at h hlocates
    cases hlocates with
    | key hrole hsingle =>
      cases h
      have hlayout : x.base.keyLayout = .single c.type := by
        rw [hs.keyLayout, hsingle]
        rfl
      rw [hlayout] at hdecode
      obtain rfl : [key] = values := Except.ok.inj hdecode
      simp [hrole, hsingle]
    | component hrole hi =>
      obtain ⟨parts, hparts, h⟩ := except_bind_eq_ok.1 h
      obtain rfl := Except.ok.inj ((mapError_eq_ok.1 hparts).symm.trans hdecode)
      have hplace : x.base.partitionKeyColumns.idxOf c = _ :=
        TableSchema.idxOf_of_getElem? (hs.columnsOf_nodup _) hi
      simp only [hrole, hplace]
      split at h
      · rename_i hvalue
        cases h
        exact hvalue
      · cases h
  | clusteringKey i =>
    rw [htarget] at h hlocates
    cases hlocates with
    | position hrole hi =>
      have hplace : x.base.clusteringColumns.idxOf c = _ :=
        TableSchema.idxOf_of_getElem? (hs.columnsOf_nodup _) hi
      simp only [hrole, hplace]
      simp only at h
      split at h
      · rename_i hvalue
        cases h
        exact hvalue
      · cases h
  | regular | static | compactValue =>
    rw [htarget] at h hlocates
    cases hlocates with
    | _ hrole =>
      cases h
      rw [hrole]

/-- The key of a base row is a value of its type in the index table. -/
theorem validate_rowKeyType {values : List Bytes} {key : Bytes}
    (hkey : s.keyLayout.encode values = .ok key) : (rowKeyType s).validate key = .ok () := by
  have hfits := KeyLayout.fitTypes_of_encode hkey
  obtain ⟨hdecode, -⟩ := KeyLayout.decode_of_encode hkey
  unfold rowKeyType
  cases hlayout : s.keyLayout with
  | single t =>
    rw [hlayout] at hfits hdecode
    obtain rfl : [key] = values := Except.ok.inj hdecode
    exact (t.validate_base key).2 hfits.tail.1
  | composite types => rfl

/-- **The name of an entry is taken apart** into the key of the base row and the clustering values
that are kept. -/
theorem IsOn.decode_entryCellName (hx : x.IsOn s c) {key cellName packed : Bytes} {name : CellName}
    (hname : s.cellLayout.encode name = .ok packed)
    (h : x.entryCellName key name = .ok cellName) :
    x.indexSchema.cellLayout.decode cellName =
      .ok (.dense (key :: name.clustering.take x.kept)) := by
  obtain ⟨rfl, -, table, htable⟩ := hx
  rw [entryCellName_eq_ok_iff] at h
  rw [htable]
  unfold indexTable
  cases hcompound : x.base.cellLayout.isCompound with
  | false =>
    simp only [hcompound, Bool.false_eq_true, if_false] at h ⊢
    rw [h, kept_eq_zero hcompound]
    rfl
  | true =>
    simp only [hcompound, if_true] at h ⊢
    have hlength := (CellLayout.clustering_fits hname).1
    refine CellLayout.compoundDense_decode h.2 ?_
    simp only [List.length_cons, List.length_take, kept]
    omega

section

variable (hx : x.IsOn s c) (hs : s.Consistent)

include hx hs

/-- What an entry is made of. -/
theorem IsOn.entry_parts {values : List Bytes} {key : Bytes} {name : CellName} {cell : Cell}
    {e : IndexEntry} (hkey : s.keyLayout.encode values = .ok key)
    (hname : s.cellLayout.encode name = .ok cell.name) (he : x.entry key cell = .ok e) :
    s.valueOf? c values name cell = some e.partitionKey ∧
      x.entryCellName key name = .ok e.cellName := by
  obtain ⟨parts, hparts, hvalue, hplace⟩ := entry_ok he
  have hdecode := CellLayout.decode_of_encode hname
  rw [← hx.base] at hdecode
  obtain rfl := Except.ok.inj (hparts.symm.trans hdecode)
  -- Of the name, an entry has the clustering values only.
  have hsame : (x.base.cellLayout.carried name).clustering = name.clustering :=
    CellLayout.carried_clustering _ _
  have hrecorded := recordedValue_eq hx.base hx.target hs hkey hvalue
  have hcell := (place_ok hdecode).1 hplace
  rw [entryCellName_eq_ok_iff, hsame, ← entryCellName_eq_ok_iff] at hcell
  unfold TableSchema.valueOf? at hrecorded ⊢
  rw [hsame] at hrecorded
  exact ⟨hrecorded, hcell⟩

/-- **An entry fits into its table**: it stands under the value of the column, which is a value of
the type that the table is partitioned by, and its name is made up of values of the types at their
places. -/
theorem IsOn.entry_fits (hc : c ∈ s.columns) {values : List Bytes} {key : Bytes} {name : CellName}
    {cell : Cell} {e : IndexEntry} (hkey : s.keyLayout.encode values = .ok key)
    (hname : s.cellLayout.encode name = .ok cell.name)
    (hcell : c.role.isKey = false → c.type.validate cell.value = .ok ())
    (he : x.entry key cell = .ok e) :
    s.valueOf? c values name cell = some e.partitionKey ∧
      c.type.base.validate e.partitionKey = .ok () ∧
      x.indexSchema.cellLayout.decode e.cellName =
        .ok (.dense (key :: name.clustering.take x.kept)) ∧
      FitTypes x.indexSchema.cellLayout.clusteringTypes
        (key :: name.clustering.take x.kept) := by
  obtain ⟨hvalue, hplace⟩ := hx.entry_parts hs hkey hname he
  have hvalid := hs.validate_of_valueOf? hc hkey hname hcell hvalue
  refine ⟨hvalue, (ColumnType.validate_base _ _).2 hvalid, hx.decode_entryCellName hname hplace, ?_⟩
  rw [hx.clusteringTypes]
  exact ((CellLayout.fitTypes_of_encode hname).take x.kept).cons (validate_rowKeyType hkey)

/-- **Two cells share an entry** if and only if they agree in the value of the column, in the key of
their partition and in the clustering values that are kept. -/
theorem IsOn.entry_eq_iff {values values' : List Bytes} {key key' : Bytes} {name name' : CellName}
    {cell cell' : Cell} {e e' : IndexEntry} (hkey : s.keyLayout.encode values = .ok key)
    (hkey' : s.keyLayout.encode values' = .ok key')
    (hname : s.cellLayout.encode name = .ok cell.name)
    (hname' : s.cellLayout.encode name' = .ok cell'.name)
    (he : x.entry key cell = .ok e) (he' : x.entry key' cell' = .ok e') :
    e = e' ↔ s.valueOf? c values name cell = s.valueOf? c values' name' cell' ∧ key = key' ∧
      name.clustering.take x.kept = name'.clustering.take x.kept := by
  obtain ⟨hvalue, hplace⟩ := hx.entry_parts hs hkey hname he
  obtain ⟨hvalue', hplace'⟩ := hx.entry_parts hs hkey' hname' he'
  rw [hvalue, hvalue', Option.some.injEq]
  constructor
  · rintro rfl
    have hparts := (hx.decode_entryCellName hname hplace).symm.trans
      (hx.decode_entryCellName hname' hplace')
    exact ⟨rfl, List.cons.inj (congrArg CellName.clustering (Except.ok.inj hparts))⟩
  · rintro ⟨hpartition, rfl, hkept⟩
    have hcell : e.cellName = e'.cellName := by
      rw [entryCellName_eq_ok_iff] at hplace hplace'
      split at hplace
      · rename_i hcompound
        rw [if_pos hcompound, ← hkept] at hplace'
        exact Except.ok.inj (hplace.2.symm.trans hplace'.2)
      · rename_i hcompound
        rw [if_neg hcompound] at hplace'
        exact hplace.trans hplace'.symm
    obtain ⟨value, cellName⟩ := e
    obtain ⟨value', cellName'⟩ := e'
    obtain rfl : value = value' := hpartition
    obtain rfl : cellName = cellName' := hcell
    rfl

end

end SecondaryIndex

/-! ### Histories -/

namespace TableDefinition

open SecondaryIndex

/-- **Indexes fit their entries.**  Whatever changes a table went through, each column that can be
indexed has an index, whose table has the columns and the types that follow from the base table; an
entry stands under the value of the column, and is taken apart into the key of the base row and the
clustering values that it keeps, all of them values of the types at their places; and two cells
share an entry if and only if they agree in the value, the key and these clustering values.  Where
cell names are no composites, no clustering values are kept. -/
theorem index_table_fits_entries {d : TableDefinition} {s₀ s : TableSchema}
    {changes : List SchemaChange} {c : Column} {indexName : Option String}
    (hcompile : d.compile = .ok s₀) (hchanges : s₀.changeAll changes = .ok s)
    (hc : c ∈ s.columns) (hobstacle : IndexTarget.obstacle? c = none)
    (hindexName : ∀ name ∈ indexName, Naming.checkName name = .ok ()) :
    ∃ x, ofColumn s c.name indexName = .ok x ∧
      x.kept ≤ s.cellLayout.clusteringTypes.length ∧
      (s.cellLayout.isCompound = false → x.kept = 0) ∧
      x.indexSchema.columns.map (fun c => (c.name, c.type)) =
        (c.name, c.type.base) :: (rowKeyColumn, rowKeyType s) ::
          (s.clusteringColumns.map fun c => (c.name, c.type)).take x.kept ∧
      x.indexSchema.keyLayout = .single c.type.base ∧
      x.indexSchema.cellLayout.clusteringTypes =
        rowKeyType s :: s.cellLayout.clusteringTypes.take x.kept ∧
      (∀ values key name cell e, s.keyLayout.encode values = .ok key →
        s.cellLayout.encode name = .ok cell.name →
        (c.role.isKey = false → c.type.validate cell.value = .ok ()) →
        x.entry key cell = .ok e →
        s.valueOf? c values name cell = some e.partitionKey ∧
          c.type.base.validate e.partitionKey = .ok () ∧
          x.indexSchema.cellLayout.decode e.cellName =
            .ok (.dense (key :: name.clustering.take x.kept)) ∧
          FitTypes x.indexSchema.cellLayout.clusteringTypes
            (key :: name.clustering.take x.kept)) ∧
      ∀ values values' key key' name name' cell cell' e e',
        s.keyLayout.encode values = .ok key → s.keyLayout.encode values' = .ok key' →
        s.cellLayout.encode name = .ok cell.name → s.cellLayout.encode name' = .ok cell'.name →
        x.entry key cell = .ok e → x.entry key' cell' = .ok e' →
        (e = e' ↔ s.valueOf? c values name cell = s.valueOf? c values' name' cell' ∧ key = key' ∧
          name.clustering.take x.kept = name'.clustering.take x.kept) := by
  have hs := (consistent_of_compile hcompile).changeAll hchanges
  obtain ⟨x, hx, hon⟩ := isOn_exists hs hc hobstacle hindexName
  obtain ⟨name, htable⟩ := hon.table
  refine ⟨x, hx, hon.kept_le hs, fun hsimple => kept_eq_zero (hon.base ▸ hsimple), hon.columns hs,
    by rw [htable]; rfl, hon.clusteringTypes, ?_, ?_⟩
  · exact fun values key name cell e hkey hname hcell he =>
      hon.entry_fits hs hc hkey hname hcell he
  · exact fun values values' key key' name name' cell cell' e e' hkey hkey' hname hname' he he' =>
      hon.entry_eq_iff hs hkey hkey' hname hname' he he'

/-- Of berths, the entry of a boat in an index on the day, which was widened before. -/
theorem index_table_fits_entries_berths :
    ∃ s₀ s x key packed e, berthsDefinition.compile = .ok s₀ ∧
      s₀.changeAll (berthsChanges.take 4) = .ok s ∧ ofColumn s "day" (some "days") = .ok x ∧
      x.kept = 1 ∧ s.keyLayout.encode [[0x41], [0x42]] = .ok key ∧
      s.cellLayout.encode (.regular [[9]] "boat") = .ok packed ∧
      x.entry key (.ofValue packed [0x43] 1) = .ok e ∧ e.partitionKey = [9] ∧
      x.indexSchema.cellLayout.decode e.cellName = .ok (.dense [key, [9]]) := by
  obtain ⟨x, hx, -, -, -, -, -, hfits, -⟩ := index_table_fits_entries
    (c := ⟨"day", .descending (.scalar .varint), .clusteringKey, some 0⟩)
    (show berthsDefinition.compile = .ok _ from rfl)
    (show TableSchema.changeAll _ (berthsChanges.take 4) = .ok _ from rfl) (by decide) rfl
    (show ∀ name ∈ some "days", Naming.checkName name = .ok () by rintro name ⟨⟩; rfl)
  have hname : CellLayout.encode
      (.compoundSparse [.descending (.scalar .varint)] (some [("flags", .set .text false)]))
      (.regular [[9]] "boat") = .ok [0, 1, 9, 0, 0, 4, 0x62, 0x6f, 0x61, 0x74, 0] := rfl
  have hentry : ∃ e, x.entry [0, 1, 0x41, 0, 0, 1, 0x42, 0]
      (.ofValue [0, 1, 9, 0, 0, 4, 0x62, 0x6f, 0x61, 0x74, 0] [0x43] 1) = .ok e ∧
      e.partitionKey = [9] ∧ x.kept = 1 := by
    obtain rfl :=
      Except.ok.inj (hx.symm.trans (show ofColumn _ "day" (some "days") = .ok _ from rfl))
    exact ⟨_, except_bind_eq_ok.2
      ⟨_, mapError_eq_ok.2 (CellLayout.decode_of_encode hname), rfl⟩, rfl, rfl⟩
  obtain ⟨e, hentry, hvalue, hkept⟩ := hentry
  obtain ⟨-, -, hdecode, -⟩ := hfits [[0x41], [0x42]] _ _ (.ofValue _ _ 1) e rfl hname nofun hentry
  rw [hkept] at hdecode
  exact ⟨_, _, x, _, _, e, rfl, rfl, hx, hkept, rfl, hname, hentry, hvalue, hdecode⟩

end TableDefinition

end WideColumn
