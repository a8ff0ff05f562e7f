import WideColumn.Proofs.Deployments
import WideColumn.Proofs.IndexTables

/-!
# The columns of index tables

The columns of an index table come from three places: the indexed column, the column that holds the
key of the base row, and the clustering columns whose values an entry keeps.  The columns of a base
table have distinct names, but the indexed column can be a clustering column that is kept as well:
an entry keeps the clustering values up to and including the indexed one.

* `SecondaryIndex.IsOn.columns_eq` — the columns of an index table, one by one;
* `TableSchema.KeepsIndexed` — the indexed column is among the kept ones;
* `TableDefinition.index_columns_apart` — **the columns of an index table have distinct names,
  except that a kept indexed column stands a second time at the end**; by its name each column but
  this last one is found.
-/

namespace WideColumn

namespace TableSchema

variable {s : TableSchema}

/-! ### Columns by their names -/

/-- The columns at the beginning of a table are found by their names, where these are distinct. -/
theorem column?_of_own {own repeated : List Column} (hcolumns : s.columns = own ++ repeated)
    (hnames : (own.map (·.name)).Nodup) {c : Column} (hc : c ∈ own) :
    s.column? c.name = some c := by
  have hfound : own.find? (·.name = c.name) = some c :=
    (find?_name_eq_some_iff hnames).2 ⟨hc, rfl⟩
  unfold column?
  rw [hcolumns, List.find?_append, hfound]
  rfl

/-- Do the entries of an index on the column keep its values in their names, too? -/
def KeepsIndexed (s : TableSchema) (column : String) : Prop :=
  s.cellLayout.isCompound = true ∧ s.role? column = some .clusteringKey

theorem Consistent.role?_of_mem (hs : s.Consistent) {c : Column} (hc : c ∈ s.columns) :
    s.role? c.name = some c.role := by
  unfold role?
  rw [hs.column?_eq_some_iff.2 ⟨hc, rfl⟩]
  rfl

theorem Consistent.clusteringNames_nodup (hs : s.Consistent) :
    (s.clusteringColumns.map (·.name)).Nodup :=
  hs.names.sublist (List.filter_sublist.map _)

/-- Only a clustering column has the name of a clustering column. -/
theorem Consistent.role_of_clusteringName (hs : s.Consistent) {c : Column} (hc : c ∈ s.columns)
    (hname : c.name ∈ s.clusteringColumns.map (·.name)) : c.role = .clusteringKey := by
  obtain ⟨other, hother, hsame⟩ := List.mem_map.1 hname
  obtain ⟨hmem, hrole⟩ := mem_clusteringColumns.1 hother
  rw [← hs.eq_of_name hmem hc hsame]
  exact hrole

end TableSchema

namespace SecondaryIndex

variable {x : SecondaryIndex} {s : TableSchema} {c : Column}

/-! ### The columns of an index table -/

/-- The column of the base table that an index is on. -/
theorem isOn_of_ofColumn (hs : s.Consistent) {column : String} {indexName : Option String}
    (h : ofColumn s column indexName = .ok x) :
    ∃ c ∈ s.columns, c.name = column ∧ x.IsOn s c := by
  obtain ⟨target, -, htarget, -⟩ := ofColumn_parts h
  have hname := checkName_of_ofColumn h
  cases hfound : s.column? column with
  | none => simp [IndexTarget.resolve, hfound] at htarget
  | some c =>
    obtain ⟨hc, rfl⟩ := TableSchema.mem_of_column? hfound
    have hobstacle : IndexTarget.obstacle? c = none := by
      cases hproblem : IndexTarget.obstacle? c with
      | none => rfl
      | some problem => simp [IndexTarget.resolve, hfound, hproblem] at htarget
    obtain ⟨made, hmade, hon⟩ := isOn_exists hs hc hobstacle hname
    obtain rfl := Except.ok.inj (hmade.symm.trans h)
    exact ⟨c, hc, rfl, hon⟩

/-- The column of the indexed values, by which an index table is partitioned. -/
def indexedColumn (c : Column) : Column := ⟨c.name, c.type.base, .partitionKey, none⟩

/-- The column of the base keys. -/
def keyColumn (s : TableSchema) : Column :=
  ⟨rowKeyColumn, rowKeyType s, .clusteringKey, if s.cellLayout.isCompound then some 0 else none⟩

/-- A clustering column as it stands in an index table, whose names begin with the base key. -/
def keptColumn (i : Nat) (c : Column) : Column := { c with componentIndex := some (i + 1) }

@[simp] theorem keptColumn_name (i : Nat) (c : Column) : (keptColumn i c).name = c.name := rfl

theorem keptColumns_eq (hs : s.Consistent) (n : Nat) :
    keptColumns s (s.cellLayout.clusteringTypes.take n) =
      (s.clusteringColumns.take n).mapIdx keptColumn := by
  unfold keptColumns
  rw [hs.clustering, zip_take_types]
  refine List.ext_getElem (by simp) fun i hi _ => ?_
  have hlt : i < s.clusteringColumns.length := by
    simp only [List.length_mapIdx, List.length_take, List.length_map] at hi
    omega
  have hrole := (TableSchema.mem_clusteringColumns.1 (List.getElem_mem hlt)).2
  simp [keptColumn, ← hrole]

/-- **The columns of an index table**, one by one. -/
theorem IsOn.columns_eq (hx : x.IsOn s c) (hs : s.Consistent) :
    x.indexSchema.columns =
      indexedColumn c :: keyColumn s :: (s.clusteringColumns.take x.kept).mapIdx keptColumn := by
  obtain ⟨rfl, -, name, htable⟩ := hx
  rw [htable]
  unfold indexTable keyColumn
  cases hcompound : x.base.cellLayout.isCompound with
  | false =>
    rw [kept_eq_zero hcompound]
    rfl
  | true => exact congrArg (fun columns => _ :: _ :: columns) (keptColumns_eq hs x.kept)

/-- A kept indexed column is the last one that is kept. -/
theorem IsOn.kept_of_keepsIndexed (hx : x.IsOn s c) (hs : s.Consistent) (hc : c ∈ s.columns)
    (hkeeps : s.KeepsIndexed c.name) :
    ∃ i, s.clusteringColumns[i]? = some c ∧ x.kept = i + 1 := by
  obtain ⟨hcompound, hrole⟩ := hkeeps
  rw [hs.role?_of_mem hc, Option.some.injEq] at hrole
  obtain ⟨rfl, hlocates, -⟩ := hx
  unfold kept IndexTarget.keptClustering
  rw [hcompound]
  generalize x.target = target at hlocates ⊢
  cases hlocates with
  | position _ hi => exact ⟨_, hi, rfl⟩
  | key hother | component hother | regular hother | static hother | compactValue hother =>
    rw [hrole] at hother
    cases hother

/-- Any other indexed column is not among the kept ones. -/
theorem IsOn.name_notMem_kept (hx : x.IsOn s c) (hs : s.Consistent) (hc : c ∈ s.columns)
    (hkeeps : ¬ s.KeepsIndexed c.name) :
    c.name ∉ (s.clusteringColumns.map (·.name)).take x.kept := by
  intro hmem
  refine hkeeps ⟨?_, ?_⟩
  · by_contra hsimple
    rw [kept_eq_zero (hx.base ▸ Bool.eq_false_iff.2 hsimple)] at hmem
    cases hmem
  · rw [hs.role?_of_mem hc, hs.role_of_clusteringName hc (List.mem_of_mem_take hmem)]

theorem map_name_mapIdx_keptColumn (columns : List Column) :
    (columns.mapIdx keptColumn).map (·.name) = columns.map (·.name) :=
  List.ext_getElem (by simp) fun i _ _ => by simp

/-- The names of the indexed column, of the base key and of the first clustering columns are
distinct, where the indexed column is not among these and none has the name for the base key. -/
theorem names_nodup_of_notMem (hs : s.Consistent) {n : Nat}
    (hvalue : c.name ∉ (s.clusteringColumns.map (·.name)).take n)
    (hkey : rowKeyColumn ∉ c.name :: (s.clusteringColumns.map (·.name)).take n) :
    ((indexedColumn c :: keyColumn s ::
      (s.clusteringColumns.take n).mapIdx keptColumn).map (·.name)).Nodup := by
  obtain ⟨hapart, hkept⟩ := not_or.1 (List.mem_cons.not.1 hkey)
  rw [List.map_cons, List.map_cons, map_name_mapIdx_keptColumn, List.map_take]
  refine List.nodup_cons.2 ⟨?_, List.nodup_cons.2 ⟨hkept, ?_⟩⟩
  · exact List.mem_cons.not.2 (not_or.2 ⟨Ne.symm hapart, hvalue⟩)
  · exact hs.clusteringNames_nodup.sublist (List.take_sublist _ _)

/-- **The columns of an index table, taken apart**: those with distinct names, and after them the
indexed column once more if it is kept. -/
theorem IsOn.columns_split (hx : x.IsOn s c) (hs : s.Consistent) (hc : c ∈ s.columns)
    (hkey : rowKeyColumn ∉ c.name :: (s.clusteringColumns.map (·.name)).take x.kept) :
    ∃ own repeated, x.indexSchema.columns = own ++ repeated ∧
      (s.KeepsIndexed c.name → repeated = [{ c with componentIndex := some x.kept }]) ∧
      (¬ s.KeepsIndexed c.name → repeated = []) ∧
      own.head? = some (indexedColumn c) ∧
      (own.map (·.name)).Nodup := by
  have hcolumns := hx.columns_eq hs
  by_cases hkeeps : s.KeepsIndexed c.name
  · obtain ⟨i, hi, hkept⟩ := hx.kept_of_keepsIndexed hs hc hkeeps
    have htake : s.clusteringColumns.take x.kept = s.clusteringColumns.take i ++ [c] := by
      rw [hkept, List.take_add_one, hi]
      rfl
    have hlength : (s.clusteringColumns.take i).length = i :=
      List.length_take_of_le (List.getElem?_eq_some_iff.1 hi).1.le
    -- The name stands at the end of the kept names, so not before.
    have hnodup := hs.clusteringNames_nodup.sublist (List.take_sublist x.kept _)
    rw [← List.map_take, htake, List.map_append, List.map_take] at hnodup hkey
    have hbefore : c.name ∉ (s.clusteringColumns.map (·.name)).take i := fun hmem =>
      (List.nodup_append.1 hnodup).2.2 _ hmem _ (List.mem_singleton_self _) rfl
    rw [← List.cons_append] at hkey
    refine ⟨indexedColumn c :: keyColumn s :: (s.clusteringColumns.take i).mapIdx keptColumn,
      [keptColumn i c], ?_, fun _ => ?_, fun h => absurd hkeeps h, rfl, ?_⟩
    · rw [hcolumns, htake, List.mapIdx_concat, hlength]
      rfl
    · rw [hkept]
      rfl
    · exact names_nodup_of_notMem hs hbefore fun hmem => hkey (List.mem_append_left _ hmem)
  · refine ⟨x.indexSchema.columns, [], (List.append_nil _).symm, fun h => absurd h hkeeps,
      fun _ => rfl, ?_, ?_⟩
    · rw [hcolumns]
      rfl
    · rw [hcolumns]
      exact names_nodup_of_notMem hs (hx.name_notMem_kept hs hc hkeeps) hkey

end SecondaryIndex

/-! ### Names apart -/

namespace TableDefinition

open SecondaryIndex

/-- **The columns of an index table are apart.**  Whatever changes the base table went through, and
whichever column an index is on, where no other column of the index table has the name for the base
key: the names are distinct if and only if the indexed column is not kept among the clustering
columns; if it is, it stands a second time at the end, with its type in the base table, and all
columns before it have distinct names.  Each of these is found by its name, with the part that it
plays, the first one being the indexed column as the partition key. -/
theorem index_columns_apart {d : TableDefinition} {s₀ s : TableSchema}
    {changes : List SchemaChange} {column : String} {indexName : Option String} {x : SecondaryIndex}
    (hcompile : d.compile = .ok s₀) (hchanges : s₀.changeAll changes = .ok s)
    (hx : ofColumn s column indexName = .ok x)
    (hkey : rowKeyColumn ∉ column :: (s.clusteringColumns.map (·.name)).take x.kept) :
    ((x.indexSchema.columns.map (·.name)).Nodup ↔ ¬ s.KeepsIndexed column) ∧
      ∃ c own repeated, s.column? column = some c ∧
        x.indexSchema.columns = own ++ repeated ∧
        (s.KeepsIndexed column → repeated = [{ c with componentIndex := some x.kept }]) ∧
        (¬ s.KeepsIndexed column → repeated = []) ∧
        own.head? = some ⟨column, c.type.base, .partitionKey, none⟩ ∧
        (own.map (·.name)).Nodup ∧
        ∀ found ∈ own, x.indexSchema.column? found.name = some found ∧
          x.indexSchema.role? found.name = some found.role := by
  have hs := (consistent_of_compile hcompile).changeAll hchanges
  obtain ⟨c, hc, rfl, hon⟩ := isOn_of_ofColumn hs hx
  have hfound := hs.column?_eq_some_iff.2 ⟨hc, rfl⟩
  obtain ⟨own, repeated, hcolumns, htwice, honce, hfirst, hnames⟩ :=
    hon.columns_split hs hc hkey
  refine ⟨⟨fun hnodup hkeeps => ?_, fun hkeeps => ?_⟩, c, own, repeated, hfound, hcolumns, htwice,
    honce, hfirst, hnames, fun found hmem => ?_⟩
  · rw [hcolumns, htwice hkeeps, List.map_append] at hnodup
    have hmem := List.mem_map_of_mem (f := Column.name) (List.mem_of_mem_head? hfirst)
    exact (List.nodup_append.1 hnodup).2.2 _ hmem _ (List.mem_singleton_self _) rfl
  · rw [hcolumns, honce hkeeps, List.append_nil]
    exact hnames
  · have hcolumn := TableSchema.column?_of_own hcolumns hnames hmem
    exact ⟨hcolumn, by rw [TableSchema.role?, hcolumn]; rfl⟩

/-- An index of the readings on the hour keeps the hour. -/
theorem index_columns_apart_hour :
    ∃ x own, readingsDefinition.compile = .ok readings ∧
      ofColumn readings "hour" none = .ok x ∧ readings.KeepsIndexed "hour" ∧
      rowKeyColumn ∉ ["hour", "hour"] ∧
      x.indexSchema.columns = own ++ [⟨"hour", .text, .clusteringKey, some 1⟩] ∧
      (own.map (·.name)).Nodup := by
  have hkey : rowKeyColumn ∉ ["hour", "hour"] := by decide
  have hkeeps : readings.KeepsIndexed "hour" := ⟨rfl, rfl⟩
  obtain ⟨-, c, own, repeated, hfound, hcolumns, htwice, -, -, hnames, -⟩ :=
    index_columns_apart readings_compile (show readings.changeAll [] = .ok readings from rfl)
      (show ofColumn readings "hour" none = .ok _ from rfl) hkey
  obtain rfl := htwice hkeeps
  obtain rfl : (⟨"hour", .text, .clusteringKey, some 0⟩ : Column) = c := Option.some.inj hfound
  exact ⟨_, own, readings_compile, rfl, hkeeps, hkey, hcolumns, hnames⟩

/-- A table with a column that has the name for the base key. -/
def takenNameDefinition : TableDefinition :=
  { readingsDefinition with columns := readingsDefinition.columns ++ [⟨rowKeyColumn, .text, false⟩] }

/-- Its table. -/
def takenName : TableSchema :=
  { readings with columns := readings.columns ++ [⟨rowKeyColumn, .text, .regular, some 1⟩] }

/-- **Names can stand for two columns.**  The name of the hour stands for its first column then, and
the second one is not found; the name for the base key stands for two columns as well where an index
is on a column that has it. -/
theorem index_columns_twice :
    (∃ x c, readingsDefinition.compile = .ok readings ∧
      ofColumn readings "hour" none = .ok x ∧
      x.indexSchema.columns.map (·.name) = ["hour", "partition_key", "hour"] ∧
      ¬(x.indexSchema.columns.map (·.name)).Nodup ∧
      c ∈ x.indexSchema.columns ∧ x.indexSchema.column? c.name ≠ some c ∧
      x.indexSchema.role? c.name ≠ some c.role) ∧
    ∃ x, takenNameDefinition.compile = .ok takenName ∧
      ofColumn takenName rowKeyColumn none = .ok x ∧ ¬takenName.KeepsIndexed rowKeyColumn ∧
      x.indexSchema.columns.map (·.name) = ["partition_key", "partition_key", "hour"] := by
  refine ⟨⟨_, ⟨"hour", .text, .clusteringKey, some 1⟩, readings_compile, rfl, rfl, by decide,
    by decide, by decide, by decide⟩, ?_⟩
  exact ⟨_, by decide +kernel, rfl, fun h => absurd h.2 (by decide), rfl⟩

end TableDefinition

end WideColumn
