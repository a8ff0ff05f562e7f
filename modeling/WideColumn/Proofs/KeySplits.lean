import Mathlib.Data.List.Nodup
import WideColumn.Proofs.Effects
import WideColumn.Schema.KeySplit

/-!
# The columns of a key, and the others

When the split of a definition's columns succeeds, and what it then says of them: the names of all
columns are apart, the key columns are ones that a key may have, and the clustering columns keep
their names under the directions that are asked for.

* `find?_name_eq_some_iff` — items are told by their names, where these are apart;
* `keyColumns_eq_ok_iff`, `clusteringDirections_eq_ok_iff`, `untaken_eq_filter` — the parts of the
  split;
* `KeyDeclared`, `parts` and `keySplit_eq_ok_iff` — **which primary keys are accepted, and the parts
  that they give**;
* `KeySplit.Apart` and `keySplit_apart` — **no column has two parts**.
-/

namespace WideColumn

open Effects

/-- With names apart, a search for a name finds the item that has it. -/
theorem find?_name_eq_some_iff {ι : Type} {name : ι → String} {items : List ι}
    (h : (items.map name).Nodup) {sought : String} {i : ι} :
    items.find? (fun j => name j = sought) = some i ↔ i ∈ items ∧ name i = sought := by
  constructor
  · intro hfind
    exact ⟨List.mem_of_find?_eq_some hfind, by simpa using List.find?_some hfind⟩
  · rintro ⟨hi, rfl⟩
    cases hfind : items.find? (fun j => name j = name i) with
    | none => simpa using List.find?_eq_none.1 hfind i hi
    | some other =>
      have hsame : name other = name i := by simpa using List.find?_some hfind
      rw [List.inj_on_of_nodup_map h (List.mem_of_find?_eq_some hfind) hi hsame]

namespace ColumnDeclaration

/-- May the column be part of a key? -/
structure FitsKey (c : ColumnDeclaration) : Prop where
  multiCell : c.type.isMultiCell = false
  counter : c.type.isCounter = false
  static : c.isStatic = false

end ColumnDeclaration

namespace TableDefinition

/-! ### Key columns -/

theorem keyColumn_eq_ok_iff {d : TableDefinition} {taken : List String} {name : String}
    {c : ColumnDeclaration} :
    d.keyColumn taken name = .ok c ↔ d.column? name = some c ∧ name ∉ taken ∧ c.FitsKey := by
  unfold keyColumn
  cases d.column? name with
  | none => simp
  | some first =>
    simp only [ite_error_eq_ok, Option.some.injEq, Except.ok.injEq, Bool.not_eq_true]
    constructor
    · rintro ⟨htaken, hmulti, hcounter, hstatic, rfl⟩
      exact ⟨rfl, htaken, hmulti, hcounter, hstatic⟩
    · rintro ⟨rfl, htaken, hmulti, hcounter, hstatic⟩
      exact ⟨htaken, hmulti, hcounter, hstatic, rfl⟩

/-- The declared columns of these names. -/
def named (d : TableDefinition) (names : List String) : List ColumnDeclaration :=
  names.filterMap d.column?

theorem named_cons {d : TableDefinition} {name : String} {c : ColumnDeclaration}
    (h : d.column? name = some c) (rest : List String) :
    d.named (name :: rest) = c :: d.named rest :=
  List.filterMap_cons_some h

/-- Key columns are the columns of the names that were given, each once and none before. -/
theorem keyColumns_eq_ok_iff {d : TableDefinition} {taken names : List String}
    {columns : List ColumnDeclaration} :
    d.keyColumns taken names = .ok columns ↔
      names.Nodup ∧ (∀ name ∈ names, name ∉ taken ∧ ∃ c, d.column? name = some c ∧ c.FitsKey) ∧
        columns = d.named names := by
  induction names generalizing taken columns with
  | nil => simp [keyColumns, named, eq_comm]
  | cons name rest ih =>
    unfold keyColumns
    simp only [except_bind_eq_ok, keyColumn_eq_ok_iff, ih]
    constructor
    · rintro ⟨c, ⟨hc, htaken, hfits⟩, _, ⟨hnodup, hrest, rfl⟩, h⟩
      cases h
      refine ⟨List.nodup_cons.2 ⟨fun hin => (hrest name hin).1 List.mem_cons_self, hnodup⟩,
        List.forall_mem_cons.2 ⟨⟨htaken, c, hc, hfits⟩, fun other hin => ?_⟩, ?_⟩
      · exact ⟨fun hother => (hrest other hin).1 (List.mem_cons_of_mem _ hother),
          (hrest other hin).2⟩
      · rw [named_cons hc]
    · rintro ⟨hnodup, hall, rfl⟩
      obtain ⟨hfirst, hnodup⟩ := List.nodup_cons.1 hnodup
      obtain ⟨⟨htaken, c, hc, hfits⟩, hrest⟩ := List.forall_mem_cons.1 hall
      refine ⟨c, ⟨hc, htaken, hfits⟩, _,
        ⟨hnodup, fun other hin => ⟨?_, (hrest other hin).2⟩, rfl⟩, ?_⟩
      · rw [List.mem_cons, not_or]
        exact ⟨fun hsame => hfirst (hsame ▸ hin), (hrest other hin).1⟩
      · rw [named_cons hc]
        rfl

theorem mem_of_column? {d : TableDefinition} {name : String} {c : ColumnDeclaration}
    (h : d.column? name = some c) : c ∈ d.columns ∧ c.name = name :=
  ⟨List.mem_of_find?_eq_some h, by simpa using List.find?_some h⟩

theorem named_names {d : TableDefinition} {names : List String}
    (h : ∀ name ∈ names, ∃ c, d.column? name = some c ∧ c.FitsKey) :
    (d.named names).map (·.name) = names := by
  induction names with
  | nil => rfl
  | cons name rest ih =>
    obtain ⟨⟨c, hc, -⟩, hrest⟩ := List.forall_mem_cons.1 h
    rw [named_cons hc, List.map_cons, (mem_of_column? hc).2, ih hrest]

/-- The key columns have the names that were given, each once and none before. -/
theorem keyColumns_ok {d : TableDefinition} {taken names : List String}
    {columns : List ColumnDeclaration} (h : d.keyColumns taken names = .ok columns) :
    columns.map (·.name) = names ∧ names.Nodup ∧ (∀ name ∈ names, name ∉ taken) ∧
      ∀ c ∈ columns, c ∈ d.columns ∧ c.FitsKey := by
  obtain ⟨hnodup, hall, rfl⟩ := keyColumns_eq_ok_iff.1 h
  refine ⟨named_names fun name hin => (hall name hin).2, hnodup,
    fun name hin => (hall name hin).1, fun c hc => ?_⟩
  obtain ⟨name, hin, hfound⟩ := List.mem_filterMap.1 hc
  obtain ⟨-, c', hfound', hfits⟩ := hall name hin
  obtain rfl : c = c' := Option.some.inj (hfound.symm.trans hfound')
  exact ⟨(mem_of_column? hfound).1, hfits⟩

theorem partitionKeyNames_eq_ok_iff {d : TableDefinition} {names : List String} :
    d.partitionKeyNames = .ok names ↔ names ≠ [] ∧ d.partitionKeys = [names] := by
  unfold partitionKeyNames
  split <;> simp_all [eq_comm]

/-! ### Directions -/

/-- A clustering order lists the columns that are expected, each of them a clustering column that was
not named before. -/
theorem checkOrder_eq_ok_iff {clustering expected named : List String}
    {entries : List OrderEntry} :
    checkOrder clustering expected named entries = .ok () ↔
      entries.map (·.column) = expected ∧ expected.Nodup ∧
        ∀ name ∈ expected, name ∈ clustering ∧ name ∉ named := by
  fun_induction checkOrder clustering expected named entries with
  | case1 | case2 | case7 => simp
  | case3 expected named entry rest hforeign =>
    refine ⟨nofun, ?_⟩
    rintro ⟨rfl, -, hexpected⟩
    exact absurd (hexpected _ List.mem_cons_self).1 hforeign
  | case4 expected named entry rest _ hnamed =>
    refine ⟨nofun, ?_⟩
    rintro ⟨rfl, -, hexpected⟩
    exact absurd hnamed (hexpected _ List.mem_cons_self).2
  | case5 named entry rest hknown hnew expected ih =>
    rw [ih]
    constructor
    · rintro ⟨rfl, hnodup, hrest⟩
      refine ⟨rfl, List.nodup_cons.2 ⟨fun hin => (hrest _ hin).2 List.mem_cons_self, hnodup⟩,
        List.forall_mem_cons.2 ⟨⟨Decidable.not_not.1 hknown, hnew⟩, fun name hin => ?_⟩⟩
      exact ⟨(hrest name hin).1, fun hold => (hrest name hin).2 (List.mem_cons_of_mem _ hold)⟩
    · rintro ⟨hnames, hnodup, hall⟩
      obtain ⟨hfirst, hnodup⟩ := List.nodup_cons.1 hnodup
      refine ⟨(List.cons.inj hnames).2, hnodup, fun name hin => ?_⟩
      obtain ⟨hin', hold⟩ := hall name (List.mem_cons_of_mem _ hin)
      refine ⟨hin', ?_⟩
      rw [List.mem_cons, not_or]
      exact ⟨fun hsame => hfirst (hsame ▸ hin), hold⟩
  | case6 named entry rest _ _ column expected hne =>
    exact ⟨nofun, fun h => absurd (List.cons.inj h.1).1.symm hne⟩

/-- A clustering order lists the clustering columns, which are apart then. -/
theorem checkOrder_all_eq_ok_iff {clustering : List String} {entries : List OrderEntry} :
    checkOrder clustering clustering [] entries = .ok () ↔
      entries.map (·.column) = clustering ∧ clustering.Nodup := by
  rw [checkOrder_eq_ok_iff]
  exact and_congr_right fun _ => and_iff_left fun name hin => ⟨hin, List.not_mem_nil⟩

/-- The direction asked for a clustering column; it is ascending unless said otherwise. -/
def direction (d : TableDefinition) (name : String) : Direction :=
  ((d.clusteringOrder.find? (·.column = name)).map (·.direction)).getD .asc

/-- With columns apart, an entry is the one of its column. -/
theorem find?_order {entries : List OrderEntry} (h : (entries.map (·.column)).Nodup)
    {entry : OrderEntry} (hentry : entry ∈ entries) :
    entries.find? (·.column = entry.column) = some entry :=
  (find?_name_eq_some_iff h).2 ⟨hentry, rfl⟩

/-- An order is left out, or it names the clustering columns one by one. -/
theorem clusteringDirections_eq_ok_iff {d : TableDefinition} (h : d.clusteringColumns.Nodup)
    {directions : List Direction} :
    d.clusteringDirections = .ok directions ↔
      (d.clusteringOrder = [] ∨ d.clusteringOrder.map (·.column) = d.clusteringColumns) ∧
        directions = d.clusteringColumns.map d.direction := by
  unfold clusteringDirections
  split
  · rename_i hempty
    have hnone : d.clusteringOrder = [] := by simpa using hempty
    have hasc : d.clusteringColumns.map d.direction = d.clusteringColumns.map fun _ => .asc :=
      List.map_congr_left fun _ _ => by simp [direction, hnone]
    simp [hnone, hasc, eq_comm]
  · rename_i hsome
    have hsome : d.clusteringOrder ≠ [] := by simpa using hsome
    have hpasses : checkOrder d.clusteringColumns d.clusteringColumns [] d.clusteringOrder = .ok () ↔
        d.clusteringOrder.map (·.column) = d.clusteringColumns := by
      rw [checkOrder_all_eq_ok_iff, and_iff_left h]
    rw [except_bind_eq_ok]
    simp only [hpasses, hsome, false_or, exists_const]
    refine and_congr_right fun horder => ?_
    have hfound : d.clusteringOrder.map (·.direction) = d.clusteringColumns.map d.direction := by
      rw [← horder] at h ⊢
      rw [List.map_map]
      exact List.map_congr_left fun entry hentry => by simp [direction, find?_order h hentry]
    show Except.ok _ = _ ↔ _
    rw [hfound, Except.ok.injEq, eq_comm]

theorem directed_name (c : ColumnDeclaration) (direction : Direction) :
    (directed c direction).name = c.name := by
  cases direction <;> rfl

/-- A direction does not bar a column from the key. -/
theorem directed_fitsKey {c : ColumnDeclaration} (h : c.FitsKey) (direction : Direction) :
    (directed c direction).FitsKey := by
  cases direction with
  | asc => exact h
  | desc =>
    exact ⟨(ColumnType.isMultiCell_descend _).trans h.multiCell,
      (ColumnType.isCounter_descend _).trans h.counter, h.static⟩

/-- Directions that go by the names of the columns. -/
theorem zipWith_directed (columns : List ColumnDeclaration) (direction : String → Direction) :
    List.zipWith directed columns ((columns.map (·.name)).map direction) =
      columns.map fun c => directed c (direction c.name) := by
  rw [List.map_map, List.zipWith_map_right, List.zipWith_self]
  rfl

/-! ### The remaining columns -/

/-- What is left are declared columns, each name once and none that is taken. -/
theorem untaken_spec (taken : List String) (columns : List ColumnDeclaration) :
    ((untaken taken columns).map (·.name)).Nodup ∧
      ∀ c ∈ untaken taken columns, c ∈ columns ∧ c.name ∉ taken := by
  induction columns generalizing taken with
  | nil => simp [untaken]
  | cons c rest ih =>
    unfold untaken
    split
    · obtain ⟨hnodup, hall⟩ := ih taken
      exact ⟨hnodup, fun other hin =>
        ⟨List.mem_cons_of_mem _ (hall other hin).1, (hall other hin).2⟩⟩
    · rename_i htaken
      obtain ⟨hnodup, hall⟩ := ih (c.name :: taken)
      refine ⟨List.nodup_cons.2 ⟨fun hin => ?_, hnodup⟩, ?_⟩
      · obtain ⟨other, hother, hname⟩ := List.mem_map.1 hin
        exact (hall other hother).2 (hname ▸ List.mem_cons_self)
      · refine List.forall_mem_cons.2 ⟨⟨List.mem_cons_self, htaken⟩, fun other hin => ?_⟩
        exact ⟨List.mem_cons_of_mem _ (hall other hin).1,
          fun hother => (hall other hin).2 (List.mem_cons_of_mem _ hother)⟩

/-- With names apart, what is left are all columns whose names are not taken. -/
theorem untaken_eq_filter {columns : List ColumnDeclaration} (h : (columns.map (·.name)).Nodup)
    (taken : List String) : untaken taken columns = columns.filter (·.name ∉ taken) := by
  induction columns generalizing taken with
  | nil => rfl
  | cons c rest ih =>
    obtain ⟨hfirst, hrest⟩ := List.nodup_cons.1 h
    unfold untaken
    split
    · rename_i htaken
      rw [ih hrest, List.filter_cons_of_neg (by simpa using htaken)]
    · rename_i htaken
      rw [ih hrest, List.filter_cons_of_pos (by simpa using htaken)]
      congr 1
      refine List.filter_congr fun other hother => ?_
      have hne : other.name ≠ c.name := fun hsame =>
        hfirst (List.mem_map.2 ⟨other, hother, hsame⟩)
      simp [hne]

end TableDefinition

/-! ### The whole split -/

/-- The parts of a split have no name in common, and the key columns may be part of a key. -/
structure KeySplit.Apart (d : TableDefinition) (k : KeySplit) : Prop where
  partitionKey : k.partitionKey ≠ []
  names : ((k.partitionKey ++ k.clustering ++ k.remaining).map (·.name)).Nodup
  keys : ∀ c ∈ k.partitionKey ++ k.clustering, c.FitsKey
  declared : ∀ c ∈ k.partitionKey ++ k.clustering ++ k.remaining, ∃ c' ∈ d.columns, c'.name = c.name

namespace TableDefinition

/-- The pieces of a split that succeeded. -/
theorem keySplit_ok {d : TableDefinition} {k : KeySplit} (h : d.keySplit = .ok k) :
    ∃ names partitionKey clustering, d.partitionKeyNames = .ok names ∧
      d.keyColumns [] names = .ok partitionKey ∧
      d.keyColumns names d.clusteringColumns = .ok clustering ∧
      (d.clusteringOrder = [] ∨ d.clusteringOrder.map (·.column) = d.clusteringColumns) ∧
      k = ⟨partitionKey, clustering.map fun c => directed c (d.direction c.name),
        untaken (names ++ d.clusteringColumns) d.columns⟩ := by
  obtain ⟨names, hpartition, h⟩ := except_bind_eq_ok.1 h
  obtain ⟨partitionKey, hkey, h⟩ := except_bind_eq_ok.1 h
  obtain ⟨clustering, hclustering, h⟩ := except_bind_eq_ok.1 h
  obtain ⟨directions, hdirections, h⟩ := except_bind_eq_ok.1 h
  cases h
  obtain ⟨hnames, hnodup, -, -⟩ := keyColumns_ok hclustering
  obtain ⟨horder, rfl⟩ := (clusteringDirections_eq_ok_iff hnodup).1 hdirections
  refine ⟨names, partitionKey, clustering, hpartition, hkey, hclustering, horder, ?_⟩
  rw [← zipWith_directed, hnames]

/-- What is left of the columns was declared as it stands. -/
theorem declared_of_remaining {d : TableDefinition} {k : KeySplit} (h : d.keySplit = .ok k)
    {c : ColumnDeclaration} (hc : c ∈ k.remaining) : c ∈ d.columns := by
  obtain ⟨names, partitionKey, clustering, -, -, -, -, rfl⟩ := keySplit_ok h
  exact ((untaken_spec _ _).2 c hc).1

/-- **No column has two parts.** -/
theorem keySplit_apart {d : TableDefinition} {k : KeySplit} (h : d.keySplit = .ok k) :
    k.Apart d := by
  obtain ⟨names, partitionKey, clustering, hpartition, hkey, hclustering, -, rfl⟩ := keySplit_ok h
  obtain ⟨hnames, hnodup, -, hfits⟩ := keyColumns_ok hkey
  obtain ⟨hnames', hnodup', hfree, hfits'⟩ := keyColumns_ok hclustering
  obtain ⟨hrest, hleft⟩ := untaken_spec (names ++ d.clusteringColumns) d.columns
  have hdirected : (clustering.map fun c => directed c (d.direction c.name)).map (·.name) =
      d.clusteringColumns := by
    rw [List.map_map, ← hnames']
    exact List.map_congr_left fun c _ => directed_name c _
  refine ⟨?_, ?_, ?_, ?_⟩
  · rintro rfl
    exact (partitionKeyNames_eq_ok_iff.1 hpartition).1 hnames.symm
  · simp only [List.map_append, hnames, hdirected]
    refine List.nodup_append.2 ⟨List.nodup_append.2 ⟨hnodup, hnodup', ?_⟩, hrest, ?_⟩
    · rintro name hin _ hin' rfl
      exact hfree name hin' hin
    · rintro name hin _ hin' rfl
      obtain ⟨c, hc, rfl⟩ := List.mem_map.1 hin'
      exact (hleft c hc).2 hin
  · intro c hc
    rcases List.mem_append.1 hc with hc | hc
    · exact (hfits c hc).2
    · obtain ⟨original, hmem, rfl⟩ := List.mem_map.1 hc
      exact directed_fitsKey (hfits' original hmem).2 _
  · intro c hc
    rcases List.mem_append.1 hc with hc | hc
    · rcases List.mem_append.1 hc with hc | hc
      · exact ⟨c, (hfits c hc).1, rfl⟩
      · obtain ⟨original, hmem, rfl⟩ := List.mem_map.1 hc
        exact ⟨original, (hfits' original hmem).1, (directed_name original _).symm⟩
    · exact ⟨c, (hleft c hc).1, rfl⟩

/-! ### Accepted keys -/

/-- The names of the key columns, those of the partition key first. -/
def keyNames (d : TableDefinition) : List String := d.partitionKeys.flatten ++ d.clusteringColumns

/-- The declared columns outside the key. -/
def otherColumns (d : TableDefinition) : List ColumnDeclaration :=
  d.columns.filter (·.name ∉ d.keyNames)

/-- A primary key that a table can have. -/
structure KeyDeclared (d : TableDefinition) : Prop where
  /-- There is one partition key, and it has columns. -/
  partitionKey : ∃ names, names ≠ [] ∧ d.partitionKeys = [names]
  apart : d.keyNames.Nodup
  declared : ∀ name ∈ d.keyNames, ∃ c ∈ d.columns, c.name = name ∧ c.FitsKey
  /-- The clustering order is left out, or it names the clustering columns one by one. -/
  order : d.clusteringOrder = [] ∨ d.clusteringOrder.map (·.column) = d.clusteringColumns

/-- The parts of the columns as they are declared. -/
def parts (d : TableDefinition) : KeySplit where
  partitionKey := d.named d.partitionKeys.flatten
  clustering := (d.named d.clusteringColumns).map fun c => directed c (d.direction c.name)
  remaining := d.otherColumns

@[simp] theorem parts_remaining (d : TableDefinition) : d.parts.remaining = d.otherColumns := rfl

variable {d : TableDefinition}

theorem column?_eq_some_iff (h : (d.columns.map (·.name)).Nodup) {name : String}
    {c : ColumnDeclaration} : d.column? name = some c ↔ c ∈ d.columns ∧ c.name = name :=
  find?_name_eq_some_iff h

theorem mem_named_iff (h : (d.columns.map (·.name)).Nodup) {names : List String}
    {c : ColumnDeclaration} : c ∈ d.named names ↔ c ∈ d.columns ∧ c.name ∈ names := by
  simp only [named, List.mem_filterMap, column?_eq_some_iff h]
  exact ⟨fun ⟨name, hin, hc, hname⟩ => ⟨hc, hname ▸ hin⟩, fun ⟨hc, hin⟩ => ⟨c.name, hin, hc, rfl⟩⟩

namespace KeyDeclared

variable (h : d.KeyDeclared) (hnames : (d.columns.map (·.name)).Nodup)

include h hnames

theorem column? {name : String} (hin : name ∈ d.keyNames) :
    ∃ c, d.column? name = some c ∧ c.FitsKey := by
  obtain ⟨c, hc, hname, hfits⟩ := h.declared name hin
  exact ⟨c, (column?_eq_some_iff hnames).2 ⟨hc, hname⟩, hfits⟩

/-- A declared column with the name of a key column may be part of a key. -/
theorem fitsKey {c : ColumnDeclaration} (hc : c ∈ d.columns) (hin : c.name ∈ d.keyNames) :
    c.FitsKey := by
  obtain ⟨c', hc', hname, hfits⟩ := h.declared c.name hin
  rwa [List.inj_on_of_nodup_map hnames hc hc' hname.symm]

theorem partitionKey_names : d.parts.partitionKey.map (·.name) = d.partitionKeys.flatten :=
  named_names fun _ hin => h.column? hnames (List.mem_append_left _ hin)

theorem clustering_names : d.parts.clustering.map (·.name) = d.clusteringColumns := by
  have hfound : (d.named d.clusteringColumns).map (·.name) = d.clusteringColumns :=
    named_names fun _ hin => h.column? hnames (List.mem_append_right _ hin)
  rw [parts, List.map_map]
  exact (List.map_congr_left fun c _ => directed_name c _).trans hfound

theorem clustering_eq_nil_iff : d.parts.clustering = [] ↔ d.clusteringColumns = [] := by
  rw [← h.clustering_names hnames, List.map_eq_nil_iff]

end KeyDeclared

/-- **The split of the columns** succeeds if and only if the primary key is one that a table can
have, and gives the parts as they are declared. -/
theorem keySplit_eq_ok_iff (hnames : (d.columns.map (·.name)).Nodup) {k : KeySplit} :
    d.keySplit = .ok k ↔ d.KeyDeclared ∧ k = d.parts := by
  have hdeclared {name : String} (h : ∃ c, d.column? name = some c ∧ c.FitsKey) :
      ∃ c ∈ d.columns, c.name = name ∧ c.FitsKey := by
    obtain ⟨c, hc, hfits⟩ := h
    exact ⟨c, (mem_of_column? hc).1, (mem_of_column? hc).2, hfits⟩
  constructor
  · intro h
    obtain ⟨names, partitionKey, clustering, hpartition, hkey, hclustering, horder, rfl⟩ :=
      keySplit_ok h
    obtain ⟨hne, hsingle⟩ := partitionKeyNames_eq_ok_iff.1 hpartition
    obtain ⟨hnodup, hall, rfl⟩ := keyColumns_eq_ok_iff.1 hkey
    obtain ⟨hnodup', hall', rfl⟩ := keyColumns_eq_ok_iff.1 hclustering
    have hflat : d.partitionKeys.flatten = names := by simp [hsingle]
    refine ⟨⟨⟨names, hne, hsingle⟩, ?_, ?_, horder⟩, ?_⟩
    · rw [keyNames, hflat]
      refine List.nodup_append.2 ⟨hnodup, hnodup', ?_⟩
      rintro name hin _ hin' rfl
      exact (hall' name hin').1 hin
    · rw [keyNames, hflat]
      exact List.forall_mem_append.2 ⟨fun name hin => hdeclared (hall name hin).2,
        fun name hin => hdeclared (hall' name hin).2⟩
    · rw [parts, otherColumns, keyNames, hflat, untaken_eq_filter hnames]
  · rintro ⟨h, rfl⟩
    obtain ⟨names, hne, hsingle⟩ := h.partitionKey
    have hflat : d.partitionKeys.flatten = names := by simp [hsingle]
    have hapart := h.apart
    have hfound : ∀ name ∈ d.keyNames, ∃ c, d.column? name = some c ∧ c.FitsKey :=
      fun _ => h.column? hnames
    rw [keyNames, hflat] at hapart hfound
    obtain ⟨hnodup, hnodup', hfree⟩ := List.nodup_append.1 hapart
    obtain ⟨hall, hall'⟩ := List.forall_mem_append.1 hfound
    have hzip := zipWith_directed (d.named d.clusteringColumns) d.direction
    rw [named_names hall'] at hzip
    refine except_bind_eq_ok.2 ⟨names, partitionKeyNames_eq_ok_iff.2 ⟨hne, hsingle⟩,
      except_bind_eq_ok.2 ⟨_, keyColumns_eq_ok_iff.2 ⟨hnodup, fun name hin =>
        ⟨List.not_mem_nil, hall name hin⟩, rfl⟩,
      except_bind_eq_ok.2 ⟨_, keyColumns_eq_ok_iff.2 ⟨hnodup', fun name hin =>
        ⟨fun hin' => hfree name hin' name hin rfl, hall' name hin⟩, rfl⟩,
      except_bind_eq_ok.2 ⟨_, (clusteringDirections_eq_ok_iff hnodup').2 ⟨h.order, rfl⟩, ?_⟩⟩⟩⟩
    rw [hzip, untaken_eq_filter hnames, parts, otherColumns, keyNames, hflat]
    rfl

end TableDefinition

end WideColumn
