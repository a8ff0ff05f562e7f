import WideColumn.Proofs.AcceptedDefinitions
import WideColumn.Proofs.StoredData

/-!
# Columns keep their places

A change brings a column, takes one away or gives one another type, but it moves none: the key
columns are the same ever after, and each column that is not dropped plays its part at its place.

* `TableSchema.KeepsPlaces` and `KeepsPlaces.change` — a change leaves the key columns in their
  places and names of cells of the same kind;
* `TableSchema.KeepsPlace` and `KeepsPlace.change` — a column that is not dropped keeps its part, its
  place and the kind of its type;
* `placed_changeAll` — **so does every sequence of changes**;
* `clusteringColumns_of_compile` — the clustering columns are those of the definition.
-/

namespace WideColumn

open Effects

namespace TableSchema

variable {s s' s'' : TableSchema} {name : String}

/-! ### What keeps its place -/

/-- The key columns are the same, and so is the kind of cell names. -/
structure KeepsPlaces (s s' : TableSchema) : Prop where
  partitionKey : s'.partitionKeyColumns.map (·.name) = s.partitionKeyColumns.map (·.name)
  clustering : s'.clusteringColumns.map (·.name) = s.clusteringColumns.map (·.name)
  isDense : s'.cellLayout.isDense = s.cellLayout.isDense
  isCompound : s'.cellLayout.isCompound = s.cellLayout.isCompound

/-- The column plays the same part at the same place, with a type of the same kind. -/
structure SamePlace (c c' : Column) : Prop where
  role : c'.role = c.role
  componentIndex : c'.componentIndex = c.componentIndex
  multiCell : c'.type.isMultiCell = c.type.isMultiCell
  counter : c'.type.isCounter = c.type.isCounter

/-- The column of a name, if there is one, is still there and at its place. -/
def KeepsPlace (s s' : TableSchema) (name : String) : Prop :=
  ∀ c, s.column? name = some c → ∃ c', s'.column? name = some c' ∧ SamePlace c c'

theorem KeepsPlaces.refl (s : TableSchema) : s.KeepsPlaces s := ⟨rfl, rfl, rfl, rfl⟩

theorem KeepsPlaces.trans (h : s.KeepsPlaces s') (h' : s'.KeepsPlaces s'') : s.KeepsPlaces s'' where
  partitionKey := h'.partitionKey.trans h.partitionKey
  clustering := h'.clustering.trans h.clustering
  isDense := h'.isDense.trans h.isDense
  isCompound := h'.isCompound.trans h.isCompound

theorem SamePlace.refl (c : Column) : SamePlace c c := ⟨rfl, rfl, rfl, rfl⟩

theorem KeepsPlace.refl (s : TableSchema) (name : String) : s.KeepsPlace s name :=
  fun c hc => ⟨c, hc, .refl c⟩

theorem KeepsPlace.trans (h : s.KeepsPlace s' name) (h' : s'.KeepsPlace s'' name) :
    s.KeepsPlace s'' name := by
  intro c hc
  obtain ⟨c', hc', hplace⟩ := h c hc
  obtain ⟨c'', hc'', hplace'⟩ := h' c' hc'
  exact ⟨c'', hc'', hplace'.role.trans hplace.role,
    hplace'.componentIndex.trans hplace.componentIndex, hplace'.multiCell.trans hplace.multiCell,
    hplace'.counter.trans hplace.counter⟩

/-! ### Each change -/

theorem keepsPlaces_addColumn {c : ColumnDeclaration} (hadd : s.addColumn c = .ok s') :
    s.KeepsPlaces s' := by
  obtain ⟨layout, hadded, rfl⟩ := addColumn_ok hadd
  obtain ⟨-, hdense, hcompound, -⟩ := layoutWith_ok hadded.layout
  have hkey := (newColumn_role s c).1
  have hnone {role : ColumnRole} (hrole : role.isKey = true) :
      [s.newColumn c].filter (·.role = role) = [] := by
    refine List.filter_eq_nil_iff.2 fun other hother => ?_
    obtain rfl := List.mem_singleton.1 hother
    simp only [decide_eq_true_eq]
    intro hsame
    rw [hsame, hrole] at hkey
    cases hkey
  have hsame {role : ColumnRole} (hrole : role.isKey = true) :
      (s.withColumn c layout).columnsOf role = s.columnsOf role := by
    unfold columnsOf
    rw [withColumn_columns, List.filter_append, hnone hrole, List.append_nil]
  exact ⟨congrArg _ (hsame rfl), congrArg _ (hsame rfl), hdense, hcompound⟩

theorem Consistent.keepsPlaces_dropColumn (hs : s.Consistent) (hdrop : s.dropColumn name = .ok s') :
    s.KeepsPlaces s' := by
  obtain ⟨c, hfound, hkey, -, rfl⟩ := dropColumn_ok hdrop
  obtain ⟨hmem, rfl⟩ := mem_of_column? hfound
  have hsame {role : ColumnRole} (hrole : role.isKey = true) :
      (s.without c.name).columnsOf role = s.columnsOf role := by
    unfold columnsOf without
    rw [List.filter_filter]
    refine List.filter_congr fun other hother => ?_
    by_cases hname : other.name = c.name
    · obtain rfl := hs.eq_of_name hother hmem hname
      have hne : other.role ≠ role := fun hsame => by simp [hsame, hrole] at hkey
      simp [hne]
    · simp [hname]
  exact ⟨congrArg _ (hsame rfl), congrArg _ (hsame rfl), rfl, rfl⟩

theorem Consistent.keepsPlaces_retypeColumn (hs : s.Consistent) {type : ColumnType}
    (hretype : s.retypeColumn name type = .ok s') : s.KeepsPlaces s' := by
  obtain ⟨c, -, -, rfl⟩ := retypeColumn_ok hretype
  obtain ⟨hdense, hcompound, -⟩ := retyped_cellLayout s c type
  have hsame (role : ColumnRole) :
      ((s.retyped c type).columnsOf role).map (·.name) = (s.columnsOf role).map (·.name) := by
    unfold columnsOf
    rw [retyped_columns hs.names, List.filter_map, List.map_map]
    simp only [Function.comp_def, Column.retype_role, Column.retype_name]
  exact ⟨hsame _, hsame _, hdense, hcompound⟩

/-- **A change leaves the key columns in their places.** -/
theorem KeepsPlaces.change (hs : s.Consistent) {change : SchemaChange}
    (hchange : s.change change = .ok s') : s.KeepsPlaces s' := by
  cases change with
  | addColumn c => exact keepsPlaces_addColumn hchange
  | dropColumn name => exact hs.keepsPlaces_dropColumn hchange
  | retypeColumn name type => exact hs.keepsPlaces_retypeColumn hchange
  | setProperties p =>
    obtain ⟨-, rfl⟩ := setProperties_ok hchange
    exact ⟨rfl, rfl, rfl, rfl⟩

/-- **A change leaves a column at its place**, unless it drops the column. -/
theorem KeepsPlace.change (hs : s.Consistent) {change : SchemaChange}
    (hchange : s.change change = .ok s') (hkept : change ≠ .dropColumn name) :
    s.KeepsPlace s' name := by
  have hs' := hs.change hchange
  intro c hc
  obtain ⟨hmem, rfl⟩ := hs.column?_eq_some_iff.1 hc
  cases change with
  | addColumn declaration =>
    obtain ⟨layout, -, rfl⟩ := addColumn_ok hchange
    exact ⟨c, hs'.column?_eq_some_iff.2 ⟨List.mem_append_left _ hmem, rfl⟩, .refl c⟩
  | dropColumn dropped =>
    obtain ⟨-, -, -, -, rfl⟩ := dropColumn_ok hchange
    have hstays : c ∈ (s.without dropped).columns :=
      List.mem_filter.2 ⟨hmem, decide_eq_true fun hsame => hkept (hsame ▸ rfl)⟩
    exact ⟨c, hs'.column?_eq_some_iff.2 ⟨hstays, rfl⟩, .refl c⟩
  | retypeColumn retyped type =>
    obtain ⟨previous, hfound, hretyped, rfl⟩ := retypeColumn_ok hchange
    obtain ⟨hprevious, rfl⟩ := mem_of_column? hfound
    obtain ⟨hmulti, hcounter⟩ := hs.retyped_kind hretyped hprevious hmem
    have hstays : c.retype previous.name (storedType previous type) ∈
        (s.retyped previous type).columns := by
      rw [retyped_columns hs.names]
      exact List.mem_map_of_mem hmem
    exact ⟨_, hs'.column?_eq_some_iff.2 ⟨hstays, Column.retype_name _ _ _⟩,
      Column.retype_role _ _ _, Column.retype_componentIndex _ _ _, hmulti, hcounter⟩
  | setProperties p =>
    obtain ⟨-, rfl⟩ := setProperties_ok hchange
    exact ⟨c, hc, .refl c⟩

/-! ### Sequences of changes -/

/-- **Whatever changes there are**, the key columns stay in their places, and so do the columns that
are not dropped. -/
theorem placed_changeAll {changes : List SchemaChange} (hs : s.Consistent)
    (hchanges : s.changeAll changes = .ok s') :
    s.KeepsPlaces s' ∧ ∀ name, .dropColumn name ∉ changes → s.KeepsPlace s' name :=
  ⟨hs.changeAll_related (R := KeepsPlaces) (.refl s) .trans
      (fun _ _ _ _ hnext hchange => KeepsPlaces.change hnext hchange) hchanges,
    fun name => hs.changeAll_keeps_column (R := fun a b => a.KeepsPlace b name) (.refl s name)
      .trans (fun _ _ _ hnext hchange hkept => KeepsPlace.change hnext hchange hkept) hchanges⟩

end TableSchema

/-! ### The clustering columns of a definition -/

namespace TableDefinition

/-- **The clustering columns of a compiled table** are those of its definition. -/
theorem clusteringColumns_of_compile {d : TableDefinition} {s : TableSchema}
    (h : d.compile = .ok s) : s.clusteringColumns.map (·.name) = d.clusteringColumns := by
  obtain ⟨hd, layout, default, -, -, rfl⟩ := compile_eq_ok_iff_acceptable.1 h
  obtain ⟨-, hclustering, -⟩ := table_columns d d.parts layout default
  rw [← hd.key.clustering_names hd.apart, hclustering, keyRoles_names]

end TableDefinition

end WideColumn
