import WideColumn.Proofs.ConsistentTables
import WideColumn.Proofs.JsonForms

/-!
# Where the types of a table come from

A table holds types in its layouts, in its default and in its columns.  All of them were given: the
types that stand in a compiled table are those of the declared columns, and a change brings in the
type that it names.  Clustering columns turn a type round, and texts, bytes and counters come
unasked.

* `DrawnFrom` — a type that was given, perhaps turned round, or a scalar;
* `TableDefinition.drawnFrom_of_compile` — **the types of a compiled table**;
* `TableSchema.drawnFrom_of_change` — **and those that a change brings in**;
* `TableSchema.SingleMarks`, `TableSchema.SingleMarks.change` — double marks do not come about;
* `TableSchema.Consistent.storable` — **a table with fewer columns than words have values can be
  written**, if its collections are in order;
* `TableSchema.Ordered`, `TableSchema.Ordered.change` — which they always are.
-/

namespace WideColumn

open Effects

/-- The type is one of those given, or one of them in descending order; or it is a scalar. -/
inductive ColumnType.DrawnFrom (given : List ColumnType) : ColumnType → Prop
  | scalar (s : ScalarType) : DrawnFrom given (scalar s)
  | same {t : ColumnType} (h : t ∈ given) : DrawnFrom given t
  | turned {t : ColumnType} (h : t ∈ given) : DrawnFrom given t.descend

/-- No double marks come from types without them. -/
theorem ColumnType.DrawnFrom.hasSingleMarks {given : List ColumnType} {t : ColumnType}
    (h : DrawnFrom given t) (hgiven : ∀ t ∈ given, t.hasSingleMarks = true) :
    t.hasSingleMarks = true := by
  cases h with
  | scalar s => rfl
  | same h => exact hgiven t h
  | turned h => exact (hasSingleMarks_descend _).trans (hgiven _ h)

namespace TableSchema

variable {s : TableSchema} {t : ColumnType}

theorem mem_types :
    t ∈ s.types ↔ t ∈ s.keyLayout.types ∨ t ∈ s.cellLayout.types ∨ t = s.defaultType ∨
      ∃ c ∈ s.columns, c.type = t := by
  simp [types]

theorem mem_types_of_key (h : t ∈ s.keyLayout.types) : t ∈ s.types := mem_types.2 (.inl h)

theorem mem_types_of_cell (h : t ∈ s.cellLayout.types) : t ∈ s.types :=
  mem_types.2 (.inr (.inl h))

theorem defaultType_mem_types : s.defaultType ∈ s.types := mem_types.2 (.inr (.inr (.inl rfl)))

theorem type_mem_types {c : Column} (h : c ∈ s.columns) : c.type ∈ s.types :=
  mem_types.2 (.inr (.inr (.inr ⟨c, h, rfl⟩)))

end TableSchema

/-! ### Compiled tables -/

theorem CellLayout.mem_types_of_choose? {types : List ColumnType} {compact : Bool}
    {collections : CollectionTypes} {layout : CellLayout}
    (h : choose? types compact collections = some layout) {t : ColumnType}
    (ht : t ∈ layout.types) : t = .text ∨ t ∈ types ∨ t ∈ Bindings.values collections := by
  unfold choose? at h
  split at h
  · split at h
    · cases h
    · split at h <;> cases h
      · exact .inl (List.mem_singleton.1 ht)
      · exact .inr (.inl ht)
      · exact .inr (.inl ht)
  · cases h
    rcases List.mem_append.1 ht with ht | ht
    · exact .inr (.inl ht)
    · cases collections with
      | nil => cases ht
      | cons => exact .inr (.inr ht)

theorem DefaultValue.type_of_resolve {compact : Bool} {count : Nat}
    {remaining : List ColumnDeclaration} {default : DefaultValue}
    (h : resolve compact count remaining = .ok default) :
    (∃ s, default.type = .scalar s) ∨ ∃ c ∈ remaining, c.type = default.type := by
  have hscalar (columns : List ColumnDeclaration) : ∃ s, counterOrBlob columns = .scalar s := by
    unfold counterOrBlob
    split <;> exact ⟨_, rfl⟩
  unfold resolve at h
  split at h <;> cases h
  · exact .inl (hscalar _)
  · exact .inl ⟨_, rfl⟩
  · exact .inr ⟨_, List.mem_singleton_self _, rfl⟩
  · exact .inl (hscalar _)
  · exact .inl ⟨_, rfl⟩
  · exact .inl ⟨_, rfl⟩
  · exact .inr ⟨_, List.mem_singleton_self _, rfl⟩

namespace TableDefinition

/-- The columns of a split have the types that were declared, or clustering turned them round. -/
theorem drawnFrom_of_keySplit {d : TableDefinition} {k : KeySplit} (h : d.keySplit = .ok k)
    {c : ColumnDeclaration} (hc : c ∈ k.partitionKey ++ k.clustering ++ k.remaining) :
    ColumnType.DrawnFrom (d.columns.map (·.type)) c.type := by
  have hleft := fun c => declared_of_remaining h (c := c)
  obtain ⟨names, partitionKey, clustering, -, hkey, hclustering, -, rfl⟩ := keySplit_ok h
  obtain ⟨-, -, -, hpartition⟩ := keyColumns_ok hkey
  obtain ⟨-, -, -, hordered⟩ := keyColumns_ok hclustering
  rcases List.mem_append.1 hc with hc | hc
  · rcases List.mem_append.1 hc with hc | hc
    · exact .same (List.mem_map_of_mem (hpartition c hc).1)
    · obtain ⟨original, hmem, rfl⟩ := List.mem_map.1 hc
      have hdeclared := List.mem_map_of_mem (f := (·.type)) (hordered original hmem).1
      cases d.direction original.name with
      | asc => exact .same hdeclared
      | desc => exact .turned hdeclared
  · exact .same (List.mem_map_of_mem (hleft c hc))

/-- **The types of a compiled table** are drawn from those of its columns. -/
theorem drawnFrom_of_compile {d : TableDefinition} {s : TableSchema} (h : d.compile = .ok s)
    {t : ColumnType} (ht : t ∈ s.types) : ColumnType.DrawnFrom (d.columns.map (·.type)) t := by
  obtain ⟨k, layout, default, hcompiled, rfl⟩ := compile_ok h
  have hsplit {c : ColumnDeclaration} (hc : c ∈ k.partitionKey ++ k.clustering ++ k.remaining) :
      ColumnType.DrawnFrom (d.columns.map (·.type)) c.type :=
    drawnFrom_of_keySplit hcompiled.keySplit hc
  rcases TableSchema.mem_types.1 ht with ht | ht | rfl | ⟨c, hc, rfl⟩
  · have htypes : (d.table k layout default).keyLayout.types = k.partitionKeyTypes :=
      KeyLayout.types_ofTypes _
    rw [htypes] at ht
    obtain ⟨c, hc, rfl⟩ := List.mem_map.1 ht
    exact hsplit (List.mem_append_left _ (List.mem_append_left _ hc))
  · rcases CellLayout.mem_types_of_choose? hcompiled.layout ht with rfl | ht | ht
    · exact .scalar _
    · obtain ⟨c, hc, rfl⟩ := List.mem_map.1 ht
      exact hsplit (List.mem_append_left _ (List.mem_append_right _ hc))
    · obtain ⟨binding, hbinding, rfl⟩ := List.mem_map.1 ht
      obtain ⟨c, hc, rfl⟩ := List.mem_map.1 (Bindings.mem_of_mem_ofList hbinding)
      exact hsplit (List.mem_append_right _ (List.mem_filter.1 hc).1)
  · show ColumnType.DrawnFrom _ default.type
    rcases DefaultValue.type_of_resolve hcompiled.default with ⟨scalar, hscalar⟩ | ⟨c, hc, htype⟩
    · rw [hscalar]
      exact .scalar scalar
    · rw [← htype]
      exact hsplit (List.mem_append_right _ hc)
  · rcases mem_table_columns hc with ⟨-, declaration, hmem, htype⟩ | hvalue
    · rw [← htype]
      exact hsplit (List.mem_append_left _ hmem)
    · obtain ⟨declaration, hmem, rfl⟩ := List.mem_map.1 hvalue
      rw [valueRole_type]
      exact hsplit (List.mem_append_right _ hmem)

end TableDefinition

/-! ### Changed tables -/

/-- The types that a change names. -/
def SchemaChange.types : SchemaChange → List ColumnType
  | addColumn c => [c.type]
  | retypeColumn _ type => [type]
  | dropColumn _ | setProperties _ => []

theorem CellLayout.mem_types_of_withCollection? {layout layout' : CellLayout} {column : String}
    {type t : ColumnType} (h : layout.withCollection? column type = some layout')
    (ht : t ∈ layout'.types) : t ∈ layout.types ∨ t = type := by
  cases layout with
  | compoundSparse types collections =>
    cases h
    rcases List.mem_append.1 ht with ht | ht
    · exact .inl (List.mem_append_left _ ht)
    · obtain ⟨binding, hbinding, rfl⟩ := List.mem_map.1 ht
      rcases Bindings.eq_or_mem_of_mem_insert hbinding with rfl | hbinding
      · exact .inr rfl
      · exact .inl (List.mem_append_right _ (List.mem_map_of_mem hbinding))
  | simpleSparse | simpleDense | compoundDense => cases h

/-- A new collection is put in its place among the others. -/
theorem CellLayout.sorted_of_withCollection? {layout layout' : CellLayout} {column : String}
    {type : ColumnType} (h : ∀ cs, layout.collections? = some cs → cs.Sorted)
    (hroom : layout.withCollection? column type = some layout') :
    ∀ cs, layout'.collections? = some cs → cs.Sorted := by
  cases layout with
  | compoundSparse types collections =>
    cases hroom
    intro cs hcs
    cases hcs
    refine Bindings.insert_sorted _ _ ?_
    cases collections with
    | none => exact List.Pairwise.nil
    | some collections => exact h collections rfl
  | simpleSparse | simpleDense | compoundDense => cases hroom

theorem CellLayout.mem_types_of_withClusteringType {layout : CellLayout} {position : Nat}
    {type t : ColumnType} (ht : t ∈ (layout.withClusteringType position type).types) :
    t ∈ layout.types ∨ t = type := by
  cases layout with
  | simpleSparse => exact .inl ht
  | simpleDense previous =>
    obtain rfl := List.mem_singleton.1 ht
    split
    · exact .inr rfl
    · exact .inl (List.mem_singleton_self _)
  | compoundSparse types collections =>
    rcases List.mem_append.1 ht with ht | ht
    · exact (List.mem_or_eq_of_mem_set ht).imp (List.mem_append_left _) id
    · exact .inl (List.mem_append_right _ ht)
  | compoundDense types => exact List.mem_or_eq_of_mem_set ht

namespace TableSchema

variable {s s' : TableSchema}

theorem type_of_mem_retypeFirst {name : String} {type : ColumnType} {columns : List Column}
    {c : Column} (h : c ∈ retypeFirst name type columns) :
    (∃ c' ∈ columns, c'.type = c.type) ∨ c.type = type := by
  induction columns with
  | nil => cases h
  | cons head rest ih =>
    unfold retypeFirst at h
    split at h
    · rcases List.mem_cons.1 h with rfl | h
      · exact .inr rfl
      · exact .inl ⟨c, List.mem_cons_of_mem _ h, rfl⟩
    · rcases List.mem_cons.1 h with rfl | h
      · exact .inl ⟨c, List.mem_cons_self, rfl⟩
      · rcases ih h with ⟨c', hc', htype⟩ | htype
        · exact .inl ⟨c', List.mem_cons_of_mem _ hc', htype⟩
        · exact .inr htype

/-- The layout with room for a new column records it, or is the layout as it was. -/
theorem layoutWith_cases {c : ColumnDeclaration} {layout : CellLayout}
    (h : s.layoutWith c = .ok layout) :
    layout = s.cellLayout ∨ s.cellLayout.withCollection? c.name c.type = some layout := by
  unfold layoutWith at h
  split at h
  · cases h
    exact .inl rfl
  · split at h
    · cases h
    · split at h
      · rename_i hroom
        cases h
        exact .inr hroom
      · cases h

theorem types_of_addColumn {c : ColumnDeclaration} (h : s.addColumn c = .ok s') {t : ColumnType}
    (ht : t ∈ s'.types) : t ∈ s.types ∨ ColumnType.DrawnFrom [c.type] t := by
  obtain ⟨layout, hadded, rfl⟩ := addColumn_ok h
  rcases mem_types.1 ht with ht | ht | rfl | ⟨other, hother, rfl⟩
  · exact .inl (mem_types_of_key ht)
  · rcases layoutWith_cases hadded.layout with rfl | hroom
    · exact .inl (mem_types_of_cell ht)
    · rcases CellLayout.mem_types_of_withCollection? hroom ht with ht | rfl
      · exact .inl (mem_types_of_cell ht)
      · exact .inr (.same (List.mem_singleton_self _))
  · show (if !s.isCompact && c.type.isCounter then _ else _) ∈ _ ∨
      ColumnType.DrawnFrom _ (if !s.isCompact && c.type.isCounter then _ else _)
    split
    · exact .inr (.scalar _)
    · exact .inl defaultType_mem_types
  · rcases List.mem_append.1 hother with hother | hother
    · exact .inl (type_mem_types hother)
    · obtain rfl := List.mem_singleton.1 hother
      exact .inr (.same (List.mem_singleton_self _))

theorem drawnFrom_of_mem_retypeFirst {name : String} {given : List ColumnType}
    {stored t : ColumnType} (hstored : ColumnType.DrawnFrom given stored)
    (h : ∃ c ∈ retypeFirst name stored s.columns, c.type = t) :
    t ∈ s.types ∨ ColumnType.DrawnFrom given t := by
  obtain ⟨c, hc, rfl⟩ := h
  rcases type_of_mem_retypeFirst hc with ⟨previous, hmem, htype⟩ | htype
  · exact .inl (htype ▸ type_mem_types hmem)
  · exact .inr (htype ▸ hstored)

/-- The layout of cell names with another type for a clustering column. -/
theorem drawnFrom_of_retypedLayout {given : List ColumnType} {stored t : ColumnType}
    (hstored : ColumnType.DrawnFrom given stored) {position? : Option Nat}
    (ht : t ∈ (match position? with
      | some position => s.cellLayout.withClusteringType position stored
      | none => s.cellLayout).types) : t ∈ s.types ∨ ColumnType.DrawnFrom given t := by
  cases position? with
  | none => exact .inl (mem_types_of_cell ht)
  | some position =>
    rcases CellLayout.mem_types_of_withClusteringType ht with ht | rfl
    · exact .inl (mem_types_of_cell ht)
    · exact .inr hstored

/-- Another type for a column of a table: where the types of the new table come from. -/
theorem types_of_retyped {c : Column} {type t : ColumnType} (ht : t ∈ (s.retyped c type).types) :
    t ∈ s.types ∨ ColumnType.DrawnFrom [type] t := by
  have hplain : ColumnType.DrawnFrom [type] type := .same (List.mem_singleton_self _)
  unfold retyped at ht
  -- Each role has the type in another place beside the column itself.
  cases hrole : c.role with
  | partitionKey =>
    simp only [hrole] at ht
    rcases mem_types.1 ht with ht | ht | ht | ht
    · rw [KeyLayout.types_ofTypes] at ht
      obtain ⟨k, hk, rfl⟩ := List.mem_map.1 ht
      split
      · exact .inr hplain
      · exact .inl (type_mem_types (mem_partitionKeyColumns.1 hk).1)
    · exact .inl (mem_types_of_cell ht)
    · exact .inl (ht ▸ defaultType_mem_types)
    · exact drawnFrom_of_mem_retypeFirst hplain ht
  | clusteringKey =>
    have hstored : ColumnType.DrawnFrom [type]
        (if c.type.isDescending then type.descend else type) := by
      split
      · exact .turned (List.mem_singleton_self _)
      · exact hplain
    simp only [hrole] at ht
    rcases mem_types.1 ht with ht | ht | ht | ht
    · exact .inl (mem_types_of_key ht)
    · exact drawnFrom_of_retypedLayout hstored ht
    · exact .inl (ht ▸ defaultType_mem_types)
    · exact drawnFrom_of_mem_retypeFirst hstored ht
  | compactValue =>
    simp only [hrole] at ht
    rcases mem_types.1 ht with ht | ht | ht | ht
    · exact .inl (mem_types_of_key ht)
    · exact .inl (mem_types_of_cell ht)
    · exact .inr (ht ▸ hplain)
    · exact drawnFrom_of_mem_retypeFirst hplain ht
  | regular | static =>
    simp only [hrole] at ht
    rcases mem_types.1 ht with ht | ht | ht | ht
    · exact .inl (mem_types_of_key ht)
    · exact .inl (mem_types_of_cell ht)
    · simp only at ht
      split at ht
      · exact .inr (ht ▸ hplain)
      · exact .inl (ht ▸ defaultType_mem_types)
    · exact drawnFrom_of_mem_retypeFirst hplain ht

theorem types_of_dropColumn {name : String} (h : s.dropColumn name = .ok s') {t : ColumnType}
    (ht : t ∈ s'.types) : t ∈ s.types := by
  obtain ⟨c, -, -, -, rfl⟩ := dropColumn_ok h
  rcases mem_types.1 ht with ht | ht | rfl | ⟨other, hother, rfl⟩
  · exact mem_types_of_key ht
  · exact mem_types_of_cell ht
  · exact defaultType_mem_types
  · exact type_mem_types (List.mem_of_mem_filter hother)

/-- **The types of a changed table** were there before, or the change brings them in. -/
theorem drawnFrom_of_change {change : SchemaChange} (h : s.change change = .ok s')
    {t : ColumnType} (ht : t ∈ s'.types) :
    t ∈ s.types ∨ ColumnType.DrawnFrom change.types t := by
  cases change with
  | addColumn c => exact types_of_addColumn h ht
  | dropColumn name => exact .inl (types_of_dropColumn h ht)
  | retypeColumn name type =>
    obtain ⟨c, -, -, rfl⟩ := retypeColumn_ok h
    exact types_of_retyped ht
  | setProperties p =>
    obtain ⟨-, rfl⟩ := setProperties_ok h
    exact .inl ht

/-! ### What changes keep -/

/-- The table holds no type with double marks. -/
def SingleMarks (s : TableSchema) : Prop := ∀ t ∈ s.types, t.hasSingleMarks = true

theorem SingleMarks.change (h : s.SingleMarks) {change : SchemaChange}
    (hgiven : ∀ t ∈ change.types, t.hasSingleMarks = true) (hchange : s.change change = .ok s') :
    s'.SingleMarks := by
  intro t ht
  rcases drawnFrom_of_change hchange ht with ht | ht
  · exact h t ht
  · exact ht.hasSingleMarks hgiven

theorem singleMarks_of_compile {d : TableDefinition} (h : d.compile = .ok s)
    (hgiven : ∀ c ∈ d.columns, c.type.hasSingleMarks = true) : s.SingleMarks := fun _ ht =>
  (TableDefinition.drawnFrom_of_compile h ht).hasSingleMarks (List.forall_mem_map.2 hgiven)

/-- The collections of the layout are in the order of their names. -/
def Ordered (s : TableSchema) : Prop :=
  ∀ cs, s.cellLayout.collections? = some cs → cs.Sorted

theorem ordered_of_compile {d : TableDefinition} (h : d.compile = .ok s) : s.Ordered := by
  obtain ⟨k, layout, default, hcompiled, rfl⟩ := TableDefinition.compile_ok h
  intro cs hcs
  have hlayout := hcompiled.layout
  change layout.collections? = some cs at hcs
  unfold CellLayout.choose? at hlayout
  split at hlayout
  · split at hlayout
    · cases hlayout
    · split at hlayout <;> cases hlayout <;> cases hcs
  · cases hlayout
    change (if _ then none else some _) = some cs at hcs
    split at hcs
    · cases hcs
    · cases hcs
      exact Bindings.ofList_sorted _

theorem Ordered.change (h : s.Ordered) {change : SchemaChange}
    (hchange : s.change change = .ok s') : s'.Ordered := by
  cases change with
  | addColumn c =>
    obtain ⟨layout, hadded, rfl⟩ := addColumn_ok hchange
    rcases layoutWith_cases hadded.layout with rfl | hroom
    · exact h
    · exact CellLayout.sorted_of_withCollection? h hroom
  | dropColumn name =>
    obtain ⟨c, -, -, -, rfl⟩ := dropColumn_ok hchange
    exact h
  | retypeColumn name type =>
    obtain ⟨c, -, -, rfl⟩ := retypeColumn_ok hchange
    unfold Ordered
    rw [(retyped_cellLayout s c type).2.2]
    exact h
  | setProperties p =>
    obtain ⟨-, rfl⟩ := setProperties_ok hchange
    exact h

/-! ### Places that fit into words -/

theorem Consistent.componentIndex_lt (h : s.Consistent) {c : Column} (hc : c ∈ s.columns) {i : Nat}
    (hi : c.componentIndex = some i) : i < s.columns.length := by
  have hplace {columns : List Column} {isComposite : Bool}
      (hlength : columns.length ≤ s.columns.length) (hin : c ∈ columns)
      (hindex : ∀ (j : Nat) (c : Column), columns[j]? = some c →
        c.componentIndex = if isComposite then some j else none) : i < s.columns.length := by
    obtain ⟨j, hj⟩ := List.mem_iff_getElem?.1 hin
    rw [hindex j c hj] at hi
    split at hi
    · cases hi
      exact Nat.lt_of_lt_of_le (List.getElem?_eq_some_iff.1 hj).1 hlength
    · cases hi
  have hvalue (hrole : c.role = .regular ∨ c.role = .static) : i < s.columns.length := by
    rw [h.valueIndex c hc hrole] at hi
    split at hi
    · cases hi
      refine List.length_filter_lt_length_iff_exists.2 ⟨c, hc, ?_⟩
      rcases hrole with hrole | hrole <;> simp [hrole]
    · cases hi
  cases hrole : c.role with
  | partitionKey =>
    exact hplace (List.length_filter_le _ _) (mem_partitionKeyColumns.2 ⟨hc, hrole⟩)
      h.partitionIndex
  | clusteringKey =>
    exact hplace (List.length_filter_le _ _) (mem_clusteringColumns.2 ⟨hc, hrole⟩)
      h.clusteringIndex
  | regular => exact hvalue (.inl hrole)
  | static => exact hvalue (.inr hrole)
  | compactValue =>
    rw [h.compactIndex c hc hrole] at hi
    cases hi

/-- **What can be written**: a table with its collections in order and no more columns than words
have values. -/
theorem Consistent.storable (h : s.Consistent) (hordered : s.Ordered)
    (hcolumns : s.columns.length ≤ 0x10000000000000000) : s.Storable :=
  ⟨hordered, fun _ hc _ hi => Nat.lt_of_lt_of_le (h.componentIndex_lt hc hi) hcolumns⟩

end TableSchema

end WideColumn
