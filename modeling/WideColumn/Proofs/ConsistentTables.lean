import Mathlib.Data.List.Nodup
import WideColumn.Proofs.CompiledTables
import WideColumn.Proofs.KeySplits
import WideColumn.Proofs.SchemaChanges
import WideColumn.Proofs.SortedBindings

/-!
# Tables that agree with themselves

A table says several things twice: the types of its key columns stand in the columns and in the two
layouts, the place of a column follows from the layout, and collections are recorded beside the
columns that have them.

* `Consistent` — what a table says in two places is the same;
* `consistent_of_compile` — a compiled table is consistent;
* `Consistent.addColumn`, `Consistent.dropColumn`, `Consistent.retypeColumn` and
  `Consistent.setProperties` — each change keeps it so;
* `Consistent.changeAll_related`, `Consistent.changeAll_keeps_column` — what each change keeps of a
  consistent table, all changes keep;
* `Evolved.consistent` — **a table is consistent whatever changes it went through**.
-/

namespace WideColumn

open Effects

/-! ### Consistency -/

/-- What a table says in two places is the same. -/
structure TableSchema.Consistent (s : TableSchema) : Prop where
  /-- No two columns have one name. -/
  names : (s.columns.map (·.name)).Nodup
  validNames : ∀ c ∈ s.columns, Naming.checkColumnName c.name = .ok ()
  /-- The columns stand in the order of their parts. -/
  order : s.columns = s.partitionKeyColumns ++ s.clusteringColumns ++ s.otherColumns
  partitionKey : s.partitionKeyColumns ≠ []
  /-- Keys are made up of the partition-key columns. -/
  keyLayout : s.keyLayout = KeyLayout.ofTypes (s.partitionKeyColumns.map (·.type))
  /-- Cell names are made up of the clustering columns. -/
  clustering : s.cellLayout.clusteringTypes = s.clusteringColumns.map (·.type)
  dense : s.isDense = s.cellLayout.isDense
  /-- Only a compact table has another layout than the compound sparse one. -/
  compact : s.isCompact = true ↔ s.cellLayout.isDense = true ∨ s.cellLayout.isCompound = false
  partitionIndex : ∀ (i : Nat) (c : Column), s.partitionKeyColumns[i]? = some c →
    c.componentIndex = if s.keyLayout.isComposite then some i else none
  clusteringIndex : ∀ (i : Nat) (c : Column), s.clusteringColumns[i]? = some c →
    c.componentIndex = if s.cellLayout.isCompound then some i else none
  /-- The names of regular and static columns come after the clustering values. -/
  valueIndex : ∀ c ∈ s.columns, c.role = .regular ∨ c.role = .static →
    c.componentIndex =
      if s.cellLayout.isCompound then some s.clusteringColumns.length else none
  compactIndex : ∀ c ∈ s.columns, c.role = .compactValue → c.componentIndex = none
  keyTypes : ∀ c ∈ s.columns, c.role.isKey = true →
    c.type.isMultiCell = false ∧ c.type.isCounter = false
  /-- Multi-cell columns are recorded under the type that they have. -/
  collections : ∀ c ∈ s.columns, c.type.isMultiCell = true →
    s.cellLayout.collectionType? c.name = some c.type
  /-- Static columns have rows to be shared by. -/
  static : ∀ c ∈ s.columns, c.role = .static →
    s.isCompact = false ∧ s.isDense = false ∧ s.clusteringColumns ≠ []
  /-- The one column outside the key of a dense table is its value column. -/
  compactValue : ∀ c ∈ s.columns, c.role.isKey = false →
    (c.role = .compactValue ↔ s.isDense = true)
  valueColumn : ∀ name, s.compactValue = some (.column name) ↔
    ∃ c ∈ s.columns, c.name = name ∧ c.role = .compactValue

/-! ### Names and layouts -/

namespace Bindings

variable {κ α : Type} [Ord κ]

theorem find?_foldl_insert_of_nodup [Std.LawfulEqOrd κ] [DecidableEq κ] {key : κ} {a : α}
    {pairs : List (κ × α)} (h : (pairs.map Prod.fst).Nodup) (m : Bindings κ α) :
    find? key (pairs.foldl (fun m (k, a) => insert k a m) m) = some a ↔
      (key, a) ∈ pairs ∨ key ∉ pairs.map Prod.fst ∧ find? key m = some a := by
  induction pairs generalizing m with
  | nil => simp
  | cons head rest ih =>
    obtain ⟨k, b⟩ := head
    obtain ⟨hfirst, hrest⟩ := List.nodup_cons.1 h
    rw [List.foldl_cons, ih hrest, find?_insert]
    by_cases hkey : key = k
    · subst hkey
      have hnot : (key, a) ∉ rest := fun hin => hfirst (List.mem_map.2 ⟨_, hin, rfl⟩)
      simp [hnot, hfirst, eq_comm]
    · simp [hkey]

/-- Bindings that are made of pairs with keys apart have these pairs. -/
theorem find?_ofList_eq_some_iff [Std.LawfulEqOrd κ] [DecidableEq κ] {key : κ} {a : α}
    {pairs : List (κ × α)} (h : (pairs.map Prod.fst).Nodup) :
    find? key (ofList pairs) = some a ↔ (key, a) ∈ pairs := by
  rw [ofList, find?_foldl_insert_of_nodup h]
  simp

end Bindings

/-- A key is a composite unless it has one column. -/
theorem KeyLayout.isComposite_ofTypes (types : List ColumnType) :
    (KeyLayout.ofTypes types).isComposite = decide (types.length ≠ 1) := by
  unfold KeyLayout.ofTypes
  split
  · rfl
  · rename_i hne
    have hlength : types.length ≠ 1 := by
      intro hlength
      obtain ⟨t, rfl⟩ := List.length_eq_one_iff.1 hlength
      exact hne t rfl
    exact (decide_eq_true hlength).symm

namespace CellLayout

/-- The layout of a compact table is the compound sparse one in no case, and the dense one if there
are clustering columns. -/
theorem choose?_compact {types : List ColumnType} {compact : Bool} {collections : CollectionTypes}
    {layout : CellLayout} (h : choose? types compact collections = some layout) :
    (compact = true ↔ layout.isDense = true ∨ layout.isCompound = false) ∧
      (layout.isDense = true ↔ compact = true ∧ types ≠ []) := by
  unfold choose? at h
  split at h
  · split at h
    · cases h
    · split at h <;> cases h <;> simp_all [isDense, isCompound]
  · cases h
    simp [isDense, isCompound]

/-- The collections of a layout are those that it was chosen for. -/
theorem collectionType?_of_choose? {types : List ColumnType} {compact : Bool}
    {collections : CollectionTypes} {layout : CellLayout}
    (h : choose? types compact collections = some layout) (name : String) :
    layout.collectionType? name = collections.find? name := by
  unfold choose? at h
  split at h
  · split at h
    · cases h
    · rename_i hempty
      have hnone : collections = [] := by simpa using hempty
      subst hnone
      split at h <;> cases h <;> rfl
  · cases h
    cases collections <;> rfl

end CellLayout

/-! ### Compiled tables -/

namespace TableDefinition

theorem checkStatic_ok {compact : Bool} {k : KeySplit} (h : checkStatic compact k = .ok ())
    {c : ColumnDeclaration} (hc : c ∈ k.remaining) (hstatic : c.isStatic = true) :
    compact = false ∧ k.clustering ≠ [] :=
  checkStatic_eq_ok_iff.1 h (List.any_eq_true.2 ⟨c, hc, hstatic⟩)

/-- A table has a value column if and only if it is compact, has clustering columns, and has one
column outside the key. -/
theorem resolve_column {compact : Bool} {count : Nat} {remaining : List ColumnDeclaration}
    {default : DefaultValue} (h : DefaultValue.resolve compact count remaining = .ok default)
    (name : String) :
    default.compactValue = some (.column name) ↔
      compact = true ∧ count ≠ 0 ∧ remaining.map (·.name) = [name] := by
  unfold DefaultValue.resolve at h
  split at h <;> cases h <;> simp_all

/-- A dense table has at most one column outside the key. -/
theorem resolve_single {count : Nat} {remaining : List ColumnDeclaration} {default : DefaultValue}
    (h : DefaultValue.resolve true count remaining = .ok default) (hcount : count ≠ 0)
    {c : ColumnDeclaration} (hc : c ∈ remaining) : remaining = [c] := by
  unfold DefaultValue.resolve at h
  split at h <;> cases h <;> simp_all

theorem name?_eq_some_iff {value : Option CompactValue} {name : String} :
    value.bind CompactValue.name? = some name ↔ value = some (.column name) := by
  rcases value with _ | _ | other <;> simp [CompactValue.name?]

/-- All that key columns say, but for their places, is in their declarations. -/
theorem keyRoles_map {α : Type} {f : Column → α} {g : ColumnDeclaration → α} {role : ColumnRole}
    (h : ∀ (c : ColumnDeclaration) index, f ⟨c.name, c.type, role, index⟩ = g c)
    (isComposite : Bool) (columns : List ColumnDeclaration) :
    (keyRoles role isComposite columns).map f = columns.map g :=
  List.ext_getElem (by simp [keyRoles]) fun i _ _ => by simp [keyRoles, h]

theorem keyRoles_names (role : ColumnRole) (isComposite : Bool)
    (columns : List ColumnDeclaration) :
    (keyRoles role isComposite columns).map (·.name) = columns.map (·.name) :=
  keyRoles_map (fun _ _ => rfl) isComposite columns

theorem keyRoles_types (role : ColumnRole) (isComposite : Bool)
    (columns : List ColumnDeclaration) :
    (keyRoles role isComposite columns).map (·.type) = columns.map (·.type) :=
  keyRoles_map (fun _ _ => rfl) isComposite columns

theorem keyRoles_place {role : ColumnRole} {isComposite : Bool}
    {columns : List ColumnDeclaration} {i : Nat} {c : Column}
    (h : (keyRoles role isComposite columns)[i]? = some c) :
    c.componentIndex = if isComposite then some i else none := by
  unfold keyRoles at h
  rw [List.getElem?_mapIdx] at h
  obtain ⟨declaration, -, rfl⟩ := Option.map_eq_some_iff.1 h
  rfl

theorem mem_keyRoles {role : ColumnRole} {isComposite : Bool}
    {columns : List ColumnDeclaration} {c : Column} (h : c ∈ keyRoles role isComposite columns) :
    ∃ declaration ∈ columns, declaration.type = c.type := by
  unfold keyRoles at h
  obtain ⟨i, hi, rfl⟩ := List.mem_mapIdx.1 h
  exact ⟨columns[i], List.getElem_mem hi, rfl⟩

@[simp] theorem valueRole_name (valueColumn : Option String) (slot : Option Nat)
    (c : ColumnDeclaration) : (valueRole valueColumn slot c).name = c.name := by
  unfold valueRole
  split <;> rfl

@[simp] theorem valueRole_type (valueColumn : Option String) (slot : Option Nat)
    (c : ColumnDeclaration) : (valueRole valueColumn slot c).type = c.type := by
  unfold valueRole
  split <;> rfl

theorem valueRole_compactValue (valueColumn : Option String) (slot : Option Nat)
    (c : ColumnDeclaration) :
    (valueRole valueColumn slot c).role = .compactValue ↔ valueColumn = some c.name := by
  unfold valueRole
  split
  · simp_all
  · cases hstatic : c.isStatic <;> simp_all

theorem valueRole_static {valueColumn : Option String} {slot : Option Nat}
    {c : ColumnDeclaration} (h : (valueRole valueColumn slot c).role = .static) :
    c.isStatic = true := by
  unfold valueRole at h
  split at h
  · cases h
  · by_contra hstatic
    simp [hstatic] at h

theorem valueRole_place (valueColumn : Option String) (slot : Option Nat)
    (c : ColumnDeclaration) :
    (valueRole valueColumn slot c).componentIndex =
      if (valueRole valueColumn slot c).role = .compactValue then none else slot := by
  rw [if_congr (valueRole_compactValue valueColumn slot c) rfl rfl]
  unfold valueRole
  split <;> rfl

variable {d : TableDefinition} {k : KeySplit} {layout : CellLayout} {default : DefaultValue}

theorem table_names (d : TableDefinition) (k : KeySplit) (layout : CellLayout)
    (default : DefaultValue) :
    (d.table k layout default).columns.map (·.name) =
      (k.partitionKey ++ k.clustering ++ k.remaining).map (·.name) := by
  simp [table, keyRoles_names, Function.comp_def]

/-- A column of a compiled table is a key column that was declared, or it is outside the key. -/
theorem mem_table_columns {c : Column} (h : c ∈ (d.table k layout default).columns) :
    c.role.isKey = true ∧
        (∃ declaration ∈ k.partitionKey ++ k.clustering, declaration.type = c.type) ∨
      c ∈ valueParts k layout default := by
  rcases List.mem_append.1 h with h | h
  · refine .inl ?_
    rcases List.mem_append.1 h with h | h
    · obtain ⟨declaration, hmem, htype⟩ := mem_keyRoles h
      exact ⟨by rw [keyRoles_role h]; rfl, declaration, List.mem_append_left _ hmem, htype⟩
    · obtain ⟨declaration, hmem, htype⟩ := mem_keyRoles h
      exact ⟨by rw [keyRoles_role h]; rfl, declaration, List.mem_append_right _ hmem, htype⟩
  · exact .inr h

theorem mem_valueParts_of_role {c : Column} (h : c ∈ (d.table k layout default).columns)
    (hrole : c.role.isKey = false) : c ∈ valueParts k layout default :=
  (mem_table_columns h).resolve_left fun hkey => by simp [hrole] at hkey

/-- The collections that a compiled table records are its multi-cell columns. -/
theorem Compiled.collectionType? (h : d.Compiled k layout default) {name : String}
    {type : ColumnType} :
    layout.collectionType? name = some type ↔
      ∃ c ∈ (d.table k layout default).columns,
        c.name = name ∧ c.type.isMultiCell = true ∧ c.type = type := by
  obtain ⟨-, hnames, hkeys, -⟩ := keySplit_apart h.keySplit
  have hapart : ((k.multiCell.map fun c => (c.name, c.type)).map Prod.fst).Nodup := by
    rw [List.map_map]
    refine List.Nodup.sublist (List.Sublist.map _ ?_) hnames
    exact List.filter_sublist.trans (List.sublist_append_right _ _)
  rw [CellLayout.collectionType?_of_choose? h.layout, Bindings.find?_ofList_eq_some_iff hapart]
  constructor
  · intro hmem
    obtain ⟨declaration, hdeclaration, heq⟩ := List.mem_map.1 hmem
    cases heq
    obtain ⟨hremaining, hmulti⟩ := List.mem_filter.1 hdeclaration
    refine ⟨_, List.mem_append_right _ (List.mem_map_of_mem hremaining), ?_⟩
    rw [valueRole_name, valueRole_type]
    exact ⟨rfl, hmulti, rfl⟩
  · rintro ⟨c, hc, rfl, hmulti, rfl⟩
    rcases mem_table_columns hc with ⟨-, declaration, hmem, htype⟩ | hc
    · rw [← htype, (hkeys declaration hmem).multiCell] at hmulti
      cases hmulti
    · obtain ⟨declaration, hremaining, rfl⟩ := List.mem_map.1 hc
      rw [valueRole_type] at hmulti
      refine List.mem_map.2 ⟨declaration, List.mem_filter.2 ⟨hremaining, hmulti⟩, ?_⟩
      rw [valueRole_name, valueRole_type]

/-- A value column is the one column outside the key of a dense table. -/
theorem Compiled.compactValue (h : d.Compiled k layout default) {c : Column}
    (hc : c ∈ valueParts k layout default) :
    c.role = .compactValue ↔ layout.isDense = true := by
  obtain ⟨declaration, hmem, rfl⟩ := List.mem_map.1 hc
  have hrows : k.clusteringTypes ≠ [] ↔ k.clustering.length ≠ 0 := by
    simp [KeySplit.clusteringTypes]
  rw [valueRole_compactValue, name?_eq_some_iff, resolve_column h.default,
    (CellLayout.choose?_compact h.layout).2, hrows]
  constructor
  · exact fun hall => ⟨hall.1, hall.2.1⟩
  · rintro ⟨hcompact, hcount⟩
    have hdefault := h.default
    rw [hcompact] at hdefault
    refine ⟨hcompact, hcount, ?_⟩
    rw [resolve_single hdefault hcount hmem]
    rfl

theorem Compiled.valueColumn (h : d.Compiled k layout default) (name : String) :
    default.compactValue = some (.column name) ↔
      ∃ c ∈ valueParts k layout default, c.name = name ∧ c.role = .compactValue := by
  constructor
  · intro hvalue
    obtain ⟨-, -, hremaining⟩ := (resolve_column h.default name).1 hvalue
    obtain ⟨declaration, hmem, rfl⟩ := List.mem_map.1 (hremaining ▸ List.mem_singleton_self name)
    refine ⟨_, List.mem_map_of_mem hmem, valueRole_name _ _ _, ?_⟩
    exact (valueRole_compactValue _ _ _).2 (name?_eq_some_iff.2 hvalue)
  · rintro ⟨c, hc, rfl, hrole⟩
    obtain ⟨declaration, -, rfl⟩ := List.mem_map.1 hc
    rw [valueRole_name]
    exact name?_eq_some_iff.1 ((valueRole_compactValue _ _ _).1 hrole)

theorem Compiled.static_rows (h : d.Compiled k layout default) {c : Column}
    (hc : c ∈ valueParts k layout default) (hrole : c.role = .static) :
    d.compactStorage = false ∧ layout.isDense = false ∧ k.clustering ≠ [] := by
  obtain ⟨declaration, hmem, rfl⟩ := List.mem_map.1 hc
  obtain ⟨hloose, hrows⟩ := checkStatic_ok h.static hmem (valueRole_static hrole)
  refine ⟨hloose, ?_, hrows⟩
  rw [← Bool.not_eq_true, (CellLayout.choose?_compact h.layout).2, hloose]
  simp

/-- **A compiled table is consistent.** -/
theorem consistent_of_compile {s : TableSchema} (h : d.compile = .ok s) : s.Consistent := by
  obtain ⟨k, layout, default, hcompiled, rfl⟩ := compile_ok h
  obtain ⟨hpartition, hclustering, hothers⟩ := table_columns d k layout default
  obtain ⟨hne, hnames, hkeys, hdeclared⟩ := keySplit_apart hcompiled.keySplit
  have hlength : (d.table k layout default).clusteringColumns.length = k.clustering.length := by
    rw [hclustering]
    simp [keyRoles]
  exact {
    names := by rwa [table_names]
    validNames := by
      intro c hc
      have hin := List.mem_map_of_mem (f := (·.name)) hc
      rw [table_names] at hin
      obtain ⟨declaration, hmem, hname⟩ := List.mem_map.1 hin
      obtain ⟨original, horiginal, hsame⟩ := hdeclared declaration hmem
      rw [← hname, ← hsame]
      exact ((checkColumnNames_eq_ok_iff.1 hcompiled.columnNames).1 original horiginal).1
    order := by
      rw [hpartition, hclustering, hothers]
      rfl
    partitionKey := by
      rw [hpartition]
      simpa [keyRoles] using hne
    keyLayout := by
      rw [hpartition, keyRoles_types]
      rfl
    clustering := by
      rw [hclustering, keyRoles_types]
      exact CellLayout.clusteringTypes_of_choose? hcompiled.layout
    dense := rfl
    compact := (CellLayout.choose?_compact hcompiled.layout).1
    partitionIndex := by
      intro i c hi
      rw [hpartition] at hi
      exact keyRoles_place hi
    clusteringIndex := by
      intro i c hi
      rw [hclustering] at hi
      exact keyRoles_place hi
    valueIndex := by
      intro c hc hrole
      have hvalue := mem_valueParts_of_role hc (by rcases hrole with h | h <;> rw [h] <;> rfl)
      obtain ⟨declaration, -, rfl⟩ := List.mem_map.1 hvalue
      rw [valueRole_place, if_neg (by rcases hrole with h | h <;> simp [h]), hlength]
      rfl
    compactIndex := by
      intro c hc hrole
      have hvalue := mem_valueParts_of_role hc (by rw [hrole]; rfl)
      obtain ⟨declaration, -, rfl⟩ := List.mem_map.1 hvalue
      rw [valueRole_place, if_pos hrole]
    keyTypes := by
      intro c hc hrole
      rcases mem_table_columns hc with ⟨-, declaration, hmem, htype⟩ | hvalue
      · rw [← htype]
        exact ⟨(hkeys declaration hmem).multiCell, (hkeys declaration hmem).counter⟩
      · rw [isKey_of_mem_valueParts hvalue] at hrole
        cases hrole
    collections := fun c hc hmulti =>
      hcompiled.collectionType?.2 ⟨c, hc, rfl, hmulti, rfl⟩
    static := by
      intro c hc hrole
      have hvalue := mem_valueParts_of_role hc (by rw [hrole]; rfl)
      obtain ⟨hloose, hsparse, hrows⟩ := hcompiled.static_rows hvalue hrole
      rw [hclustering]
      exact ⟨hloose, hsparse, by simpa [keyRoles] using hrows⟩
    compactValue := fun c hc hrole => hcompiled.compactValue (mem_valueParts_of_role hc hrole)
    valueColumn := by
      refine fun name => (hcompiled.valueColumn name).trans ?_
      constructor
      · rintro ⟨c, hc, hcolumn⟩
        exact ⟨c, List.mem_append_right _ hc, hcolumn⟩
      · rintro ⟨c, hc, hcolumn⟩
        exact ⟨c, mem_valueParts_of_role hc (by rw [hcolumn.2]; rfl), hcolumn⟩ }

end TableDefinition

/-! ### Changes -/

namespace TableSchema

variable {s s' : TableSchema}

theorem mem_of_column? {name : String} {c : Column} (h : s.column? name = some c) :
    c ∈ s.columns ∧ c.name = name :=
  ⟨List.mem_of_find?_eq_some h, by simpa using List.find?_some h⟩

theorem mem_partitionKeyColumns {c : Column} :
    c ∈ s.partitionKeyColumns ↔ c ∈ s.columns ∧ c.role = .partitionKey := by
  simp [partitionKeyColumns, columnsOf]

theorem mem_clusteringColumns {c : Column} :
    c ∈ s.clusteringColumns ↔ c ∈ s.columns ∧ c.role = .clusteringKey := by
  simp [clusteringColumns, columnsOf]

theorem mem_otherColumns {c : Column} :
    c ∈ s.otherColumns ↔ c ∈ s.columns ∧ c.role.isKey = false := by
  simp [otherColumns]

namespace Consistent

open Column

/-- A column is the only one of its name. -/
theorem eq_of_name (h : s.Consistent) {c c' : Column} (hc : c ∈ s.columns) (hc' : c' ∈ s.columns)
    (hname : c.name = c'.name) : c = c' :=
  List.inj_on_of_nodup_map h.names hc hc' hname

theorem columnSlot (h : s.Consistent) :
    s.columnSlot =
      if s.cellLayout.isCompound then some s.clusteringColumns.length else none := by
  unfold TableSchema.columnSlot
  rw [h.clustering, List.length_map]

/-- A table that is not compact has no value column of its own. -/
theorem role_of_loose (h : s.Consistent) (hloose : s.isCompact = false) {c : Column}
    (hc : c ∈ s.columns) : c.role ≠ .compactValue := by
  intro hrole
  have hdense := (h.compactValue c hc (by rw [hrole]; rfl)).1 hrole
  rw [h.dense] at hdense
  rw [h.compact.2 (.inl hdense)] at hloose
  cases hloose

/-- In a table that is not dense the columns outside the key are the regular and static ones. -/
theorem valueColumns_of_sparse (h : s.Consistent) (hsparse : s.isDense = false) :
    s.valueColumns = s.otherColumns := by
  refine List.filter_congr fun c hc => ?_
  have hvalue := h.compactValue c hc
  rw [hsparse] at hvalue
  revert hvalue
  cases c.role <;> simp [ColumnRole.isKey]

/-- **Another column.** -/
theorem addColumn (h : s.Consistent) {c : ColumnDeclaration} (hadd : s.addColumn c = .ok s') :
    s'.Consistent := by
  obtain ⟨layout, hadded, rfl⟩ := addColumn_ok hadd
  obtain ⟨htypes, hdense, hcompound, hcollections⟩ := layoutWith_ok hadded.layout
  obtain ⟨hkey, hvalue⟩ := s.newColumn_role c
  have hfresh : ∀ other ∈ s.columns, other.name ≠ c.name := by
    simpa [column?] using hadded.fresh
  have hcolumns : (s.withColumn c layout).columns =
      s.partitionKeyColumns ++ s.clusteringColumns ++ (s.otherColumns ++ [s.newColumn c]) := by
    rw [← List.append_assoc, ← h.order, withColumn_columns]
  obtain ⟨hp, hc, ho⟩ := columns_of_parts hcolumns
    (fun _ hc => (mem_partitionKeyColumns.1 hc).2) (fun _ hc => (mem_clusteringColumns.1 hc).2)
    (List.forall_mem_append.2 ⟨fun _ hc => (mem_otherColumns.1 hc).2, by simpa using hkey⟩)
  exact {
    names := by
      rw [withColumn_columns, List.map_append]
      refine List.nodup_append.2 ⟨h.names, List.nodup_singleton _, ?_⟩
      rintro _ hold _ hnew rfl
      obtain ⟨other, hother, hname⟩ := List.mem_map.1 hold
      exact hfresh other hother (hname.trans (List.mem_singleton.1 hnew))
    validNames := List.forall_mem_append.2
      ⟨h.validNames, List.forall_mem_singleton.2 hadded.name⟩
    order := by
      rw [hp, hc, ho]
      exact hcolumns
    partitionKey := by
      rw [hp]
      exact h.partitionKey
    keyLayout := by
      rw [hp]
      exact h.keyLayout
    clustering := by
      rw [hc]
      exact htypes.trans h.clustering
    dense := h.dense.trans hdense.symm
    compact := by
      rw [withColumn_cellLayout, hdense, hcompound]
      exact h.compact
    partitionIndex := by
      rw [hp]
      exact h.partitionIndex
    clusteringIndex := by
      rw [hc, withColumn_cellLayout, hcompound]
      exact h.clusteringIndex
    valueIndex := by
      rw [hc, withColumn_cellLayout, hcompound]
      exact List.forall_mem_append.2
        ⟨h.valueIndex, List.forall_mem_singleton.2 fun _ => h.columnSlot⟩
    compactIndex := List.forall_mem_append.2
      ⟨h.compactIndex, List.forall_mem_singleton.2 fun hrole => absurd hrole hvalue⟩
    keyTypes := List.forall_mem_append.2
      ⟨h.keyTypes, List.forall_mem_singleton.2 fun hrole => by simp [hkey] at hrole⟩
    collections := by
      rw [withColumn_cellLayout]
      refine List.forall_mem_append.2 ⟨fun other hother hmulti => ?_, ?_⟩
      · rw [hcollections, if_neg fun hand => hfresh other hother hand.1]
        exact h.collections other hother hmulti
      · refine List.forall_mem_singleton.2 fun hmulti => ?_
        rw [hcollections, newColumn_name, if_pos ⟨rfl, hmulti⟩, newColumn_type]
    static := by
      rw [hc]
      refine List.forall_mem_append.2 ⟨h.static, List.forall_mem_singleton.2 fun hrole => ?_⟩
      obtain ⟨hloose, hrows⟩ := hadded.static (newColumn_static hrole)
      rw [h.clustering] at hrows
      exact ⟨hloose, hadded.sparse, by simpa using hrows⟩
    compactValue := by
      refine List.forall_mem_append.2 ⟨h.compactValue, List.forall_mem_singleton.2 fun _ => ?_⟩
      simp [hvalue, hadded.sparse]
    valueColumn := by
      intro name
      simp [h.valueColumn name, or_and_right, exists_or, hvalue] }

/-- **One column less.** -/
theorem dropColumn (h : s.Consistent) {name : String} (hdrop : s.dropColumn name = .ok s') :
    s'.Consistent := by
  obtain ⟨c, hfound, hkey, hloose, rfl⟩ := dropColumn_ok hdrop
  obtain ⟨hmem, rfl⟩ := mem_of_column? hfound
  have hkept : ∀ other ∈ s.columns, other.role.isKey = true → other.name ≠ c.name := by
    intro other hother hrole hname
    rw [h.eq_of_name hother hmem hname, hkey] at hrole
    cases hrole
  have hsub : ∀ {other}, other ∈ (s.without c.name).columns → other ∈ s.columns :=
    List.mem_of_mem_filter
  have hp' : s.partitionKeyColumns.filter (·.name ≠ c.name) = s.partitionKeyColumns := by
    refine List.filter_eq_self.2 fun other hother => ?_
    obtain ⟨hother, hrole⟩ := mem_partitionKeyColumns.1 hother
    simpa using hkept other hother (by rw [hrole]; rfl)
  have hc' : s.clusteringColumns.filter (·.name ≠ c.name) = s.clusteringColumns := by
    refine List.filter_eq_self.2 fun other hother => ?_
    obtain ⟨hother, hrole⟩ := mem_clusteringColumns.1 hother
    simpa using hkept other hother (by rw [hrole]; rfl)
  have hcolumns : (s.without c.name).columns = s.partitionKeyColumns ++ s.clusteringColumns ++
      s.otherColumns.filter (·.name ≠ c.name) := by
    show s.columns.filter (·.name ≠ c.name) = _
    conv_lhs => rw [h.order]
    rw [List.filter_append, List.filter_append, hp', hc']
  obtain ⟨hp, hc, ho⟩ := columns_of_parts hcolumns
    (fun _ hc => (mem_partitionKeyColumns.1 hc).2) (fun _ hc => (mem_clusteringColumns.1 hc).2)
    fun _ hc => (mem_otherColumns.1 (List.mem_of_mem_filter hc)).2
  exact {
    names := h.names.sublist (List.filter_sublist.map _)
    validNames := fun other hother => h.validNames other (hsub hother)
    order := by
      rw [hp, hc, ho]
      exact hcolumns
    partitionKey := by
      rw [hp]
      exact h.partitionKey
    keyLayout := by
      rw [hp]
      exact h.keyLayout
    clustering := by
      rw [hc]
      exact h.clustering
    dense := h.dense
    compact := h.compact
    partitionIndex := by
      rw [hp]
      exact h.partitionIndex
    clusteringIndex := by
      rw [hc]
      exact h.clusteringIndex
    valueIndex := by
      rw [hc]
      exact fun other hother => h.valueIndex other (hsub hother)
    compactIndex := fun other hother => h.compactIndex other (hsub hother)
    keyTypes := fun other hother => h.keyTypes other (hsub hother)
    collections := fun other hother => h.collections other (hsub hother)
    static := by
      rw [hc]
      exact fun other hother => h.static other (hsub hother)
    compactValue := fun other hother => h.compactValue other (hsub hother)
    valueColumn := by
      intro name
      refine (h.valueColumn name).trans ⟨fun ⟨other, hother, hname, hrole⟩ => ?_,
        fun ⟨other, hother, hvalue⟩ => ⟨other, hsub hother, hvalue⟩⟩
      exact absurd hrole (h.role_of_loose hloose hother) }

/-- The types that cell names are made up of follow those of the clustering columns. -/
theorem retyped_clusteringTypes (h : s.Consistent) {c : Column} (hc : c ∈ s.columns)
    (type : ColumnType) :
    (s.retyped c type).cellLayout.clusteringTypes =
      (s.clusteringColumns.map (Column.retype c.name (storedType c type))).map (·.type) := by
  by_cases hrole : c.role = .clusteringKey
  · have hmem := mem_clusteringColumns.2 ⟨hc, hrole⟩
    cases hposition : s.clusteringColumns.findIdx? (·.name = c.name) with
    | none => simpa using List.findIdx?_eq_none_iff.1 hposition c hmem
    | some position =>
      have hnames : (s.clusteringColumns.map (·.name)).Nodup :=
        h.names.sublist (List.filter_sublist.map _)
      rw [Column.map_retype_types hnames hposition, ← h.clustering,
        ← CellLayout.withClusteringType_clusteringTypes]
      unfold retyped storedType
      simp [hrole, hposition]
  · have hsame : s.clusteringColumns.map (Column.retype c.name (storedType c type)) =
        s.clusteringColumns := by
      refine Column.map_retype_of_notMem (fun hin => ?_) _
      obtain ⟨other, hother, hname⟩ := List.mem_map.1 hin
      obtain ⟨hother, hkey⟩ := mem_clusteringColumns.1 hother
      exact hrole (h.eq_of_name hother hc hname ▸ hkey)
    rw [hsame, ← h.clustering]
    unfold retyped
    cases hc : c.role <;> simp_all

theorem retyped_keyLayout (h : s.Consistent) {c : Column} (hc : c ∈ s.columns)
    (type : ColumnType) :
    (s.retyped c type).keyLayout = KeyLayout.ofTypes
      ((s.partitionKeyColumns.map (Column.retype c.name (storedType c type))).map (·.type)) := by
  by_cases hrole : c.role = .partitionKey
  · unfold retyped storedType
    simp only [hrole, List.map_map, reduceCtorEq, false_and, if_false]
    refine congrArg KeyLayout.ofTypes (List.map_congr_left fun other _ => ?_)
    exact (Column.retype_type _ _ _).symm
  · have hsame : s.partitionKeyColumns.map (Column.retype c.name (storedType c type)) =
        s.partitionKeyColumns := by
      refine Column.map_retype_of_notMem (fun hin => ?_) _
      obtain ⟨other, hother, hname⟩ := List.mem_map.1 hin
      obtain ⟨hother, hkey⟩ := mem_partitionKeyColumns.1 hother
      exact hrole (h.eq_of_name hother hc hname ▸ hkey)
    rw [hsame, ← h.keyLayout]
    unfold retyped
    cases hc : c.role <;> simp_all

/-- Multi-cell columns keep their types. -/
theorem retyped_multiCell (h : s.Consistent) {c other : Column} {type : ColumnType}
    (hretyped : s.Retyped c type) (hc : c ∈ s.columns) (hother : other ∈ s.columns)
    (hmulti : other.type.isMultiCell = true) :
    other.retype c.name (storedType c type) = other := by
  refine retype_of_ne (fun hname => ?_) _
  rw [h.eq_of_name hother hc hname, hretyped.wasSingle] at hmulti
  cases hmulti

/-- No column becomes a collection or a counter, or ceases to be one. -/
theorem retyped_kind (h : s.Consistent) {c other : Column} {type : ColumnType}
    (hretyped : s.Retyped c type) (hc : c ∈ s.columns) (hother : other ∈ s.columns) :
    (other.retype c.name (storedType c type)).type.isMultiCell = other.type.isMultiCell ∧
      (other.retype c.name (storedType c type)).type.isCounter = other.type.isCounter := by
  rw [retype_type]
  split
  · rename_i hname
    rw [h.eq_of_name hother hc hname, isMultiCell_storedType, isCounter_storedType,
      hretyped.wasSingle, hretyped.isSingle, hretyped.counter]
    exact ⟨rfl, rfl⟩
  · exact ⟨rfl, rfl⟩

/-- **Another type.** -/
theorem retypeColumn (h : s.Consistent) {name : String} {type : ColumnType}
    (hretype : s.retypeColumn name type = .ok s') : s'.Consistent := by
  obtain ⟨c, hfound, hretyped, rfl⟩ := retypeColumn_ok hretype
  obtain ⟨hmem, rfl⟩ := mem_of_column? hfound
  obtain ⟨hdense, hcompound, hcollections⟩ := retyped_cellLayout s c type
  have hcolumns := retyped_columns h.names c type
  have hparts := congrArg (List.map (Column.retype c.name (storedType c type))) h.order
  rw [← hcolumns, List.map_append, List.map_append] at hparts
  obtain ⟨hp, hc, ho⟩ := columns_of_parts hparts
    (List.forall_mem_map.2 fun _ hc => (retype_role _ _ _).trans (mem_partitionKeyColumns.1 hc).2)
    (List.forall_mem_map.2 fun _ hc => (retype_role _ _ _).trans (mem_clusteringColumns.1 hc).2)
    (List.forall_mem_map.2 fun _ hc =>
      (congrArg ColumnRole.isKey (retype_role _ _ _)).trans (mem_otherColumns.1 hc).2)
  have hlayout := h.retyped_keyLayout hmem type
  have hcomposite : (s.retyped c type).keyLayout.isComposite = s.keyLayout.isComposite := by
    rw [hlayout, h.keyLayout, KeyLayout.isComposite_ofTypes, KeyLayout.isComposite_ofTypes]
    simp only [List.length_map]
  exact {
    names := by
      rw [hcolumns, List.map_map]
      simpa only [Function.comp_def, retype_name] using h.names
    validNames := by
      rw [hcolumns]
      exact List.forall_mem_map.2 fun other hother => by
        rw [retype_name]
        exact h.validNames other hother
    order := by
      rw [hp, hc, ho, hparts]
    partitionKey := by
      rw [hp]
      simpa using h.partitionKey
    keyLayout := by
      rw [hp, hlayout]
    clustering := by
      rw [hc, h.retyped_clusteringTypes hmem type]
    dense := by
      rw [retyped_isDense, hdense, h.dense]
    compact := by
      rw [retyped_isCompact, hdense, hcompound]
      exact h.compact
    partitionIndex := by
      rw [hp, hcomposite]
      intro i other hi
      rw [List.getElem?_map] at hi
      obtain ⟨original, horiginal, rfl⟩ := Option.map_eq_some_iff.1 hi
      rw [retype_componentIndex]
      exact h.partitionIndex i original horiginal
    clusteringIndex := by
      rw [hc, hcompound]
      intro i other hi
      rw [List.getElem?_map] at hi
      obtain ⟨original, horiginal, rfl⟩ := Option.map_eq_some_iff.1 hi
      rw [retype_componentIndex]
      exact h.clusteringIndex i original horiginal
    valueIndex := by
      rw [hcolumns, hc, hcompound, List.length_map]
      refine List.forall_mem_map.2 fun other hother => ?_
      rw [retype_role, retype_componentIndex]
      exact h.valueIndex other hother
    compactIndex := by
      rw [hcolumns]
      refine List.forall_mem_map.2 fun other hother => ?_
      rw [retype_role, retype_componentIndex]
      exact h.compactIndex other hother
    keyTypes := by
      rw [hcolumns]
      refine List.forall_mem_map.2 fun other hother => ?_
      obtain ⟨hmulti, hcounter⟩ := h.retyped_kind hretyped hmem hother
      rw [retype_role, hmulti, hcounter]
      exact h.keyTypes other hother
    collections := by
      rw [hcolumns]
      refine List.forall_mem_map.2 fun other hother hmulti => ?_
      rw [(h.retyped_kind hretyped hmem hother).1] at hmulti
      rw [h.retyped_multiCell hretyped hmem hother hmulti]
      unfold CellLayout.collectionType?
      rw [hcollections]
      exact h.collections other hother hmulti
    static := by
      rw [hcolumns, hc, retyped_isCompact, retyped_isDense]
      refine List.forall_mem_map.2 fun other hother => ?_
      rw [retype_role]
      simpa using h.static other hother
    compactValue := by
      rw [hcolumns, retyped_isDense]
      refine List.forall_mem_map.2 fun other hother => ?_
      rw [retype_role]
      exact h.compactValue other hother
    valueColumn := by
      intro name
      rw [hcolumns, retyped_compactValue, h.valueColumn name]
      simp }

/-- **Other properties.** -/
theorem setProperties (h : s.Consistent) {p : TableProperties}
    (hset : s.setProperties p = .ok s') : s'.Consistent := by
  obtain ⟨-, rfl⟩ := setProperties_ok hset
  exact { h with }

/-- Every change keeps a table consistent. -/
theorem change (h : s.Consistent) {change : SchemaChange} (hchange : s.change change = .ok s') :
    s'.Consistent := by
  cases change with
  | addColumn c => exact h.addColumn hchange
  | dropColumn name => exact h.dropColumn hchange
  | retypeColumn name type => exact h.retypeColumn hchange
  | setProperties p => exact h.setProperties hchange

/-- So does every sequence of changes. -/
theorem changeAll (h : s.Consistent) {changes : List SchemaChange}
    (hchanges : s.changeAll changes = .ok s') : s'.Consistent :=
  changeAll_induction (fun _ _ _ _ hs hchange => hs.change hchange) h hchanges

/-- Of consistent tables, changes keep a relation to the first one that each of them keeps. -/
theorem changeAll_related {R : TableSchema → TableSchema → Prop} (h : s.Consistent)
    (hrefl : R s s) (htrans : ∀ {a b c}, R a b → R b c → R a c) {changes : List SchemaChange}
    (hchange : ∀ change ∈ changes, ∀ a b, a.Consistent → a.change change = .ok b → R a b)
    (hchanges : s.changeAll changes = .ok s') : R s s' := by
  have hboth : s'.Consistent ∧ R s s' := by
    refine changeAll_induction (P := fun next => next.Consistent ∧ R s next) ?_ ⟨h, hrefl⟩ hchanges
    rintro change hmem next next' ⟨hnext, hrelated⟩ hstep
    exact ⟨hnext.change hstep, htrans hrelated (hchange change hmem next next' hnext hstep)⟩
  exact hboth.2

/-- What each change keeps of a column that it does not drop, all changes keep of a column that none
of them drops. -/
theorem changeAll_keeps_column {R : TableSchema → TableSchema → Prop} (h : s.Consistent)
    (hrefl : R s s) (htrans : ∀ {a b c}, R a b → R b c → R a c) {name : String}
    (hchange : ∀ change a b, a.Consistent → a.change change = .ok b →
      change ≠ .dropColumn name → R a b) {changes : List SchemaChange}
    (hchanges : s.changeAll changes = .ok s') (hnot : .dropColumn name ∉ changes) : R s s' := by
  refine h.changeAll_related hrefl htrans ?_ hchanges
  intro change hmem a b ha hnext
  exact hchange change a b ha hnext fun hsame => hnot (hsame ▸ hmem)

end Consistent

end TableSchema

/-! ### Histories -/

namespace TableDefinition

/-- **A table is consistent whatever changes it went through.** -/
theorem Evolved.consistent {d : TableDefinition} {past : List TableSchema} {s : TableSchema}
    (h : d.Evolved past s) : s.Consistent := by
  induction h with
  | compiled hcompile => exact consistent_of_compile hcompile
  | changed _ hchange ih => exact ih.change hchange

/-- **A table that was compiled and then changed any number of times is consistent.** -/
theorem consistent_after_changes {d : TableDefinition} {s₀ s : TableSchema}
    {changes : List SchemaChange} (hcompile : d.compile = .ok s₀)
    (hchanges : s₀.changeAll changes = .ok s) : s.Consistent := by
  obtain ⟨past, h⟩ := (Evolved.compiled hcompile).changeAll hchanges
  exact h.consistent

/-- Berths at the piers of harbours: who lay there, the latest first. -/
def berthsDefinition : TableDefinition where
  keyspace := "harbours"
  name := "berths"
  columns := [⟨"harbour", .scalar .ascii, false⟩, ⟨"pier", .scalar .ascii, false⟩,
    ⟨"day", .scalar .int, false⟩, ⟨"boat", .text, false⟩]
  partitionKeys := [["harbour", "pier"]]
  clusteringColumns := ["day"]
  clusteringOrder := [⟨"day", .desc⟩]

/-- A collection and a static column come, another goes, and the types of the key widen. -/
def berthsChanges : List SchemaChange :=
  [.addColumn ⟨"flags", .set .text false, false⟩, .addColumn ⟨"warden", .text, true⟩,
    .retypeColumn "pier" .text, .retypeColumn "day" (.scalar .varint), .dropColumn "boat",
    .setProperties { defaultTimeToLive := 60 }]

theorem consistent_after_changes_berths :
    ∃ s₀ s, berthsDefinition.compile = .ok s₀ ∧ s₀.changeAll berthsChanges = .ok s ∧
      s.clusteringColumns = [⟨"day", .descending (.scalar .varint), .clusteringKey, some 0⟩] ∧
      s.Consistent := by
  have hcompile : berthsDefinition.compile = .ok _ := rfl
  refine ⟨_, _, hcompile, rfl, rfl, ?_⟩
  exact consistent_after_changes hcompile (show TableSchema.changeAll _ berthsChanges = _ from rfl)

end TableDefinition

end WideColumn
