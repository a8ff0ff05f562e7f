import WideColumn.Proofs.Effects
import WideColumn.Schema.Compilation

/-!
# Tables as they are compiled

What a compiled table says of its key columns agrees with its layout.

* `columns_of_parts` — the parts of a table are found by the roles of its columns;
* `checkColumnNames_eq_ok_iff`, `checkStatic_eq_ok_iff`, `choose?_exists_iff`, … — what each check
  of a definition accepts;
* `Compiled` and `compile_eq_ok_iff` — what a definition is checked for, and **the parts of the
  table** it is compiled to;
* `KeysFit` — the clustering columns are those of the cell layout, and each partition-key column
  knows its place in the key;
* `keysFit_of_compile` — **every compiled table is of this kind**.
-/

namespace WideColumn

open Effects

namespace TableSchema

/-- The key columns agree with the layout of the table. -/
structure KeysFit (s : TableSchema) : Prop where
  clustering : s.clusteringColumns.length = s.cellLayout.clusteringTypes.length
  partitionKey : ∀ c ∈ s.columns, c.role = .partitionKey → ∀ i, c.componentIndex = some i →
    ∃ ts, s.keyLayout = .composite ts ∧ i < ts.length

/-- The columns outside the key. -/
def otherColumns (s : TableSchema) : List Column := s.columns.filter fun c => !c.role.isKey

/-- Columns that stand in the order of their parts are told apart by their roles. -/
theorem columns_of_parts {s : TableSchema} {partitionKey clustering others : List Column}
    (h : s.columns = partitionKey ++ clustering ++ others)
    (hpartition : ∀ c ∈ partitionKey, c.role = .partitionKey)
    (hclustering : ∀ c ∈ clustering, c.role = .clusteringKey)
    (hothers : ∀ c ∈ others, c.role.isKey = false) :
    s.partitionKeyColumns = partitionKey ∧ s.clusteringColumns = clustering ∧
      s.otherColumns = others := by
  have hno : ∀ c ∈ others, c.role ≠ .partitionKey ∧ c.role ≠ .clusteringKey := by
    intro c hc
    have hkey := hothers c hc
    constructor <;> intro hrole <;> rw [hrole] at hkey <;> cases hkey
  unfold partitionKeyColumns clusteringColumns columnsOf otherColumns
  simp only [h, List.filter_append]
  refine ⟨?_, ?_, ?_⟩
  · rw [List.filter_eq_self.2 fun c hc => decide_eq_true (hpartition c hc),
      List.filter_eq_nil_iff.2 fun c hc => by simp [hclustering c hc],
      List.filter_eq_nil_iff.2 fun c hc => by simp [(hno c hc).1], List.append_nil,
      List.append_nil]
  · rw [List.filter_eq_nil_iff.2 fun c hc => by simp [hpartition c hc],
      List.filter_eq_self.2 fun c hc => decide_eq_true (hclustering c hc),
      List.filter_eq_nil_iff.2 fun c hc => by simp [(hno c hc).2], List.append_nil,
      List.nil_append]
  · rw [List.filter_eq_nil_iff.2 fun c hc => by simp [hpartition c hc, ColumnRole.isKey],
      List.filter_eq_nil_iff.2 fun c hc => by simp [hclustering c hc, ColumnRole.isKey],
      List.filter_eq_self.2 fun c hc => by simp [hothers c hc], List.nil_append, List.nil_append]

end TableSchema

/-! ### Layouts -/

theorem CellLayout.clusteringTypes_of_choose? {types : List ColumnType} {compact : Bool}
    {collections : CollectionTypes} {layout : CellLayout}
    (h : CellLayout.choose? types compact collections = some layout) :
    layout.clusteringTypes = types := by
  unfold CellLayout.choose? at h
  split at h
  · split at h
    · cases h
    · split at h <;> cases h <;> rfl
  · cases h
    rfl

/-- The key layout is composite if the key has several columns. -/
theorem KeyLayout.ofTypes_of_isComposite {types : List ColumnType}
    (h : (KeyLayout.ofTypes types).isComposite = true) :
    KeyLayout.ofTypes types = .composite types := by
  unfold KeyLayout.ofTypes at h ⊢
  split
  · cases h
  · rfl

/-- There is a layout for every table but a compact one with collections. -/
theorem CellLayout.choose?_exists_iff {types : List ColumnType} {compact : Bool}
    {collections : CollectionTypes} :
    (∃ layout, choose? types compact collections = some layout) ↔
      (compact = true → collections = []) := by
  unfold choose?
  split
  · cases collections with
    | nil =>
      simp only [List.isEmpty_nil, Bool.not_true, Bool.false_eq_true, if_false, implies_true,
        iff_true]
      split <;> exact ⟨_, rfl⟩
    | cons => simp
  · simp

/-! ### Checks -/

theorem checkCounters_eq_ok_iff {types : List ColumnType} :
    checkCounters types = .ok () ↔
      (∀ t ∈ types, t.isCounter = true) ∨ ∀ t ∈ types, t.isCounter = false := by
  unfold checkCounters
  rw [ite_error_eq_ok]
  cases hcounter : types.any (·.isCounter) with
  | false =>
    have hnone : ∀ t ∈ types, t.isCounter = false := by simpa using hcounter
    exact ⟨fun _ => .inr hnone, fun _ => ⟨Bool.false_ne_true, rfl⟩⟩
  | true =>
    obtain ⟨t, ht, hcounter⟩ := List.any_eq_true.1 hcounter
    have hmixed : ¬∀ t ∈ types, t.isCounter = false := fun h => by simp [h t ht] at hcounter
    simp [hmixed]

/-- A compact table with clustering columns has one value at most in each row. -/
theorem DefaultValue.resolve_exists_iff {compact : Bool} {count : Nat}
    {remaining : List ColumnDeclaration} :
    (∃ default, resolve compact count remaining = .ok default) ↔
      (compact = true → count ≠ 0 → remaining.length ≤ 1) := by
  cases compact with
  | false => simp [resolve]
  | true =>
    rcases count with _ | _ | count <;> rcases remaining with _ | ⟨c, _ | ⟨c', rest⟩⟩ <;>
      simp [resolve]

namespace TableDefinition

theorem checkColumnNames_eq_ok_iff {seen : List String} {columns : List ColumnDeclaration} :
    checkColumnNames seen columns = .ok () ↔
      (∀ c ∈ columns, Naming.checkColumnName c.name = .ok () ∧ c.name ∉ seen) ∧
        (columns.map (·.name)).Nodup := by
  induction columns generalizing seen with
  | nil => simp [checkColumnNames]
  | cons c rest ih =>
    unfold checkColumnNames
    rw [List.forall_mem_cons, List.map_cons, List.nodup_cons]
    simp only [except_bind_eq_ok, ite_throw_eq_ok, ih, List.mem_cons, not_or]
    constructor
    · rintro ⟨⟨⟩, hname, hseen, hrest, hnodup⟩
      refine ⟨⟨⟨hname, hseen⟩, fun other hother => ?_⟩, fun hin => ?_, hnodup⟩
      · exact ⟨(hrest other hother).1, (hrest other hother).2.2⟩
      · obtain ⟨other, hother, hsame⟩ := List.mem_map.1 hin
        exact (hrest other hother).2.1 hsame
    · rintro ⟨⟨⟨hname, hseen⟩, hrest⟩, hfirst, hnodup⟩
      refine ⟨(), hname, hseen, fun other hother => ?_, hnodup⟩
      exact ⟨(hrest other hother).1, fun hsame => hfirst (List.mem_map.2 ⟨other, hother, hsame⟩),
        (hrest other hother).2⟩

theorem checkStatic_eq_ok_iff {compact : Bool} {k : KeySplit} :
    checkStatic compact k = .ok () ↔
      (k.hasStatic = true → compact = false ∧ k.clustering ≠ []) := by
  unfold checkStatic
  cases k.hasStatic <;> cases compact <;> cases k.clustering <;> simp

/-! ### Columns of a part -/

theorem keyRoles_role {role : ColumnRole} {isComposite : Bool}
    {columns : List ColumnDeclaration} {c : Column} (h : c ∈ keyRoles role isComposite columns) :
    c.role = role := by
  unfold keyRoles at h
  obtain ⟨i, hi, rfl⟩ := List.mem_mapIdx.1 h
  rfl

/-- Columns of a composite know their places in it. -/
theorem keyRoles_componentIndex {role : ColumnRole} {isComposite : Bool}
    {columns : List ColumnDeclaration} {c : Column} (h : c ∈ keyRoles role isComposite columns)
    {i : Nat} (hi : c.componentIndex = some i) : isComposite = true ∧ i < columns.length := by
  unfold keyRoles at h
  obtain ⟨j, hj, rfl⟩ := List.mem_mapIdx.1 h
  cases isComposite with
  | false => cases hi
  | true =>
    cases hi
    exact ⟨rfl, hj⟩

theorem valueRole_role (valueColumn : Option String) (slot : Option Nat) (c : ColumnDeclaration) :
    (valueRole valueColumn slot c).role.isKey = false := by
  unfold valueRole
  split
  · rfl
  · cases c.isStatic <;> rfl

/-! ### What a definition is compiled to -/

/-- The table with a layout and a default for these columns. -/
def table (d : TableDefinition) (split : KeySplit) (layout : CellLayout)
    (default : DefaultValue) : TableSchema :=
  let keyLayout := KeyLayout.ofTypes split.partitionKeyTypes
  let slot := if layout.isCompound then some split.clustering.length else none
  { keyspace := d.keyspace
    name := d.name
    keyLayout
    cellLayout := layout
    defaultType := default.type
    isDense := layout.isDense
    isCompact := d.compactStorage
    columns :=
      keyRoles .partitionKey keyLayout.isComposite split.partitionKey
        ++ keyRoles .clusteringKey layout.isCompound split.clustering
        ++ split.remaining.map
          (valueRole (default.compactValue.bind CompactValue.name?) slot)
    compactValue := default.compactValue
    properties := d.properties }

/-- What a definition is checked for before it is compiled to the table with these parts. -/
structure Compiled (d : TableDefinition) (k : KeySplit) (layout : CellLayout)
    (default : DefaultValue) : Prop where
  name : Naming.checkName d.name = .ok ()
  columnNames : checkColumnNames [] d.columns = .ok ()
  properties : d.properties.check = .ok ()
  keySplit : d.keySplit = .ok k
  counters : checkCounters (k.remaining.map (·.type)) = .ok ()
  static : checkStatic d.compactStorage k = .ok ()
  layout : CellLayout.choose? k.clusteringTypes d.compactStorage
    (Bindings.ofList (k.multiCell.map fun c => (c.name, c.type))) = some layout
  default : DefaultValue.resolve d.compactStorage k.clustering.length k.remaining = .ok default

/-- **When a definition compiles, and to what.** -/
theorem compile_eq_ok_iff {d : TableDefinition} {s : TableSchema} :
    d.compile = .ok s ↔ ∃ k layout default, d.Compiled k layout default ∧
      (k.hasCounters = true → d.properties.defaultTimeToLive = 0) ∧
      s = d.table k layout default := by
  constructor
  · intro h
    unfold compile at h
    obtain ⟨⟨⟩, hname, h⟩ := except_bind_eq_ok.1 h
    obtain ⟨⟨⟩, hcolumns, h⟩ := except_bind_eq_ok.1 h
    obtain ⟨⟨⟩, hproperties, h⟩ := except_bind_eq_ok.1 h
    obtain ⟨k, hsplit, h⟩ := except_bind_eq_ok.1 h
    obtain ⟨hexpiry, h⟩ := ite_throw_eq_ok.1 h
    obtain ⟨⟨⟩, hcounters, h⟩ := except_bind_eq_ok.1 h
    obtain ⟨⟨⟩, hstatic, h⟩ := except_bind_eq_ok.1 h
    simp only at h
    split at h
    · rename_i layout hlayout
      obtain ⟨default, hdefault, h⟩ := except_bind_eq_ok.1 h
      cases h
      refine ⟨k, layout, default, ⟨hname, hcolumns, hproperties, hsplit, hcounters, hstatic,
        hlayout, hdefault⟩, fun hhas => ?_, rfl⟩
      simpa [hhas] using hexpiry
    · cases h
  · rintro ⟨k, layout, default, h, hexpiry, rfl⟩
    have hpasses : ¬(k.hasCounters && 0 < d.properties.defaultTimeToLive) = true := by
      simp only [Bool.and_eq_true, decide_eq_true_eq, not_and]
      intro hhas
      simp [hexpiry hhas]
    unfold compile
    refine except_bind_eq_ok.2 ⟨(), h.name, except_bind_eq_ok.2 ⟨(), h.columnNames,
      except_bind_eq_ok.2 ⟨(), h.properties, except_bind_eq_ok.2 ⟨k, h.keySplit,
      ite_throw_eq_ok.2 ⟨hpasses, except_bind_eq_ok.2 ⟨(), h.counters,
      except_bind_eq_ok.2 ⟨(), h.static, ?_⟩⟩⟩⟩⟩⟩⟩
    simp only [h.layout]
    exact except_bind_eq_ok.2 ⟨default, h.default, rfl⟩

/-- **The parts of a compiled table.** -/
theorem compile_ok {d : TableDefinition} {s : TableSchema} (h : d.compile = .ok s) :
    ∃ k layout default, d.Compiled k layout default ∧ s = d.table k layout default := by
  obtain ⟨k, layout, default, hcompiled, -, hs⟩ := compile_eq_ok_iff.1 h
  exact ⟨k, layout, default, hcompiled, hs⟩

/-! ### Columns of a compiled table -/

/-- The columns outside the key of a table with these parts. -/
def valueParts (k : KeySplit) (layout : CellLayout) (default : DefaultValue) : List Column :=
  k.remaining.map (valueRole (default.compactValue.bind CompactValue.name?)
    (if layout.isCompound then some k.clustering.length else none))

theorem isKey_of_mem_valueParts {k : KeySplit} {layout : CellLayout} {default : DefaultValue}
    {c : Column} (h : c ∈ valueParts k layout default) : c.role.isKey = false := by
  obtain ⟨declaration, -, rfl⟩ := List.mem_map.1 h
  exact valueRole_role _ _ declaration

/-- **The parts of a compiled table are found by the roles of its columns.** -/
theorem table_columns (d : TableDefinition) (k : KeySplit) (layout : CellLayout)
    (default : DefaultValue) :
    (d.table k layout default).partitionKeyColumns =
        keyRoles .partitionKey (KeyLayout.ofTypes k.partitionKeyTypes).isComposite
          k.partitionKey ∧
      (d.table k layout default).clusteringColumns =
        keyRoles .clusteringKey layout.isCompound k.clustering ∧
      (d.table k layout default).otherColumns = valueParts k layout default :=
  TableSchema.columns_of_parts rfl (fun _ hc => keyRoles_role hc) (fun _ hc => keyRoles_role hc)
    fun _ hc => isKey_of_mem_valueParts hc

/-- **The key columns of a compiled table agree with its layout.** -/
theorem keysFit_of_compile {d : TableDefinition} {s : TableSchema} (h : d.compile = .ok s) :
    s.KeysFit := by
  obtain ⟨k, layout, default, hcompiled, rfl⟩ := compile_ok h
  obtain ⟨hpartition, hclustering, -⟩ := table_columns d k layout default
  refine ⟨?_, fun c hc hrole i hi => ?_⟩
  · rw [hclustering]
    show _ = layout.clusteringTypes.length
    rw [CellLayout.clusteringTypes_of_choose? hcompiled.layout]
    simp [keyRoles, KeySplit.clusteringTypes]
  · have hkey : c ∈ (d.table k layout default).partitionKeyColumns :=
      List.mem_filter.2 ⟨hc, decide_eq_true hrole⟩
    rw [hpartition] at hkey
    obtain ⟨hcomposite, hlt⟩ := keyRoles_componentIndex hkey hi
    refine ⟨k.partitionKeyTypes, KeyLayout.ofTypes_of_isComposite hcomposite, ?_⟩
    simpa [KeySplit.partitionKeyTypes] using hlt

end TableDefinition

end WideColumn
