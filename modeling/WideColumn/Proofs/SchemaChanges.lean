import WideColumn.Proofs.CompiledTables
import WideColumn.Schema.Evolution

/-!
# What a change makes of a table

Each of the four changes opened into the checks that it passed and the table that it gave, and the
histories of tables that come about by changes.

* `addColumn_eq_ok_iff`, `dropColumn_ok`, `retypeColumn_ok`, `setProperties_ok` — what a successful
  change was checked for, and its result;
* `retypeFirst_eq_map` — with names apart, another type for the first column of a name is another
  type for the column of that name;
* `withClusteringType_clusteringTypes`, `retyped_cellLayout_keeps` — the layout that a retyped
  clustering column gives, and what stays of it;
* `changeAll_induction` — changes keep what each of them keeps;
* `Evolved` — **a table with the versions before it**, from the compiled one on.
-/

namespace WideColumn

open Effects

/-! ### Columns and layouts -/

/-- The column with another type, if it has the name. -/
def Column.retype (name : String) (type : ColumnType) (c : Column) : Column :=
  if c.name = name then { c with type } else c

namespace Column

@[simp] theorem retype_name (name : String) (type : ColumnType) (c : Column) :
    (c.retype name type).name = c.name := by
  unfold retype
  split <;> rfl

@[simp] theorem retype_role (name : String) (type : ColumnType) (c : Column) :
    (c.retype name type).role = c.role := by
  unfold retype
  split <;> rfl

@[simp] theorem retype_componentIndex (name : String) (type : ColumnType) (c : Column) :
    (c.retype name type).componentIndex = c.componentIndex := by
  unfold retype
  split <;> rfl

theorem retype_of_ne {name : String} {c : Column} (h : c.name ≠ name) (type : ColumnType) :
    c.retype name type = c :=
  if_neg h

theorem retype_type (name : String) (type : ColumnType) (c : Column) :
    (c.retype name type).type = if c.name = name then type else c.type := by
  unfold retype
  split <;> rfl

/-- Columns of other names are left as they are. -/
theorem map_retype_of_notMem {columns : List Column} {name : String}
    (h : name ∉ columns.map (·.name)) (type : ColumnType) :
    columns.map (retype name type) = columns := by
  refine (List.map_congr_left fun c hc => ?_).trans (List.map_id columns)
  exact retype_of_ne (fun hname => h (List.mem_map.2 ⟨c, hc, hname⟩)) type

end Column

/-- Where names are apart, the first column of a name is the only one. -/
theorem TableSchema.retypeFirst_eq_map {columns : List Column} (h : (columns.map (·.name)).Nodup)
    (name : String) (type : ColumnType) :
    retypeFirst name type columns = columns.map (Column.retype name type) := by
  induction columns with
  | nil => rfl
  | cons c rest ih =>
    obtain ⟨hfirst, hrest⟩ := List.nodup_cons.1 h
    unfold retypeFirst
    rw [List.map_cons]
    split
    · rename_i hname
      subst hname
      rw [Column.map_retype_of_notMem hfirst, Column.retype, if_pos rfl]
    · rename_i hname
      rw [Column.retype_of_ne hname, ih hrest]

/-- A column that is found by its place has the type at this place changed. -/
theorem Column.map_retype_types {columns : List Column} (h : (columns.map (·.name)).Nodup)
    {name : String} {position : Nat} (hposition : columns.findIdx? (·.name = name) = some position)
    (type : ColumnType) :
    (columns.map (Column.retype name type)).map (·.type) =
      (columns.map (·.type)).set position type := by
  induction columns generalizing position with
  | nil => cases hposition
  | cons c rest ih =>
    obtain ⟨hfirst, hrest⟩ := List.nodup_cons.1 h
    rw [List.findIdx?_cons] at hposition
    by_cases hname : c.name = name
    · subst hname
      simp only [decide_true, if_true, Option.some.injEq] at hposition
      subst hposition
      have hsame := Column.map_retype_of_notMem hfirst type
      simp [hsame, Column.retype_type]
    · simp only [hname, decide_false, Bool.false_eq_true, if_false] at hposition
      obtain ⟨i, hi, rfl⟩ := Option.map_eq_some_iff.1 hposition
      simp [Column.retype_of_ne hname, ih hrest hi]

namespace CellLayout

theorem withClusteringType_clusteringTypes (position : Nat) (type : ColumnType)
    (layout : CellLayout) :
    (layout.withClusteringType position type).clusteringTypes =
      layout.clusteringTypes.set position type := by
  cases layout with
  | simpleDense t => cases position <;> rfl
  | simpleSparse | compoundSparse | compoundDense => rfl

@[simp] theorem withClusteringType_isDense (position : Nat) (type : ColumnType)
    (layout : CellLayout) :
    (layout.withClusteringType position type).isDense = layout.isDense := by
  cases layout <;> rfl

@[simp] theorem withClusteringType_isCompound (position : Nat) (type : ColumnType)
    (layout : CellLayout) :
    (layout.withClusteringType position type).isCompound = layout.isCompound := by
  cases layout <;> rfl

@[simp] theorem withClusteringType_collections? (position : Nat) (type : ColumnType)
    (layout : CellLayout) :
    (layout.withClusteringType position type).collections? = layout.collections? := by
  cases layout <;> rfl

/-- What a layout is with one more collection. -/
theorem withCollection?_ok {column : String} {type : ColumnType} {layout layout' : CellLayout}
    (h : layout.withCollection? column type = some layout') :
    layout'.clusteringTypes = layout.clusteringTypes ∧ layout'.isDense = layout.isDense ∧
      layout'.isCompound = layout.isCompound ∧
      ∀ name, layout'.collectionType? name =
        if name = column then some type else layout.collectionType? name := by
  cases layout with
  | compoundSparse types collections =>
    cases h
    refine ⟨rfl, rfl, rfl, fun name => ?_⟩
    show Bindings.find? name _ = _
    rw [Bindings.find?_insert]
    cases collections <;> rfl
  | simpleSparse | simpleDense | compoundDense => cases h

end CellLayout

theorem checkCounters_ok {types : List ColumnType} (h : checkCounters types = .ok ())
    {t : ColumnType} (ht : t ∈ types) (hcounter : t.isCounter = true) :
    ∀ t' ∈ types, t'.isCounter = true := by
  refine (checkCounters_eq_ok_iff.1 h).resolve_right fun hnone => ?_
  rw [hnone t ht] at hcounter
  cases hcounter

namespace TableSchema

variable {s s' : TableSchema}

/-! ### Another column -/

/-- The column that a declaration adds to the table. -/
def newColumn (s : TableSchema) (c : ColumnDeclaration) : Column :=
  ⟨c.name, c.type, if c.isStatic then .static else .regular, s.columnSlot⟩

/-- The table with another column and with a layout that has room for it. -/
def withColumn (s : TableSchema) (c : ColumnDeclaration) (layout : CellLayout) : TableSchema :=
  { s with
    cellLayout := layout
    defaultType := if !s.isCompact && c.type.isCounter then .counter else s.defaultType
    columns := s.columns ++ [s.newColumn c] }

@[simp] theorem newColumn_name (s : TableSchema) (c : ColumnDeclaration) :
    (s.newColumn c).name = c.name := rfl

@[simp] theorem newColumn_type (s : TableSchema) (c : ColumnDeclaration) :
    (s.newColumn c).type = c.type := rfl

/-- A new column is a regular or a static one. -/
theorem newColumn_role (s : TableSchema) (c : ColumnDeclaration) :
    (s.newColumn c).role.isKey = false ∧ (s.newColumn c).role ≠ .compactValue := by
  unfold newColumn
  cases c.isStatic <;> exact ⟨rfl, nofun⟩

theorem newColumn_static {s : TableSchema} {c : ColumnDeclaration}
    (h : (s.newColumn c).role = .static) : c.isStatic = true := by
  cases hstatic : c.isStatic with
  | true => rfl
  | false => simp [newColumn, hstatic] at h

section

variable (s : TableSchema) (c : ColumnDeclaration) (layout : CellLayout)

@[simp] theorem withColumn_cellLayout : (s.withColumn c layout).cellLayout = layout := rfl

@[simp] theorem withColumn_columns :
    (s.withColumn c layout).columns = s.columns ++ [s.newColumn c] := rfl

@[simp] theorem withColumn_isDense : (s.withColumn c layout).isDense = s.isDense := rfl

@[simp] theorem withColumn_compactValue :
    (s.withColumn c layout).compactValue = s.compactValue := rfl

/-- The default type of a compact table does not heed new columns. -/
theorem withColumn_defaultType_of_compact (h : s.isCompact = true) :
    (s.withColumn c layout).defaultType = s.defaultType := by
  show (if !s.isCompact && c.type.isCounter then ColumnType.counter else s.defaultType) = _
  rw [h]
  rfl

end

/-- What a new column was checked for. -/
structure Added (s : TableSchema) (c : ColumnDeclaration) (layout : CellLayout) : Prop where
  name : Naming.checkColumnName c.name = .ok ()
  fresh : s.column? c.name = none
  sparse : s.isDense = false
  static : c.isStatic = true → s.isCompact = false ∧ s.cellLayout.clusteringTypes ≠ []
  layout : s.layoutWith c = .ok layout
  counters : checkCounters (s.valueColumns.map (·.type) ++ [c.type]) = .ok ()

theorem checkNewStatic_eq_ok_iff {c : ColumnDeclaration} :
    s.checkNewStatic c = .ok () ↔
      (c.isStatic = true → s.isCompact = false ∧ s.cellLayout.clusteringTypes ≠ []) := by
  unfold checkNewStatic
  cases c.isStatic <;> cases s.isCompact <;> cases s.cellLayout.clusteringTypes <;> simp

/-- **When a column can be added, and what this gives.** -/
theorem addColumn_eq_ok_iff {c : ColumnDeclaration} :
    s.addColumn c = .ok s' ↔ ∃ layout, Added s c layout ∧
      (c.type.isCounter = true → s.properties.defaultTimeToLive = 0) ∧
      s' = s.withColumn c layout := by
  constructor
  · intro h
    unfold addColumn at h
    obtain ⟨⟨⟩, hname, h⟩ := except_bind_eq_ok.1 h
    obtain ⟨hfresh, h⟩ := ite_throw_eq_ok.1 h
    obtain ⟨hsparse, h⟩ := ite_throw_eq_ok.1 h
    obtain ⟨⟨⟩, hstatic, h⟩ := except_bind_eq_ok.1 h
    obtain ⟨layout, hlayout, h⟩ := except_bind_eq_ok.1 h
    obtain ⟨hexpiry, h⟩ := ite_throw_eq_ok.1 h
    obtain ⟨⟨⟩, hcounters, h⟩ := except_bind_eq_ok.1 h
    cases h
    refine ⟨layout, ⟨hname, by simpa using hfresh, by simpa using hsparse,
      checkNewStatic_eq_ok_iff.1 hstatic, hlayout, hcounters⟩, fun hcounter => ?_, rfl⟩
    simpa [hcounter] using hexpiry
  · rintro ⟨layout, h, hexpiry, rfl⟩
    have hpasses : ¬(c.type.isCounter && 0 < s.properties.defaultTimeToLive) = true := by
      simp only [Bool.and_eq_true, decide_eq_true_eq, not_and]
      intro hcounter
      simp [hexpiry hcounter]
    unfold addColumn
    exact except_bind_eq_ok.2 ⟨(), h.name, ite_throw_eq_ok.2 ⟨by simp [h.fresh],
      ite_throw_eq_ok.2 ⟨by simp [h.sparse],
      except_bind_eq_ok.2 ⟨(), checkNewStatic_eq_ok_iff.2 h.static,
      except_bind_eq_ok.2 ⟨layout, h.layout, ite_throw_eq_ok.2 ⟨hpasses,
      except_bind_eq_ok.2 ⟨(), h.counters, rfl⟩⟩⟩⟩⟩⟩⟩

theorem addColumn_ok {c : ColumnDeclaration} (h : s.addColumn c = .ok s') :
    ∃ layout, Added s c layout ∧ s' = s.withColumn c layout := by
  obtain ⟨layout, hadded, -, hs'⟩ := addColumn_eq_ok_iff.1 h
  exact ⟨layout, hadded, hs'⟩

/-- The layout has room for a new column: a multi-cell one is recorded with its type. -/
theorem layoutWith_ok {c : ColumnDeclaration} {layout : CellLayout}
    (h : s.layoutWith c = .ok layout) :
    layout.clusteringTypes = s.cellLayout.clusteringTypes ∧
      layout.isDense = s.cellLayout.isDense ∧ layout.isCompound = s.cellLayout.isCompound ∧
      ∀ name, layout.collectionType? name =
        if name = c.name ∧ c.isMultiCell = true then some c.type
        else s.cellLayout.collectionType? name := by
  unfold layoutWith at h
  split at h
  · rename_i hmulti
    cases h
    refine ⟨rfl, rfl, rfl, fun name => ?_⟩
    rw [if_neg fun hand => by simp [hand.2] at hmulti]
  · rename_i hmulti
    split at h
    · cases h
    · split at h
      · rename_i hroom
        cases h
        obtain ⟨htypes, hdense, hcompound, hcollections⟩ := CellLayout.withCollection?_ok hroom
        refine ⟨htypes, hdense, hcompound, fun name => ?_⟩
        rw [hcollections name]
        simp only [Bool.not_eq_true, Bool.not_eq_false'] at hmulti
        simp [hmulti]
      · cases h

/-! ### One column less -/

/-- The table without the columns of a name. -/
def without (s : TableSchema) (name : String) : TableSchema :=
  { s with columns := s.columns.filter (·.name ≠ name) }

theorem dropColumn_ok {name : String} (h : s.dropColumn name = .ok s') :
    ∃ c, s.column? name = some c ∧ c.role.isKey = false ∧ s.isCompact = false ∧
      s' = s.without name := by
  unfold dropColumn at h
  split at h
  · cases h
  · rename_i c hc
    split at h
    · cases h
    rename_i hkey
    split at h
    · cases h
    rename_i hcompact
    cases h
    exact ⟨c, hc, by simpa using hkey, by simpa using hcompact, rfl⟩

/-! ### Another type -/

/-- What a column was checked for before its type changed. -/
structure Retyped (s : TableSchema) (c : Column) (type : ColumnType) : Prop where
  wasSingle : c.type.isMultiCell = false
  isSingle : type.isMultiCell = false
  counter : type.isCounter = c.type.isCounter

theorem retypeColumn_ok {name : String} {type : ColumnType}
    (h : s.retypeColumn name type = .ok s') :
    ∃ c, s.column? name = some c ∧ Retyped s c type ∧ s' = s.retyped c type := by
  unfold retypeColumn at h
  split at h
  · cases h
  · rename_i c hc
    obtain ⟨⟨⟩, hcheck, h⟩ := except_bind_eq_ok.1 h
    cases h
    refine ⟨c, hc, ?_, rfl⟩
    unfold checkRetype at hcheck
    simp only at hcheck
    split at hcheck
    · cases hcheck
    rename_i hmulti
    split at hcheck
    · cases hcheck
    rename_i hcounter
    simp only [Bool.or_eq_true, not_or, Bool.not_eq_true] at hmulti
    have hsame : c.type.isCounter = type.isCounter := by simpa using hcounter
    exact ⟨by simpa using hmulti.1, hmulti.2, hsame.symm⟩

/-- The type under which a column is kept: clustering columns keep their direction. -/
def storedType (c : Column) (type : ColumnType) : ColumnType :=
  if c.role = .clusteringKey ∧ c.type.isDescending = true then type.descend else type

@[simp] theorem isMultiCell_storedType (c : Column) (type : ColumnType) :
    (storedType c type).isMultiCell = type.isMultiCell := by
  unfold storedType
  split <;> simp

@[simp] theorem isCounter_storedType (c : Column) (type : ColumnType) :
    (storedType c type).isCounter = type.isCounter := by
  unfold storedType
  split <;> simp

theorem retyped_columns (h : (s.columns.map (·.name)).Nodup) (c : Column) (type : ColumnType) :
    (s.retyped c type).columns = s.columns.map (Column.retype c.name (storedType c type)) := by
  rw [← retypeFirst_eq_map h]
  unfold retyped storedType
  cases hrole : c.role <;> simp

theorem retyped_isDense (s : TableSchema) (c : Column) (type : ColumnType) :
    (s.retyped c type).isDense = s.isDense := by
  unfold retyped
  cases c.role <;> rfl

theorem retyped_isCompact (s : TableSchema) (c : Column) (type : ColumnType) :
    (s.retyped c type).isCompact = s.isCompact := by
  unfold retyped
  cases c.role <;> rfl

theorem retyped_compactValue (s : TableSchema) (c : Column) (type : ColumnType) :
    (s.retyped c type).compactValue = s.compactValue := by
  unfold retyped
  cases c.role <;> rfl

/-- Only the clustering types of the layout change: what does not depend on them stays. -/
theorem retyped_cellLayout_keeps {α : Type} {f : CellLayout → α} (s : TableSchema) (c : Column)
    (type : ColumnType)
    (hf : ∀ position type layout, f (CellLayout.withClusteringType position type layout) = f layout) :
    f (s.retyped c type).cellLayout = f s.cellLayout := by
  unfold retyped
  cases c.role with
  | clusteringKey =>
    simp only
    split
    · exact hf _ _ _
    · rfl
  | partitionKey | static | regular | compactValue => rfl

theorem retyped_cellLayout (s : TableSchema) (c : Column) (type : ColumnType) :
    (s.retyped c type).cellLayout.isDense = s.cellLayout.isDense ∧
      (s.retyped c type).cellLayout.isCompound = s.cellLayout.isCompound ∧
      (s.retyped c type).cellLayout.collections? = s.cellLayout.collections? :=
  ⟨s.retyped_cellLayout_keeps c type (by simp), s.retyped_cellLayout_keeps c type (by simp),
    s.retyped_cellLayout_keeps c type (by simp)⟩

/-! ### Other properties -/

theorem setProperties_ok {p : TableProperties} (h : s.setProperties p = .ok s') :
    p.check = .ok () ∧ s' = { s with properties := p } := by
  unfold setProperties at h
  obtain ⟨⟨⟩, hcheck, h⟩ := except_bind_eq_ok.1 h
  split at h
  · cases h
  · cases h
    exact ⟨hcheck, rfl⟩

/-! ### Histories -/

/-- The table after some changes, if none is refused. -/
def changeAll (s : TableSchema) (changes : List SchemaChange) : Except SchemaError TableSchema :=
  changes.foldlM change s

/-- Changes keep what each of them keeps. -/
theorem changeAll_induction {P : TableSchema → Prop} {changes : List SchemaChange}
    (hchange : ∀ change ∈ changes, ∀ s s', P s → s.change change = .ok s' → P s')
    (h : P s) (hrun : s.changeAll changes = .ok s') : P s' := by
  induction changes generalizing s with
  | nil =>
    cases hrun
    exact h
  | cons change rest ih =>
    obtain ⟨hfirst, hrest⟩ := List.forall_mem_cons.1 hchange
    obtain ⟨next, hnext, hrun⟩ := except_bind_eq_ok.1 hrun
    exact ih hrest (hfirst s next h hnext) hrun

end TableSchema

/-- The table has come from the definition by changes; `past` are the versions before it, the
latest first. -/
inductive TableDefinition.Evolved (d : TableDefinition) : List TableSchema → TableSchema → Prop
  | compiled {s : TableSchema} (h : d.compile = .ok s) : Evolved d [] s
  | changed {past : List TableSchema} {s s' : TableSchema} {change : SchemaChange}
      (h : Evolved d past s) (hchange : s.change change = .ok s') : Evolved d (s :: past) s'

namespace TableDefinition.Evolved

variable {d : TableDefinition} {s s' : TableSchema}

theorem changeAll {past : List TableSchema} {changes : List SchemaChange} (h : d.Evolved past s)
    (hchanges : s.changeAll changes = .ok s') : ∃ past', d.Evolved past' s' := by
  refine TableSchema.changeAll_induction (P := fun s => ∃ past, d.Evolved past s) ?_ ⟨past, h⟩
    hchanges
  rintro change - s s' ⟨past, h⟩ hchange
  exact ⟨s :: past, h.changed hchange⟩

end TableDefinition.Evolved

end WideColumn
