import WideColumn.Proofs.ColumnPlaces
import WideColumn.Proofs.CounterTables
import WideColumn.Proofs.TableLayouts
import WideColumn.Proofs.TableTypes

/-!
# Where descending marks stand

A descending mark is meant for the clustering columns that are kept in descending order, and for
these alone.  But a mark is also a part of the written form of types, so one that was declared for
another column, or given to it by a change, stays with it.

* `ColumnType.isUnmarked`, `ColumnType.MarkedIf` — types without marks, and those with a mark where
  they begin;
* `TableSchema.MarksDirections` — the marks of a table say which clustering columns are in
  descending order, and there are no others;
* `TableDefinition.admits` — a type that brings no other mark to a column;
* `marksDirections_of_compile_iff` and `Consistent.marksDirections_change_iff` — **a table marks the
  directions if and only if the types that it was given are admitted**, when it is compiled and when
  it is changed;
* `TableDefinition.marks_directions_iff` — **so do all versions of a table**;
* `TableDefinition.regular_column_marked` — a regular column with a mark.
-/

namespace WideColumn

open Effects

/-! ### Marks in types -/

namespace ColumnType

/-- Does no descending mark stand anywhere in the type? -/
def isUnmarked : ColumnType → Bool
  | scalar _ => true
  | list e _ | set e _ => e.isUnmarked
  | map k v _ => k.isUnmarked && v.isUnmarked
  | descending _ => false

/-- The type without the mark that it begins with, if there is one. -/
def withoutMark : ColumnType → ColumnType
  | descending t => t
  | t => t

/-- The type begins with a mark, if it is to be turned, and has no others. -/
structure MarkedIf (turned : Prop) (t : ColumnType) : Prop where
  head : t.isDescending = true ↔ turned
  rest : t.withoutMark.isUnmarked = true

theorem withoutMark_descend (t : ColumnType) : t.descend.withoutMark = t.withoutMark := by
  cases t <;> rfl

theorem markedIf_iff_of_not {turned : Prop} (h : ¬turned) {t : ColumnType} :
    t.MarkedIf turned ↔ t.isUnmarked = true := by
  cases t with
  | descending t => exact ⟨fun hmarked => absurd (hmarked.head.1 rfl) h, nofun⟩
  | scalar | list | set | map =>
    exact ⟨MarkedIf.rest, fun hunmarked => ⟨⟨nofun, fun hturned => absurd hturned h⟩, hunmarked⟩⟩

theorem markedIf_descend_iff {turned : Prop} (h : turned) {t : ColumnType} :
    t.descend.MarkedIf turned ↔ t.withoutMark.isUnmarked = true := by
  rw [← withoutMark_descend]
  exact ⟨MarkedIf.rest, fun hrest => ⟨⟨fun _ => h, fun _ => t.isDescending_descend⟩, hrest⟩⟩

end ColumnType

/-- The types of a layout beside those of the clustering values. -/
def CellLayout.sideTypes : CellLayout → List ColumnType
  | simpleSparse t => [t]
  | compoundSparse _ cs => Bindings.values (cs.getD [])
  | simpleDense _ | compoundDense _ => []

namespace CellLayout

theorem sideTypes_withClusteringType (position : Nat) (type : ColumnType) (layout : CellLayout) :
    (layout.withClusteringType position type).sideTypes = layout.sideTypes := by
  cases layout <;> rfl

theorem mem_sideTypes_of_choose? {types : List ColumnType} {compact : Bool}
    {collections : CollectionTypes} {layout : CellLayout}
    (h : choose? types compact collections = some layout) {t : ColumnType}
    (ht : t ∈ layout.sideTypes) : t = .text ∨ t ∈ Bindings.values collections := by
  unfold choose? at h
  split at h
  · split at h
    · cases h
    · split at h <;> cases h
      · exact .inl (List.mem_singleton.1 ht)
      · cases ht
      · cases ht
  · cases h
    cases collections with
    | nil => cases ht
    | cons => exact .inr ht

theorem mem_sideTypes_of_withCollection? {layout layout' : CellLayout} {column : String}
    {type t : ColumnType} (h : layout.withCollection? column type = some layout')
    (ht : t ∈ layout'.sideTypes) : t ∈ layout.sideTypes ∨ t = type := by
  cases layout with
  | compoundSparse types collections =>
    cases h
    obtain ⟨binding, hbinding, rfl⟩ := List.mem_map.1 ht
    rcases Bindings.eq_or_mem_of_mem_insert hbinding with rfl | hbinding
    · exact .inr rfl
    · exact .inl (List.mem_map_of_mem hbinding)
  | simpleSparse | simpleDense | compoundDense => cases h

end CellLayout

/-! ### Marks in tables -/

/-- The clustering columns in descending order are marked, and nothing else is. -/
structure TableSchema.MarksDirections (d : TableDefinition) (s : TableSchema) : Prop where
  columns : ∀ c ∈ s.columns,
    c.type.MarkedIf (c.role = .clusteringKey ∧ d.direction c.name = .desc)
  /-- In the layout of cell names, the types of the clustering values are those of their columns. -/
  clustering : s.cellLayout.clusteringTypes = s.clusteringColumns.map (·.type)
  keys : ∀ t ∈ s.keyLayout.types, t.isUnmarked = true
  names : ∀ t ∈ s.cellLayout.sideTypes, t.isUnmarked = true
  default : s.defaultType.isUnmarked = true

/-- The type brings no mark to the column: it has none, but perhaps one where it begins, if the
column is in descending order anyway. -/
def TableDefinition.admits (d : TableDefinition) (name : String) (t : ColumnType) : Bool :=
  if name ∈ d.clusteringColumns ∧ d.direction name = .desc then t.withoutMark.isUnmarked
  else t.isUnmarked

/-- The type that a change gives to a column. -/
def SchemaChange.given : SchemaChange → List (String × ColumnType)
  | addColumn c => [(c.name, c.type)]
  | retypeColumn name type => [(name, type)]
  | dropColumn _ | setProperties _ => []

namespace TableSchema

variable {d : TableDefinition} {s s' : TableSchema}

/-- A consistent table has the types of its key layout in its columns. -/
theorem Consistent.marksDirections (hs : s.Consistent)
    (hcolumns : ∀ c ∈ s.columns,
      c.type.MarkedIf (c.role = .clusteringKey ∧ d.direction c.name = .desc))
    (hnames : ∀ t ∈ s.cellLayout.sideTypes, t.isUnmarked = true)
    (hdefault : s.defaultType.isUnmarked = true) : s.MarksDirections d := by
  refine ⟨hcolumns, hs.clustering, fun t ht => ?_, hnames, hdefault⟩
  rw [hs.keyLayout, KeyLayout.types_ofTypes] at ht
  obtain ⟨c, hc, rfl⟩ := List.mem_map.1 ht
  obtain ⟨hc, hrole⟩ := mem_partitionKeyColumns.1 hc
  exact (ColumnType.markedIf_iff_of_not fun hturned => by simp [hrole] at hturned).1 (hcolumns c hc)

/-- The clustering columns are told by their names. -/
theorem Consistent.clusteringKey_iff (hs : s.Consistent)
    (hnames : s.clusteringColumns.map (·.name) = d.clusteringColumns) {c : Column}
    (hc : c ∈ s.columns) : c.role = .clusteringKey ↔ c.name ∈ d.clusteringColumns := by
  rw [← hnames]
  constructor
  · exact fun hrole => List.mem_map_of_mem (mem_clusteringColumns.2 ⟨hc, hrole⟩)
  · intro hin
    obtain ⟨other, hother, hname⟩ := List.mem_map.1 hin
    obtain ⟨hother, hrole⟩ := mem_clusteringColumns.1 hother
    rwa [← hs.eq_of_name hother hc hname]

end TableSchema

/-! ### Compiled tables -/

namespace TableDefinition

variable {d : TableDefinition} {s : TableSchema}

theorem Acceptable.keptRole_eq_clusteringKey_iff (h : d.Acceptable) (c : ColumnDeclaration) :
    d.keptRole c = .clusteringKey ↔ c.name ∈ d.clusteringColumns := by
  have hapart := (List.nodup_append.1 h.key.apart).2.2
  unfold keptRole
  by_cases hpartition : c.name ∈ d.partitionKeys.flatten
  · simp only [if_pos hpartition, reduceCtorEq, false_iff]
    exact fun hclustering => hapart _ hpartition _ hclustering rfl
  · rw [if_neg hpartition]
    by_cases hclustering : c.name ∈ d.clusteringColumns
    · simp [hclustering]
    · rw [if_neg hclustering]
      simp only [hclustering, iff_false]
      split
      · nofun
      · split <;> nofun

/-- A declared column is kept with the mark of its direction if its type is admitted. -/
theorem Acceptable.markedIf_keptType_iff (h : d.Acceptable) (c : ColumnDeclaration) :
    (d.keptType c).MarkedIf (d.keptRole c = .clusteringKey ∧ d.direction c.name = .desc) ↔
      d.admits c.name c.type = true := by
  rw [h.keptRole_eq_clusteringKey_iff]
  unfold keptType admits
  split
  · rename_i hturned
    exact ColumnType.markedIf_descend_iff hturned
  · rename_i hturned
    exact ColumnType.markedIf_iff_of_not hturned

/-- **A compiled table marks the directions if and only if the declared types are admitted.** -/
theorem marksDirections_of_compile_iff (hcompile : d.compile = .ok s) :
    s.MarksDirections d ↔ ∀ c ∈ d.columns, d.admits c.name c.type = true := by
  have hs := consistent_of_compile hcompile
  obtain ⟨hd, layout, default, hlayout, hdefault, rfl⟩ := compile_eq_ok_iff_acceptable.1 hcompile
  have hcolumns : (∀ c ∈ (d.table d.parts layout default).columns,
      c.type.MarkedIf (c.role = .clusteringKey ∧ d.direction c.name = .desc)) ↔
        ∀ c ∈ d.columns, d.admits c.name c.type = true := by
    have hparts := List.forall_mem_map (l := (d.table d.parts layout default).columns)
      (f := fun c => (c.name, c.type, c.role))
      (P := fun p => p.2.1.MarkedIf (p.2.2 = .clusteringKey ∧ d.direction p.1 = .desc))
    rw [hd.table_parts layout hdefault, List.forall_mem_map] at hparts
    rw [← hparts]
    simp only [hd.markedIf_keptType_iff, hd.arranged_perm.mem_iff]
  refine ⟨fun h => hcolumns.1 h.columns, fun h => ?_⟩
  have hother : ∀ c ∈ d.otherColumns, c.type.isUnmarked = true := by
    intro c hc
    obtain ⟨hmem, hkey⟩ := List.mem_filter.1 hc
    have hnot : c.name ∉ d.clusteringColumns := fun hin =>
      of_decide_eq_true hkey (List.mem_append_right _ hin)
    simpa [admits, hnot] using h c hmem
  refine hs.marksDirections (hcolumns.2 h) ?_ ?_
  · intro t ht
    rcases CellLayout.mem_sideTypes_of_choose? hlayout ht with rfl | ht
    · rfl
    · obtain ⟨binding, hbinding, rfl⟩ := List.mem_map.1 ht
      obtain ⟨c, hc, rfl⟩ := List.mem_map.1 (Bindings.mem_of_mem_ofList hbinding)
      exact hother c (List.mem_filter.1 hc).1
  · show default.type.isUnmarked = true
    rcases DefaultValue.type_of_resolve hdefault with ⟨scalar, hscalar⟩ | ⟨c, hc, htype⟩
    · rw [hscalar]
      rfl
    · exact htype ▸ hother c hc

end TableDefinition

/-! ### Changed tables -/

namespace TableSchema

variable {d : TableDefinition} {s s' : TableSchema}

/-- A column that is added has no place in the key, so its type must have no mark. -/
theorem Consistent.marksDirections_addColumn_iff (hs : s.Consistent)
    (hnames : s.clusteringColumns.map (·.name) = d.clusteringColumns) (h : s.MarksDirections d)
    {c : ColumnDeclaration} (hadd : s.addColumn c = .ok s') :
    s'.MarksDirections d ↔ d.admits c.name c.type = true := by
  have hs' := hs.addColumn hadd
  obtain ⟨layout, hadded, rfl⟩ := addColumn_ok hadd
  have hnew : c.name ∉ d.clusteringColumns := by
    rw [← hnames]
    intro hin
    obtain ⟨other, hother, hname⟩ := List.mem_map.1 hin
    have hfound := hs.column?_eq_some_iff.2 ⟨(mem_clusteringColumns.1 hother).1, hname⟩
    simp [hadded.fresh] at hfound
  have hrole : (s.newColumn c).role ≠ .clusteringKey := fun hrole => by
    simpa [hrole, ColumnRole.isKey] using (newColumn_role s c).1
  have hmarked : (s.newColumn c).type.MarkedIf ((s.newColumn c).role = .clusteringKey ∧
      d.direction (s.newColumn c).name = .desc) ↔ c.type.isUnmarked = true :=
    ColumnType.markedIf_iff_of_not fun hturned => hrole hturned.1
  have hadmits : d.admits c.name c.type = c.type.isUnmarked := if_neg fun hturned => hnew hturned.1
  rw [hadmits]
  constructor
  · exact fun h' => hmarked.1 (h'.columns _ (List.mem_append_right _ (List.mem_singleton_self _)))
  · intro hunmarked
    refine hs'.marksDirections ?_ (fun t ht => ?_) ?_
    · exact List.forall_mem_append.2
        ⟨h.columns, List.forall_mem_singleton.2 (hmarked.2 hunmarked)⟩
    · rcases layoutWith_cases hadded.layout with rfl | hroom
      · exact h.names t ht
      · rcases CellLayout.mem_sideTypes_of_withCollection? hroom ht with ht | rfl
        · exact h.names t ht
        · exact hunmarked
    · show (if !s.isCompact && c.type.isCounter then ColumnType.counter
        else s.defaultType).isUnmarked = true
      split
      · rfl
      · exact h.default

theorem Consistent.marksDirections_dropColumn (hs : s.Consistent) (h : s.MarksDirections d)
    {name : String} (hdrop : s.dropColumn name = .ok s') : s'.MarksDirections d := by
  have hs' := hs.dropColumn hdrop
  obtain ⟨c, -, -, -, rfl⟩ := dropColumn_ok hdrop
  exact hs'.marksDirections (fun other hother => h.columns other (List.mem_of_mem_filter hother))
    h.names h.default

theorem sideTypes_retyped (s : TableSchema) (c : Column) (type : ColumnType) :
    (s.retyped c type).cellLayout.sideTypes = s.cellLayout.sideTypes :=
  s.retyped_cellLayout_keeps c type CellLayout.sideTypes_withClusteringType

/-- A column that is given another type keeps the mark of its direction, and has no other if the
type is admitted. -/
theorem Consistent.markedIf_storedType_iff (hs : s.Consistent)
    (hnames : s.clusteringColumns.map (·.name) = d.clusteringColumns) (h : s.MarksDirections d)
    {c : Column} (hc : c ∈ s.columns) (type : ColumnType) :
    (storedType c type).MarkedIf (c.role = .clusteringKey ∧ d.direction c.name = .desc) ↔
      d.admits c.name type = true := by
  have hturned : c.role = .clusteringKey ∧ c.type.isDescending = true ↔
      c.name ∈ d.clusteringColumns ∧ d.direction c.name = .desc := by
    rw [← hs.clusteringKey_iff hnames hc]
    refine and_congr_right fun hrole => (h.columns c hc).head.trans ?_
    simp [hrole]
  rw [hs.clusteringKey_iff hnames hc]
  unfold storedType TableDefinition.admits
  rw [if_congr hturned rfl rfl]
  split
  · rename_i hmarked
    exact ColumnType.markedIf_descend_iff hmarked
  · rename_i hmarked
    exact ColumnType.markedIf_iff_of_not hmarked

theorem Consistent.marksDirections_retypeColumn_iff (hs : s.Consistent)
    (hnames : s.clusteringColumns.map (·.name) = d.clusteringColumns) (h : s.MarksDirections d)
    {name : String} {type : ColumnType} (hretype : s.retypeColumn name type = .ok s') :
    s'.MarksDirections d ↔ d.admits name type = true := by
  have hs' := hs.retypeColumn hretype
  obtain ⟨c, hfound, -, rfl⟩ := retypeColumn_ok hretype
  obtain ⟨hc, rfl⟩ := mem_of_column? hfound
  have hcolumns := retyped_columns hs.names c type
  have hmarked := hs.markedIf_storedType_iff hnames h hc type
  constructor
  · intro h'
    have hstored := h'.columns _ (hcolumns ▸ List.mem_map_of_mem hc)
    rw [Column.retype_role, Column.retype_name, Column.retype_type, if_pos rfl] at hstored
    exact hmarked.1 hstored
  · intro hadmits
    refine hs'.marksDirections ?_ (by rw [sideTypes_retyped]; exact h.names) ?_
    · rw [hcolumns]
      refine List.forall_mem_map.2 fun other hother => ?_
      rw [Column.retype_role, Column.retype_name, Column.retype_type]
      split
      · rename_i hname
        rw [hs.eq_of_name hother hc hname]
        exact hmarked.2 hadmits
      · exact h.columns other hother
    · rcases retyped_defaultType s c type with hdefault | ⟨hdefault, hkey, -⟩
      · exact hdefault ▸ h.default
      · have hrole : ¬(c.role = .clusteringKey ∧ d.direction c.name = .desc) := fun hturned => by
          simp [hturned.1, ColumnRole.isKey] at hkey
        have hplain : storedType c type = type := if_neg fun hturned => by
          simp [hturned.1, ColumnRole.isKey] at hkey
        rw [hdefault, ← ColumnType.markedIf_iff_of_not hrole, ← hplain]
        exact hmarked.2 hadmits

/-- **A changed table marks the directions if and only if the type that the change gives is
admitted.** -/
theorem Consistent.marksDirections_change_iff (hs : s.Consistent)
    (hnames : s.clusteringColumns.map (·.name) = d.clusteringColumns) (h : s.MarksDirections d)
    {change : SchemaChange} (hchange : s.change change = .ok s') :
    s'.MarksDirections d ↔ ∀ p ∈ change.given, d.admits p.1 p.2 = true := by
  cases change with
  | addColumn c =>
    rw [hs.marksDirections_addColumn_iff hnames h hchange]
    simp [SchemaChange.given]
  | dropColumn name =>
    exact iff_of_true (hs.marksDirections_dropColumn h hchange) nofun
  | retypeColumn name type =>
    rw [hs.marksDirections_retypeColumn_iff hnames h hchange]
    simp [SchemaChange.given]
  | setProperties p =>
    obtain ⟨-, rfl⟩ := setProperties_ok hchange
    exact iff_of_true { h with } nofun

/-- All tables that changes go through mark the directions if the first one does and all types that
the changes give are admitted, and only then. -/
theorem Consistent.marksDirections_throughout_iff (hs : s.Consistent)
    (hnames : s.clusteringColumns.map (·.name) = d.clusteringColumns) {changes : List SchemaChange}
    (hchanges : s.changeAll changes = .ok s') :
    (∀ before v, before <+: changes → s.changeAll before = .ok v → v.MarksDirections d) ↔
      s.MarksDirections d ∧ ∀ change ∈ changes, ∀ p ∈ change.given, d.admits p.1 p.2 = true := by
  induction changes generalizing s with
  | nil =>
    refine ⟨fun h => ⟨h [] s (List.prefix_refl []) rfl, nofun⟩, fun h before v hbefore hrun => ?_⟩
    obtain rfl := List.prefix_nil.1 hbefore
    cases hrun
    exact h.1
  | cons change rest ih =>
    obtain ⟨next, hnext, hrest⟩ := except_bind_eq_ok.1 hchanges
    have hplaces := KeepsPlaces.change hs hnext
    have ih := ih (hs.change hnext) (hplaces.clustering.trans hnames) hrest
    rw [List.forall_mem_cons]
    constructor
    · intro h
      have hfirst := h [] s (List.nil_prefix) rfl
      have hlater := ih.1 fun before v hbefore hrun =>
        h (change :: before) v ((List.prefix_cons_inj change).2 hbefore)
          (except_bind_eq_ok.2 ⟨next, hnext, hrun⟩)
      exact ⟨hfirst, (hs.marksDirections_change_iff hnames hfirst hnext).1 hlater.1, hlater.2⟩
    · rintro ⟨hfirst, hgiven, hlater⟩ before v hbefore hrun
      rcases List.prefix_cons_iff.1 hbefore with rfl | ⟨more, rfl, hmore⟩
      · cases hrun
        exact hfirst
      · obtain ⟨next', hnext', hrun⟩ := except_bind_eq_ok.1 hrun
        obtain rfl := Except.ok.inj (hnext.symm.trans hnext')
        exact ih.2 ⟨(hs.marksDirections_change_iff hnames hfirst hnext).2 hgiven, hlater⟩ more v
          hmore hrun

end TableSchema

/-! ### Histories -/

namespace TableDefinition

/-- **All versions of a table mark the directions of its clustering columns, and nothing else, if and
only if all types are admitted** that the columns were declared with and that changes gave them:
types without marks, or with a mark where they begin for a clustering column in descending order. -/
theorem marks_directions_iff {d : TableDefinition} {s₀ s : TableSchema}
    {changes : List SchemaChange} (hcompile : d.compile = .ok s₀)
    (hchanges : s₀.changeAll changes = .ok s) :
    (∀ before v, before <+: changes → s₀.changeAll before = .ok v → v.MarksDirections d) ↔
      (∀ c ∈ d.columns, d.admits c.name c.type = true) ∧
        ∀ change ∈ changes, ∀ p ∈ change.given, d.admits p.1 p.2 = true := by
  rw [(consistent_of_compile hcompile).marksDirections_throughout_iff
    (clusteringColumns_of_compile hcompile) hchanges, marksDirections_of_compile_iff hcompile]

/-- Of berths, the day is in descending order, whatever becomes of the table. -/
theorem marks_directions_berths :
    ∃ s₀ s, berthsDefinition.compile = .ok s₀ ∧ s₀.changeAll berthsChanges = .ok s ∧
      s.MarksDirections berthsDefinition ∧
      ∀ before v, before <+: berthsChanges → s₀.changeAll before = .ok v →
        v.MarksDirections berthsDefinition := by
  have hcompile : berthsDefinition.compile = .ok _ := rfl
  have hall := (marks_directions_iff hcompile
    (show TableSchema.changeAll _ berthsChanges = .ok _ from rfl)).2 (by decide)
  exact ⟨_, _, hcompile, rfl, hall berthsChanges _ (List.prefix_refl _) rfl, hall⟩

/-- The levels of rivers, in the order of a clustering column. -/
def markedLevelsDefinition : TableDefinition where
  keyspace := "rivers"
  name := "levels"
  columns := [⟨"river", .text, false⟩, ⟨"level", .descending (.scalar .int), false⟩]
  partitionKeys := [["river"]]

/-- **A regular column is marked** if it is declared with a mark. -/
theorem regular_column_marked :
    ∃ s c, markedLevelsDefinition.compile = .ok s ∧ c ∈ s.columns ∧ c.name = "level" ∧
      c.role = .regular ∧ c.type = .descending (.scalar .int) ∧
      ¬s.MarksDirections markedLevelsDefinition := by
  refine ⟨_, ⟨"level", .descending (.scalar .int), .regular, some 0⟩, rfl, ?_, rfl, rfl, rfl, ?_⟩
  · exact List.mem_of_mem_tail (List.mem_singleton_self _)
  · intro h
    have hmarked := h.columns _ (List.mem_of_mem_tail (List.mem_singleton_self _))
    exact absurd (hmarked.head.1 rfl).1 (by decide)

end TableDefinition

end WideColumn
