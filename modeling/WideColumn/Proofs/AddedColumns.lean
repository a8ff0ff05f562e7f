import WideColumn.Proofs.TableLayouts

/-!
# More columns

A column can be declared before its table is compiled, or it can be added to the table later.  The
compiler works out the whole table anew, and a change only mends it.  In a table that is not compact
the two come to the same.

* `withColumns` and `Admits` — a definition with more columns, and the columns that it has room for;
* `acceptable_withColumns_iff` — with more columns a definition still follows the rules if it has
  room for them;
* `looseTable` and `compile_loose_iff` — what is compiled without compact storage;
* `looseTable_addColumn_iff` — one more column in such a table;
* `compile_with_more_columns` — **adding columns to a table is compiling the definition with them**.
-/

namespace WideColumn

open Effects

theorem DefaultValue.counterOrBlob_concat (columns : List ColumnDeclaration)
    (c : ColumnDeclaration) :
    counterOrBlob (columns ++ [c]) =
      if c.type.isCounter then .counter else counterOrBlob columns := by
  unfold counterOrBlob
  rw [List.any_append]
  cases hcounter : c.type.isCounter <;> simp [hcounter]

namespace TableDefinition

/-! ### Definitions with more columns -/

/-- The definition with more columns after its own. -/
def withColumns (d : TableDefinition) (cs : List ColumnDeclaration) : TableDefinition :=
  { d with columns := d.columns ++ cs }

/-- Columns that a definition without compact storage has room for. -/
structure Admits (d : TableDefinition) (cs : List ColumnDeclaration) : Prop where
  names : ∀ c ∈ cs, Naming.IsWords c.name ∧ c.name.utf8ByteSize ≤ 65534
  apart : ((d.columns ++ cs).map (·.name)).Nodup
  counters : (∀ c ∈ d.otherColumns ++ cs, c.type.isCounter = true) ∨
    ∀ c ∈ d.otherColumns ++ cs, c.type.isCounter = false
  expiry : (∃ c ∈ cs, c.type.isCounter = true) → d.properties.defaultTimeToLive = 0
  static : (∃ c ∈ cs, c.isStatic = true) → d.clusteringColumns ≠ []

variable {d : TableDefinition} {cs : List ColumnDeclaration}

/-- There is room for fewer columns, too. -/
theorem Admits.sublist (h : d.Admits cs) {fewer : List ColumnDeclaration}
    (hfewer : fewer.Sublist cs) : d.Admits fewer where
  names := fun c hc => h.names c (hfewer.subset hc)
  apart := h.apart.sublist (((List.Sublist.refl _).append hfewer).map _)
  counters := by
    have hsub := ((List.Sublist.refl d.otherColumns).append hfewer).subset
    exact h.counters.imp (fun hall c hc => hall c (hsub hc)) fun hnone c hc => hnone c (hsub hc)
  expiry := fun ⟨c, hc, hcounter⟩ => h.expiry ⟨c, hfewer.subset hc, hcounter⟩
  static := fun ⟨c, hc, hstatic⟩ => h.static ⟨c, hfewer.subset hc, hstatic⟩

/-- Columns that are declared are found where they were. -/
theorem named_withColumns {names : List String} (h : ∀ name ∈ names, ∃ c, d.column? name = some c)
    (cs : List ColumnDeclaration) : (d.withColumns cs).named names = d.named names := by
  refine List.filterMap_congr fun name hin => ?_
  obtain ⟨c, hc⟩ := h name hin
  show (d.columns ++ cs).find? _ = d.column? name
  rw [hc, List.find?_append, show d.columns.find? (·.name = name) = some c from hc]
  rfl

namespace KeyDeclared

variable (h : d.KeyDeclared) (hnames : ((d.columns ++ cs).map (·.name)).Nodup)

include h hnames

/-- No further column belongs to the key. -/
theorem otherColumns_withColumns : (d.withColumns cs).otherColumns = d.otherColumns ++ cs := by
  show (d.columns ++ cs).filter (·.name ∉ d.keyNames) = _
  rw [List.filter_append]
  congr 1
  refine List.filter_eq_self.2 fun c hc => decide_eq_true fun hkey => ?_
  obtain ⟨c', hc', hname, -⟩ := h.declared c.name hkey
  rw [List.map_append] at hnames
  exact (List.nodup_append.1 hnames).2.2 _ (List.mem_map_of_mem hc') _ (List.mem_map_of_mem hc)
    hname

theorem parts_withColumns :
    (d.withColumns cs).parts = { d.parts with remaining := d.otherColumns ++ cs } := by
  have hdeclared : (d.columns.map (·.name)).Nodup :=
    hnames.sublist ((List.sublist_append_left _ _).map _)
  have hfound {names : List String} (hin : ∀ name ∈ names, name ∈ d.keyNames) :
      (d.withColumns cs).named names = d.named names :=
    named_withColumns (fun name hname => (h.column? hdeclared (hin name hname)).imp
      fun _ hc => hc.1) cs
  have hpartition := hfound fun _ hin => List.mem_append_left d.clusteringColumns hin
  have hclustering := hfound fun _ hin => List.mem_append_right d.partitionKeys.flatten hin
  rw [parts, h.otherColumns_withColumns hnames]
  show KeySplit.mk ((d.withColumns cs).named d.partitionKeys.flatten)
    (((d.withColumns cs).named d.clusteringColumns).map fun c => directed c (d.direction c.name))
    _ = _
  rw [hpartition, hclustering]
  rfl

omit hnames in
/-- More columns leave the key as it is. -/
theorem withColumns (cs : List ColumnDeclaration) : (d.withColumns cs).KeyDeclared where
  partitionKey := h.partitionKey
  apart := h.apart
  declared := by
    intro name hin
    obtain ⟨c, hc, hkey⟩ := h.declared name hin
    exact ⟨c, List.mem_append_left _ hc, hkey⟩
  order := h.order

end KeyDeclared

/-- **The rules for more columns**, added to a definition without compact storage. -/
theorem acceptable_withColumns_iff (hloose : d.compactStorage = false) (h : d.Acceptable) :
    (d.withColumns cs).Acceptable ↔ d.Admits cs := by
  constructor
  · intro hcs
    have hothers := h.key.otherColumns_withColumns hcs.apart
    have hcounters := hcs.counters
    have hexpiry := hcs.expiry
    rw [hothers] at hcounters hexpiry
    exact {
      names := fun c hc => hcs.columnNames c (List.mem_append_right _ hc)
      apart := hcs.apart
      counters := hcounters
      expiry := fun ⟨c, hc, hcounter⟩ => hexpiry ⟨c, List.mem_append_right _ hc, hcounter⟩
      static := fun ⟨c, hc, hstatic⟩ =>
        (hcs.static ⟨c, List.mem_append_right _ hc, hstatic⟩).2 }
  · intro hcs
    have hothers := h.key.otherColumns_withColumns hcs.apart
    have hcompact : (d.withColumns cs).compactStorage = true → False := fun hcompact => by
      rw [show (d.withColumns cs).compactStorage = false from hloose] at hcompact
      cases hcompact
    exact {
      name := h.name
      columnNames := List.forall_mem_append.2 ⟨h.columnNames, hcs.names⟩
      apart := hcs.apart
      timeToLive := h.timeToLive
      key := h.key.withColumns cs
      counters := by
        rw [hothers]
        exact hcs.counters
      expiry := by
        rw [hothers]
        rintro ⟨c, hc, hcounter⟩
        rcases List.mem_append.1 hc with hc | hc
        · exact h.expiry ⟨c, hc, hcounter⟩
        · exact hcs.expiry ⟨c, hc, hcounter⟩
      static := by
        rintro ⟨c, hc, hstatic⟩
        refine ⟨hloose, ?_⟩
        rcases List.mem_append.1 hc with hc | hc
        · exact (h.static ⟨c, hc, hstatic⟩).2
        · exact hcs.static ⟨c, hc, hstatic⟩
      collections := fun hc => (hcompact hc).elim
      values := fun hc => (hcompact hc).elim }

/-! ### Tables that are not compact -/

/-- The layout of cell names without compact storage. -/
def looseLayout (d : TableDefinition) : CellLayout :=
  .compoundSparse d.parts.clusteringTypes
    (if d.collections.isEmpty then none else some d.collections)

theorem looseLayout_withCollection? (d : TableDefinition) (name : String) (type : ColumnType) :
    d.looseLayout.withCollection? name type =
      some (.compoundSparse d.parts.clusteringTypes (some (d.collections.insert name type))) := by
  unfold looseLayout CellLayout.withCollection?
  cases d.collections <;> rfl

/-- The table without compact storage. -/
def looseTable (d : TableDefinition) : TableSchema :=
  d.table d.parts d.looseLayout { type := DefaultValue.counterOrBlob d.otherColumns }

/-- What is compiled without compact storage. -/
theorem compile_loose_iff (hloose : d.compactStorage = false) {s : TableSchema} :
    d.compile = .ok s ↔ d.Acceptable ∧ s = d.looseTable := by
  rw [compile_eq_ok_iff_acceptable, hloose]
  simp [CellLayout.choose?, DefaultValue.resolve, looseTable, looseLayout]

namespace Acceptable

variable (h : d.Acceptable)

include h

theorem looseTable_names : (d.looseTable.columns.map (·.name)).Perm (d.columns.map (·.name)) := by
  refine List.Perm.trans ?_ (h.arranged_perm.map _)
  rw [looseTable, table_names, h.arranged_names, keyNames, List.map_append, List.map_append,
    h.key.partitionKey_names h.apart, h.key.clustering_names h.apart, parts_remaining]

theorem looseTable_column?_eq_none_iff {name : String} :
    d.looseTable.column? name = none ↔ name ∉ d.columns.map (·.name) := by
  rw [← h.looseTable_names.mem_iff]
  simp [TableSchema.column?]

theorem looseTable_valueTypes (hloose : d.compactStorage = false) :
    d.looseTable.valueColumns.map (·.type) = d.otherColumns.map (·.type) := by
  have hconsistent := consistent_of_compile ((compile_loose_iff hloose).2 ⟨h, rfl⟩)
  rw [hconsistent.valueColumns_of_sparse rfl, looseTable, (table_columns _ _ _ _).2.2, valueParts,
    List.map_map]
  exact List.map_congr_left fun c _ => valueRole_type _ _ c

variable {c : ColumnDeclaration} (hnames : ((d.columns ++ [c]).map (·.name)).Nodup)

include hnames

/-- The collections are recorded in the order in which they are declared. -/
theorem collections_withColumn : (d.withColumns [c]).collections =
    if c.isMultiCell then d.collections.insert c.name c.type else d.collections := by
  unfold TableDefinition.collections KeySplit.multiCell
  rw [h.key.parts_withColumns hnames, List.filter_append, List.map_append]
  cases hmulti : c.isMultiCell <;> simp [hmulti, Bindings.ofList_concat]

/-- The layout has room for another column. -/
theorem looseTable_layoutWith (hloose : d.compactStorage = false) :
    d.looseTable.layoutWith c = .ok (d.withColumns [c]).looseLayout := by
  have htypes : (d.withColumns [c]).parts.clusteringTypes = d.parts.clusteringTypes := by
    rw [h.key.parts_withColumns hnames]
    rfl
  have hcompact : d.looseTable.isCompact = false := hloose
  rw [looseLayout, htypes, h.collections_withColumn hnames, TableSchema.layoutWith, hcompact]
  cases hmulti : c.isMultiCell with
  | false => rfl
  | true =>
    have hroom : d.looseTable.cellLayout.withCollection? c.name c.type =
        some (.compoundSparse d.parts.clusteringTypes
          (some (d.collections.insert c.name c.type))) :=
      d.looseLayout_withCollection? c.name c.type
    simp [hroom, Bindings.insert_ne_nil]

/-- The table with another column is the table of the definition with it. -/
theorem looseTable_withColumn (hloose : d.compactStorage = false) :
    d.looseTable.withColumn c (d.withColumns [c]).looseLayout =
      (d.withColumns [c]).looseTable := by
  have hparts := h.key.parts_withColumns hnames
  have hkeyLayout : (d.withColumns [c]).looseTable.keyLayout = d.looseTable.keyLayout := by
    rw [looseTable, hparts]
    rfl
  have hdefault : (d.withColumns [c]).looseTable.defaultType =
      if !d.looseTable.isCompact && c.type.isCounter then .counter
      else d.looseTable.defaultType := by
    rw [show d.looseTable.isCompact = false from hloose]
    show DefaultValue.counterOrBlob (d.withColumns [c]).otherColumns = _
    rw [h.key.otherColumns_withColumns hnames, DefaultValue.counterOrBlob_concat]
    rfl
  have hcolumns : (d.withColumns [c]).looseTable.columns =
      d.looseTable.columns ++ [d.looseTable.newColumn c] := by
    have hslot : d.looseTable.columnSlot = some d.parts.clusteringTypes.length := rfl
    rw [TableSchema.newColumn, hslot, KeySplit.clusteringTypes, List.length_map, looseTable,
      hparts]
    show _ ++ List.map _ (d.otherColumns ++ [c]) = _
    rw [List.map_append, ← List.append_assoc]
    rfl
  rw [TableSchema.withColumn, ← hkeyLayout, ← hdefault, ← hcolumns]
  rfl

end Acceptable

/-- **One more column**: it can be added if the definition has room for it, and this gives the table
of the definition with it. -/
theorem looseTable_addColumn_iff (hloose : d.compactStorage = false) (h : d.Acceptable)
    {c : ColumnDeclaration} {s : TableSchema} :
    d.looseTable.addColumn c = .ok s ↔ d.Admits [c] ∧ s = (d.withColumns [c]).looseTable := by
  have hnodup : ((d.columns ++ [c]).map (·.name)).Nodup ↔ c.name ∉ d.columns.map (·.name) := by
    rw [List.map_append, List.map_singleton, List.nodup_append]
    simp [h.apart]
  have hrows : d.looseTable.cellLayout.clusteringTypes ≠ [] ↔ d.clusteringColumns ≠ [] := by
    rw [Ne, Ne, ← h.key.clustering_eq_nil_iff h.apart]
    exact not_congr List.map_eq_nil_iff
  have hcounters : checkCounters (d.looseTable.valueColumns.map (·.type) ++ [c.type]) = .ok () ↔
      (∀ other ∈ d.otherColumns ++ [c], other.type.isCounter = true) ∨
        ∀ other ∈ d.otherColumns ++ [c], other.type.isCounter = false := by
    rw [h.looseTable_valueTypes hloose, checkCounters_eq_ok_iff]
    simp only [List.forall_mem_append, List.forall_mem_map, List.forall_mem_singleton]
  have hone {p : ColumnDeclaration → Prop} : (∃ other ∈ [c], p other) ↔ p c := by simp
  rw [TableSchema.addColumn_eq_ok_iff]
  constructor
  · rintro ⟨layout, hadded, hexpiry, rfl⟩
    have hnames := hnodup.2 (h.looseTable_column?_eq_none_iff.1 hadded.fresh)
    obtain rfl : (d.withColumns [c]).looseLayout = layout :=
      Except.ok.inj ((h.looseTable_layoutWith hnames hloose).symm.trans hadded.layout)
    refine ⟨?_, h.looseTable_withColumn hnames hloose⟩
    exact {
      names := List.forall_mem_singleton.2 (Naming.checkColumnName_eq_ok_iff.1 hadded.name)
      apart := hnames
      counters := hcounters.1 hadded.counters
      expiry := fun hcounter => hexpiry (hone.1 hcounter)
      static := fun hstatic => hrows.1 (hadded.static (hone.1 hstatic)).2 }
  · rintro ⟨hc, rfl⟩
    refine ⟨_, ?_, fun hcounter => hc.expiry (hone.2 hcounter),
      (h.looseTable_withColumn hc.apart hloose).symm⟩
    exact {
      name := Naming.checkColumnName_eq_ok_iff.2 (hc.names c (List.mem_singleton_self c))
      fresh := h.looseTable_column?_eq_none_iff.2 (hnodup.1 hc.apart)
      sparse := rfl
      static := fun hstatic => ⟨hloose, hrows.2 (hc.static (hone.2 hstatic))⟩
      layout := h.looseTable_layoutWith hc.apart hloose
      counters := hcounters.2 hc.counters }

/-- Adding a column to a compiled table is compiling the definition with the column. -/
theorem addColumn_iff_compile {s s' : TableSchema} (h : d.compile = .ok s)
    (hloose : d.compactStorage = false) (c : ColumnDeclaration) :
    s.addColumn c = .ok s' ↔ (d.withColumns [c]).compile = .ok s' := by
  obtain ⟨hd, rfl⟩ := (compile_loose_iff hloose).1 h
  rw [looseTable_addColumn_iff hloose hd, compile_loose_iff (d := d.withColumns [c]) hloose,
    acceptable_withColumns_iff hloose hd]

/-- So it is with several columns, one after the other. -/
theorem addColumns_iff_compile {s s' : TableSchema} (h : d.compile = .ok s)
    (hloose : d.compactStorage = false) (cs : List ColumnDeclaration) :
    s.changeAll (cs.map .addColumn) = .ok s' ↔ (d.withColumns cs).compile = .ok s' := by
  induction cs generalizing d s with
  | nil =>
    rw [withColumns, List.append_nil, h]
    exact Iff.rfl
  | cons c rest ih =>
    have hrest : d.withColumns (c :: rest) = (d.withColumns [c]).withColumns rest := by
      simp [withColumns]
    rw [List.map_cons, TableSchema.changeAll, List.foldlM_cons, except_bind_eq_ok]
    constructor
    · rintro ⟨next, hnext, hchanges⟩
      have hcompile := (addColumn_iff_compile h hloose c).1 hnext
      rw [hrest]
      exact (ih hcompile hloose).1 hchanges
    · -- The definition with all columns compiles, so the one with the first of them does.
      intro hall
      obtain ⟨hd, -⟩ := (compile_loose_iff hloose).1 h
      obtain ⟨hacceptable, -⟩ := (compile_loose_iff (d := d.withColumns (c :: rest)) hloose).1 hall
      have hfirst := ((acceptable_withColumns_iff hloose hd).1 hacceptable).sublist
        (List.singleton_sublist.2 List.mem_cons_self)
      have hcompile := (compile_loose_iff (d := d.withColumns [c]) hloose).2
        ⟨(acceptable_withColumns_iff hloose hd).2 hfirst, rfl⟩
      rw [hrest] at hall
      exact ⟨_, (addColumn_iff_compile h hloose c).2 hcompile, (ih hcompile hloose).2 hall⟩

/-- **Adding columns to a table is compiling the definition with them.**  The one succeeds if and
only if the other does, and then they give the same table. -/
theorem compile_with_more_columns {s : TableSchema} (h : d.compile = .ok s)
    (hloose : d.compactStorage = false) :
    (∀ c s', s.addColumn c = .ok s' ↔ (d.withColumn c).compile = .ok s') ∧
      ∀ cs s', s.changeAll (cs.map .addColumn) = .ok s' ↔ (d.withColumns cs).compile = .ok s' :=
  ⟨fun c _ => addColumn_iff_compile h hloose c, fun cs _ => addColumns_iff_compile h hloose cs⟩

/-- What sightings are to have, too: an hour of sunrise for each site, rings, and a count. -/
def sightingsMore : List ColumnDeclaration :=
  [⟨"sunrise", .scalar .int, true⟩, ⟨"rings", .set (.scalar .uuid) false, false⟩,
    ⟨"birds", .scalar .int, false⟩]

theorem compile_with_more_columns_sightings :
    ∃ s s', sightingsDefinition.compile = .ok s ∧ sightingsDefinition.compactStorage = false ∧
      s.changeAll (sightingsMore.map .addColumn) = .ok s' ∧
      (sightingsDefinition.withColumns sightingsMore).compile = .ok s' := by
  have hcompile : sightingsDefinition.compile = .ok _ := rfl
  refine ⟨_, _, hcompile, rfl, rfl, ?_⟩
  exact ((compile_with_more_columns hcompile rfl).2 sightingsMore _).1 rfl

end TableDefinition

end WideColumn
