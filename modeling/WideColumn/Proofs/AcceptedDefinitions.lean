import WideColumn.Proofs.CompiledTables
import WideColumn.Proofs.KeySplits
import WideColumn.Proofs.SortedBindings

/-!
# Definitions that compile

The rules for table definitions, said of the declarations alone.  The compiler checks them one
after the other, some of them on columns that it has sorted by then; what it accepts is the same.

* `checkName_eq_ok_iff`, `checkColumnName_eq_ok_iff` — the names that are valid;
* `Acceptable` — the rules;
* `compile_eq_ok_iff_acceptable` — the compiler gives the table of the declared parts for a
  definition that follows the rules, and nothing for any other;
* `compiles_iff_acceptable` — **a definition compiles if and only if it follows the rules**.
-/

namespace WideColumn

open Effects

/-! ### Valid names -/

namespace Naming

/-- A text of letters, digits and underscores that is not empty. -/
def IsWords (name : String) : Prop :=
  name ≠ "" ∧ ∀ c ∈ name.toList, Text.isAlphanumeric c = true ∨ c = '_'

theorem isWordText_eq_true_iff {name : String} : isWordText name = true ↔ IsWords name := by
  simp [isWordText, isWord, IsWords]

theorem checkName_eq_ok_iff {name : String} :
    checkName name = .ok () ↔ IsWords name ∧ name.length ≤ 48 := by
  unfold checkName
  rw [ite_error_eq_ok, ite_error_eq_ok, ← isWordText_eq_true_iff]
  simp [maxLength]

theorem checkColumnName_eq_ok_iff {name : String} :
    checkColumnName name = .ok () ↔ IsWords name ∧ name.utf8ByteSize ≤ 65534 := by
  unfold checkColumnName
  rw [ite_error_eq_ok, ← isWordText_eq_true_iff]
  simp only [Bool.or_eq_true, Bool.not_eq_true', decide_eq_true_eq, not_or, Bool.not_eq_false,
    Nat.not_lt, and_true]
  exact Iff.rfl

end Naming

theorem TableProperties.check_eq_ok_iff {p : TableProperties} :
    p.check = .ok () ↔ p.defaultTimeToLive ≤ maxTimeToLive := by
  unfold check
  rw [ite_error_eq_ok]
  simp

namespace TableDefinition

/-! ### The rules -/

/-- The rules for definitions. -/
structure Acceptable (d : TableDefinition) : Prop where
  name : Naming.IsWords d.name ∧ d.name.length ≤ 48
  columnNames : ∀ c ∈ d.columns, Naming.IsWords c.name ∧ c.name.utf8ByteSize ≤ 65534
  apart : (d.columns.map (·.name)).Nodup
  timeToLive : d.properties.defaultTimeToLive ≤ TableProperties.maxTimeToLive
  key : d.KeyDeclared
  /-- Counters are only beside counters. -/
  counters : (∀ c ∈ d.otherColumns, c.type.isCounter = true) ∨
    ∀ c ∈ d.otherColumns, c.type.isCounter = false
  /-- Counters do not expire. -/
  expiry : (∃ c ∈ d.otherColumns, c.type.isCounter = true) → d.properties.defaultTimeToLive = 0
  /-- Static columns have rows to be shared by. -/
  static : (∃ c ∈ d.columns, c.isStatic = true) →
    d.compactStorage = false ∧ d.clusteringColumns ≠ []
  collections : d.compactStorage = true → ∀ c ∈ d.otherColumns, c.type.isMultiCell = false
  /-- A row of a compact table has one value at most. -/
  values : d.compactStorage = true → d.clusteringColumns ≠ [] → d.otherColumns.length ≤ 1

/-- The multi-cell collections outside the key, with their types. -/
def collections (d : TableDefinition) : CollectionTypes :=
  Bindings.ofList (d.parts.multiCell.map fun c => (c.name, c.type))

variable {d : TableDefinition}

theorem collections_eq_nil_iff :
    d.collections = [] ↔ ∀ c ∈ d.otherColumns, c.type.isMultiCell = false := by
  rw [collections, Bindings.ofList_eq_nil_iff, List.map_eq_nil_iff, KeySplit.multiCell,
    List.filter_eq_nil_iff]
  simp [ColumnDeclaration.isMultiCell]

theorem hasCounters_parts :
    d.parts.hasCounters = true ↔ ∃ c ∈ d.otherColumns, c.type.isCounter = true := by
  simp [KeySplit.hasCounters]

/-- No key column is static, so the static columns are outside the key. -/
theorem KeyDeclared.hasStatic (h : d.KeyDeclared) (hnames : (d.columns.map (·.name)).Nodup) :
    d.parts.hasStatic = true ↔ ∃ c ∈ d.columns, c.isStatic = true := by
  simp only [KeySplit.hasStatic, parts_remaining, otherColumns, List.any_eq_true]
  constructor
  · rintro ⟨c, hc, hstatic⟩
    exact ⟨c, List.mem_of_mem_filter hc, hstatic⟩
  · rintro ⟨c, hc, hstatic⟩
    refine ⟨c, List.mem_filter.2 ⟨hc, decide_eq_true fun hin => ?_⟩, hstatic⟩
    rw [(h.fitsKey hnames hc hin).static] at hstatic
    cases hstatic

/-! ### The compiler -/

/-- A definition that passed every check follows the rules. -/
theorem Compiled.acceptable {k : KeySplit} {layout : CellLayout} {default : DefaultValue}
    (h : d.Compiled k layout default)
    (hexpiry : k.hasCounters = true → d.properties.defaultTimeToLive = 0) :
    d.Acceptable ∧ k = d.parts := by
  obtain ⟨hcolumns, hnames⟩ := checkColumnNames_eq_ok_iff.1 h.columnNames
  obtain ⟨hkey, rfl⟩ := (keySplit_eq_ok_iff hnames).1 h.keySplit
  have hrows := not_congr (hkey.clustering_eq_nil_iff hnames)
  refine ⟨?_, rfl⟩
  exact {
    name := Naming.checkName_eq_ok_iff.1 h.name
    columnNames := fun c hc => Naming.checkColumnName_eq_ok_iff.1 (hcolumns c hc).1
    apart := hnames
    timeToLive := TableProperties.check_eq_ok_iff.1 h.properties
    key := hkey
    counters := by simpa using checkCounters_eq_ok_iff.1 h.counters
    expiry := fun hcounter => hexpiry (hasCounters_parts.2 hcounter)
    static := by
      intro hstatic
      obtain ⟨hloose, hclustering⟩ :=
        checkStatic_eq_ok_iff.1 h.static ((hkey.hasStatic hnames).2 hstatic)
      exact ⟨hloose, hrows.1 hclustering⟩
    collections := fun hcompact => collections_eq_nil_iff.1
      (CellLayout.choose?_exists_iff.1 ⟨layout, h.layout⟩ hcompact)
    values := fun hcompact hclustering => DefaultValue.resolve_exists_iff.1 ⟨default, h.default⟩
      hcompact (by simpa using hrows.2 hclustering) }

/-- A definition that follows the rules passes every check. -/
theorem Acceptable.compiled (h : d.Acceptable) {layout : CellLayout} {default : DefaultValue}
    (hlayout : CellLayout.choose? d.parts.clusteringTypes d.compactStorage d.collections =
      some layout)
    (hdefault : DefaultValue.resolve d.compactStorage d.parts.clustering.length d.otherColumns =
      .ok default) : d.Compiled d.parts layout default where
  name := Naming.checkName_eq_ok_iff.2 h.name
  columnNames := checkColumnNames_eq_ok_iff.2 ⟨fun c hc =>
    ⟨Naming.checkColumnName_eq_ok_iff.2 (h.columnNames c hc), List.not_mem_nil⟩, h.apart⟩
  properties := TableProperties.check_eq_ok_iff.2 h.timeToLive
  keySplit := (keySplit_eq_ok_iff h.apart).2 ⟨h.key, rfl⟩
  counters := checkCounters_eq_ok_iff.2 (by simpa using h.counters)
  static := by
    refine checkStatic_eq_ok_iff.2 fun hstatic => ?_
    obtain ⟨hloose, hclustering⟩ := h.static ((h.key.hasStatic h.apart).1 hstatic)
    exact ⟨hloose, mt (h.key.clustering_eq_nil_iff h.apart).1 hclustering⟩
  layout := hlayout
  default := hdefault

/-- **The compiler**: a definition that follows the rules gives the table of its parts. -/
theorem compile_eq_ok_iff_acceptable {s : TableSchema} :
    d.compile = .ok s ↔ d.Acceptable ∧ ∃ layout default,
      CellLayout.choose? d.parts.clusteringTypes d.compactStorage d.collections = some layout ∧
      DefaultValue.resolve d.compactStorage d.parts.clustering.length d.otherColumns =
        .ok default ∧
      s = d.table d.parts layout default := by
  rw [compile_eq_ok_iff]
  constructor
  · rintro ⟨k, layout, default, h, hexpiry, rfl⟩
    obtain ⟨hacceptable, rfl⟩ := h.acceptable hexpiry
    exact ⟨hacceptable, layout, default, h.layout, h.default, rfl⟩
  · rintro ⟨h, layout, default, hlayout, hdefault, rfl⟩
    exact ⟨d.parts, layout, default, h.compiled hlayout hdefault,
      fun hcounters => h.expiry (hasCounters_parts.1 hcounters), rfl⟩

/-- For a definition that follows the rules there are a layout and a default. -/
theorem Acceptable.exists_table (h : d.Acceptable) :
    ∃ layout default,
      CellLayout.choose? d.parts.clusteringTypes d.compactStorage d.collections = some layout ∧
      DefaultValue.resolve d.compactStorage d.parts.clustering.length d.otherColumns =
        .ok default := by
  obtain ⟨layout, hlayout⟩ := CellLayout.choose?_exists_iff.2 fun hcompact =>
    collections_eq_nil_iff.2 (h.collections hcompact)
  have hvalues (hcompact : d.compactStorage = true) (hcount : d.parts.clustering.length ≠ 0) :
      d.otherColumns.length ≤ 1 := by
    refine h.values hcompact (mt (h.key.clustering_eq_nil_iff h.apart).2 ?_)
    simpa using hcount
  obtain ⟨default, hdefault⟩ := DefaultValue.resolve_exists_iff.2 hvalues
  exact ⟨layout, default, hlayout, hdefault⟩

/-- **A definition compiles if and only if it follows the rules.** -/
theorem compiles_iff_acceptable (d : TableDefinition) :
    (∃ s, d.compile = .ok s) ↔ d.Acceptable := by
  constructor
  · rintro ⟨s, hs⟩
    exact (compile_eq_ok_iff_acceptable.1 hs).1
  · intro h
    obtain ⟨layout, default, hlayout, hdefault⟩ := h.exists_table
    exact ⟨_, compile_eq_ok_iff_acceptable.2 ⟨h, layout, default, hlayout, hdefault, rfl⟩⟩

end TableDefinition

end WideColumn
