import WideColumn.Proofs.AcceptedDefinitions
import WideColumn.Proofs.ConsistentTables

/-!
# The table of a definition

What a definition is compiled to, said of its declarations: the columns stand in the order of their
parts, and the layout of cell names, the type of values without a column and the value column are
read off tables with one row for each kind of definition.

* `arranged`, `keptType`, `keptRole` — the declared columns in the order of the table, the types
  under which they are kept and the parts that they play;
* `LayoutRule`, `DefaultRule`, `ValueRule` — the three tables, one constructor a row;
* `laidOut_of_compile` — **a compiled table is laid out by these rules**;
* `missing_value_marked_without_clustering` — a compact table without clustering columns is marked
  for its missing value column, too.
-/

namespace WideColumn

/-! ### The rules -/

/-- The layout of cell names, by the types of the clustering columns, compact storage and the
multi-cell collections outside the key. -/
inductive LayoutRule : List ColumnType → Bool → CollectionTypes → CellLayout → Prop
  | compactStatic : LayoutRule [] true [] (.simpleSparse .text)
  | compactOne (t : ColumnType) : LayoutRule [t] true [] (.simpleDense t)
  | compactSeveral {types : List ColumnType} (h : 2 ≤ types.length) :
      LayoutRule types true [] (.compoundDense types)
  | plain (types : List ColumnType) : LayoutRule types false [] (.compoundSparse types none)
  | withCollections (types : List ColumnType) {collections : CollectionTypes}
      (h : collections ≠ []) :
      LayoutRule types false collections (.compoundSparse types (some collections))

/-- The type of values without a column, by the number of clustering columns, compact storage and
the columns outside the key. -/
inductive DefaultRule : Nat → Bool → List ColumnDeclaration → ColumnType → Prop
  | name : DefaultRule 1 true [] .text
  | nothing {count : Nat} (h : count ≠ 1) : DefaultRule count true [] .blob
  | single {count : Nat} (c : ColumnDeclaration) : DefaultRule count true [c] c.type
  | counters {count : Nat} {compact : Bool} {others : List ColumnDeclaration}
      (h : compact = false ∨ count = 0 ∧ 2 ≤ others.length)
      (hcounter : ∃ c ∈ others, c.type.isCounter = true) :
      DefaultRule count compact others .counter
  | bytes {count : Nat} {compact : Bool} {others : List ColumnDeclaration}
      (h : compact = false ∨ count = 0 ∧ 2 ≤ others.length)
      (hcounter : ∀ c ∈ others, c.type.isCounter = false) :
      DefaultRule count compact others .blob

/-- The value column, by the number of clustering columns, compact storage and the columns outside
the key. -/
inductive ValueRule : Nat → Bool → List ColumnDeclaration → Option CompactValue → Prop
  | loose (count : Nat) (others : List ColumnDeclaration) : ValueRule count false others none
  | column {count : Nat} (h : count ≠ 0) (c : ColumnDeclaration) :
      ValueRule count true [c] (some (.column c.name))
  | empty (count : Nat) : ValueRule count true [] (some .empty)
  | named {others : List ColumnDeclaration} (h : others ≠ []) : ValueRule 0 true others none

theorem layoutRule_of_choose? {types : List ColumnType} {compact : Bool}
    {collections : CollectionTypes} {layout : CellLayout}
    (h : CellLayout.choose? types compact collections = some layout) :
    LayoutRule types compact collections layout := by
  cases compact with
  | true =>
    obtain rfl := CellLayout.choose?_exists_iff.1 ⟨layout, h⟩ rfl
    rcases types with _ | ⟨t, _ | ⟨t', rest⟩⟩
    · cases h
      exact .compactStatic
    · cases h
      exact .compactOne t
    · cases h
      exact .compactSeveral (by simp)
  | false =>
    cases collections with
    | nil =>
      cases h
      exact .plain types
    | cons first rest =>
      cases h
      exact .withCollections types (List.cons_ne_nil _ _)

theorem defaultRule_counterOrBlob {count : Nat} {compact : Bool} {others : List ColumnDeclaration}
    (h : compact = false ∨ count = 0 ∧ 2 ≤ others.length) :
    DefaultRule count compact others (DefaultValue.counterOrBlob others) := by
  unfold DefaultValue.counterOrBlob
  split
  · rename_i hcounter
    exact .counters h (List.any_eq_true.1 hcounter)
  · rename_i hcounter
    exact .bytes h (by simpa using hcounter)

theorem defaultRule_of_resolve {count : Nat} {compact : Bool} {others : List ColumnDeclaration}
    {default : DefaultValue} (h : DefaultValue.resolve compact count others = .ok default) :
    DefaultRule count compact others default.type ∧
      ValueRule count compact others default.compactValue := by
  cases compact with
  | false =>
    cases h
    exact ⟨defaultRule_counterOrBlob (.inl rfl), .loose count others⟩
  | true =>
    rcases others with _ | ⟨c, _ | ⟨c', rest⟩⟩
    · rcases count with _ | _ | count
      · cases h
        exact ⟨.nothing (by simp), .empty _⟩
      · cases h
        exact ⟨.name, .empty _⟩
      · cases h
        exact ⟨.nothing (by simp), .empty _⟩
    · rcases count with _ | _ | count
      · cases h
        exact ⟨.single c, .named (List.cons_ne_nil _ _)⟩
      · cases h
        exact ⟨.single c, .column (by simp) c⟩
      · cases h
        exact ⟨.single c, .column (by simp) c⟩
    · rcases count with _ | _ | count
      · cases h
        exact ⟨defaultRule_counterOrBlob (.inr ⟨rfl, by simp⟩), .named (List.cons_ne_nil _ _)⟩
      · cases h
      · cases h

namespace TableDefinition

/-! ### The columns -/

/-- The declared columns in the order of the table: the partition key, the clustering columns, and
all others as they were declared. -/
def arranged (d : TableDefinition) : List ColumnDeclaration :=
  d.named d.partitionKeys.flatten ++ d.named d.clusteringColumns ++ d.otherColumns

/-- The type under which a column is kept. -/
def keptType (d : TableDefinition) (c : ColumnDeclaration) : ColumnType :=
  if c.name ∈ d.clusteringColumns ∧ d.direction c.name = .desc then c.type.descend else c.type

/-- The part that a column plays. -/
def keptRole (d : TableDefinition) (c : ColumnDeclaration) : ColumnRole :=
  if c.name ∈ d.partitionKeys.flatten then .partitionKey
  else if c.name ∈ d.clusteringColumns then .clusteringKey
  else if c.isStatic = true then .static
  else if d.compactStorage = true ∧ d.clusteringColumns ≠ [] ∧ d.otherColumns = [c] then
    .compactValue
  else .regular

theorem directed_type (c : ColumnDeclaration) (direction : Direction) :
    (directed c direction).type = if direction = .desc then c.type.descend else c.type := by
  cases direction <;> rfl

theorem keyRoles_parts (role : ColumnRole) (isComposite : Bool)
    (columns : List ColumnDeclaration) :
    (keyRoles role isComposite columns).map (fun c => (c.name, c.type, c.role)) =
      columns.map fun c => (c.name, c.type, role) :=
  keyRoles_map (fun _ _ => rfl) isComposite columns

variable {d : TableDefinition}

/-- The clustering columns are kept in the directions asked for. -/
theorem clusteringTypes_parts (h : (d.columns.map (·.name)).Nodup) :
    d.parts.clusteringTypes = (d.named d.clusteringColumns).map d.keptType := by
  rw [KeySplit.clusteringTypes, parts, List.map_map]
  refine List.map_congr_left fun c hc => ?_
  show (directed c (d.direction c.name)).type = d.keptType c
  rw [directed_type, keptType]
  simp [((mem_named_iff h).1 hc).2]

namespace Acceptable

variable (h : d.Acceptable)

include h

theorem arranged_names :
    d.arranged.map (·.name) = d.keyNames ++ d.otherColumns.map (·.name) := by
  rw [arranged, List.map_append, List.map_append, keyNames]
  rw [named_names fun _ hin => h.key.column? h.apart (List.mem_append_left _ hin),
    named_names fun _ hin => h.key.column? h.apart (List.mem_append_right _ hin)]

/-- No column is lost, and none has two places. -/
theorem arranged_perm : d.arranged.Perm d.columns := by
  have hnodup : (d.arranged.map (·.name)).Nodup := by
    rw [h.arranged_names]
    refine List.nodup_append.2 ⟨h.key.apart, h.apart.sublist (List.filter_sublist.map _), ?_⟩
    rintro name hin _ hother rfl
    obtain ⟨c, hc, rfl⟩ := List.mem_map.1 hother
    exact of_decide_eq_true (List.mem_filter.1 hc).2 hin
  refine (List.perm_ext_iff_of_nodup hnodup.of_map h.apart.of_map).2 fun c => ?_
  simp only [arranged, List.mem_append, mem_named_iff h.apart, otherColumns, List.mem_filter,
    decide_eq_true_eq, keyNames]
  tauto

/-- A column is the value column if it is the only one outside the key of a compact table with
clustering columns. -/
theorem valueColumn_iff {default : DefaultValue}
    (hdefault : DefaultValue.resolve d.compactStorage d.parts.clustering.length d.otherColumns =
      .ok default) {c : ColumnDeclaration} (hc : c ∈ d.otherColumns) :
    default.compactValue.bind CompactValue.name? = some c.name ↔
      d.compactStorage = true ∧ d.clusteringColumns ≠ [] ∧ d.otherColumns = [c] := by
  rw [name?_eq_some_iff, resolve_column hdefault, Ne, List.length_eq_zero_iff,
    h.key.clustering_eq_nil_iff h.apart]
  refine and_congr_right fun _ => and_congr_right fun _ =>
    ⟨fun hnames => ?_, fun hsingle => by rw [hsingle]; rfl⟩
  obtain ⟨c', hother, -⟩ := List.map_eq_singleton_iff.1 hnames
  rw [hother] at hc ⊢
  rw [List.mem_singleton.1 hc]

/-- The parts that the columns outside the key play. -/
theorem valueRole_role_eq {default : DefaultValue}
    (hdefault : DefaultValue.resolve d.compactStorage d.parts.clustering.length d.otherColumns =
      .ok default) (slot : Option Nat) {c : ColumnDeclaration} (hc : c ∈ d.otherColumns) :
    (valueRole (default.compactValue.bind CompactValue.name?) slot c).role = d.keptRole c := by
  have hvalue := h.valueColumn_iff hdefault hc
  obtain ⟨hmem, hkey⟩ := List.mem_filter.1 hc
  have hkey := of_decide_eq_true hkey
  simp only [keyNames, List.mem_append, not_or] at hkey
  rw [keptRole, if_neg hkey.1, if_neg hkey.2, ← if_congr hvalue rfl rfl, valueRole]
  cases hstatic : c.isStatic with
  | true =>
    have hloose := (h.static ⟨c, hmem, hstatic⟩).1
    rw [if_neg fun hsome => by simpa [hloose] using (hvalue.1 hsome).1]
    rfl
  | false =>
    by_cases hsome : default.compactValue.bind CompactValue.name? = some c.name <;> simp [hsome]

/-- Names, types and parts of the columns. -/
theorem table_parts (layout : CellLayout) {default : DefaultValue}
    (hdefault : DefaultValue.resolve d.compactStorage d.parts.clustering.length d.otherColumns =
      .ok default) :
    (d.table d.parts layout default).columns.map (fun c => (c.name, c.type, c.role)) =
      d.arranged.map fun c => (c.name, d.keptType c, d.keptRole c) := by
  have hapart := List.nodup_append.1 h.key.apart
  rw [table, arranged]
  simp only [List.map_append, keyRoles_parts]
  congr 1
  · congr 1
    · refine List.map_congr_left fun c hc => ?_
      have hin := ((mem_named_iff h.apart).1 hc).2
      have hnot : c.name ∉ d.clusteringColumns := fun hin' => hapart.2.2 _ hin _ hin' rfl
      simp [keptRole, keptType, hin, hnot]
    · rw [parts, List.map_map]
      refine List.map_congr_left fun c hc => ?_
      have hin := ((mem_named_iff h.apart).1 hc).2
      have hnot : c.name ∉ d.partitionKeys.flatten := fun hin' => hapart.2.2 _ hin' _ hin rfl
      simp only [Function.comp_apply, directed_name, directed_type, keptRole, keptType, hin, hnot,
        true_and, if_true, if_false]
  · rw [parts_remaining, List.map_map]
    refine List.map_congr_left fun c hc => ?_
    have hkey := of_decide_eq_true (List.mem_filter.1 hc).2
    simp only [keyNames, List.mem_append, not_or] at hkey
    simp [h.valueRole_role_eq hdefault _ hc, keptType, hkey.2]

end Acceptable

/-- A table that is laid out by the rules. -/
structure LaidOut (d : TableDefinition) (s : TableSchema) : Prop where
  columns : s.columns.map (fun c => (c.name, c.type, c.role)) =
    d.arranged.map fun c => (c.name, d.keptType c, d.keptRole c)
  declared : d.arranged.Perm d.columns
  names : d.arranged.map (·.name) = d.keyNames ++ d.otherColumns.map (·.name)
  cellLayout : LayoutRule ((d.named d.clusteringColumns).map d.keptType) d.compactStorage
    d.collections s.cellLayout
  defaultType : DefaultRule d.clusteringColumns.length d.compactStorage d.otherColumns s.defaultType
  compactValue :
    ValueRule d.clusteringColumns.length d.compactStorage d.otherColumns s.compactValue

/-- **A compiled table is laid out by the rules.** -/
theorem laidOut_of_compile {s : TableSchema} (h : d.compile = .ok s) : d.LaidOut s := by
  obtain ⟨hd, layout, default, hlayout, hdefault, rfl⟩ := compile_eq_ok_iff_acceptable.1 h
  have hcolumns := hd.table_parts layout hdefault
  rw [clusteringTypes_parts hd.apart] at hlayout
  have hcount : d.parts.clustering.length = d.clusteringColumns.length := by
    rw [← hd.key.clustering_names hd.apart, List.length_map]
  rw [hcount] at hdefault
  obtain ⟨htype, hvalue⟩ := defaultRule_of_resolve hdefault
  exact ⟨hcolumns, hd.arranged_perm, hd.arranged_names, layoutRule_of_choose? hlayout, htype,
    hvalue⟩

/-- Sightings of birds at a site, the latest first, with the warden of the site. -/
def sightingsDefinition : TableDefinition where
  keyspace := "birds"
  name := "sightings"
  columns := [⟨"kinds", .set .text false, false⟩, ⟨"hour", .scalar .int, false⟩,
    ⟨"warden", .text, true⟩, ⟨"site", .text, false⟩, ⟨"weather", .text, false⟩]
  partitionKeys := [["site"]]
  clusteringColumns := ["hour"]
  clusteringOrder := [⟨"hour", .desc⟩]

theorem laidOut_of_compile_sightings :
    ∃ s, sightingsDefinition.compile = .ok s ∧ sightingsDefinition.LaidOut s ∧
      s.columns.map (fun c => (c.name, c.type, c.role)) =
        [("site", .text, .partitionKey), ("hour", .descending (.scalar .int), .clusteringKey),
          ("kinds", .set .text false, .regular), ("warden", .text, .static),
          ("weather", .text, .regular)] := by
  have hcompile : sightingsDefinition.compile = .ok _ := rfl
  exact ⟨_, hcompile, laidOut_of_compile hcompile, rfl⟩

/-- The names of sites, and nothing else. -/
def sitesDefinition : TableDefinition where
  keyspace := "birds"
  name := "sites"
  columns := [⟨"site", .text, false⟩]
  partitionKeys := [["site"]]
  compactStorage := true

/-- **A value column can be marked as missing without clustering columns.**  The names of cells
would tell the columns of such a table, but as long as it has none it is marked like a dense one. -/
theorem missing_value_marked_without_clustering :
    ∃ s, sitesDefinition.compile = .ok s ∧ sitesDefinition.clusteringColumns = [] ∧
      s.isDense = false ∧ s.compactValue = some .empty :=
  ⟨_, rfl, rfl, rfl, rfl⟩

end TableDefinition

end WideColumn
