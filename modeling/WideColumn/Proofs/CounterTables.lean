import WideColumn.Proofs.ConsistentTables

/-!
# Tables of counters

A table counts as one of counters by its columns or by its default type.  The default type of a
table that is not compact follows its columns when counters come, but not when they go: such a
table remembers the counters that it once had.

* `hasCounterColumn` — the table has a counter outside its key;
* `CountersKept` — what the default type says of the columns, now and in the past, which each change
  keeps;
* `counter_status` — **a table counts as one of counters if and only if it or a version before it
  had a counter column**, and in which tables this is the same as to have one now.
-/

namespace WideColumn

open Effects

namespace TableSchema

/-- Has the table a counter outside its key? -/
def hasCounterColumn (s : TableSchema) : Bool :=
  s.columns.any fun c => !c.role.isKey && c.type.isCounter

variable {s s' : TableSchema}

theorem hasCounterColumn_iff :
    s.hasCounterColumn = true ↔
      ∃ c ∈ s.columns, c.role.isKey = false ∧ c.type.isCounter = true := by
  simp [hasCounterColumn]

theorem isCounter_iff :
    s.isCounter = true ↔ s.defaultType.isCounter = true ∨ s.hasCounterColumn = true := by
  simp [isCounter, hasCounterColumn]

/-- What the default type of a table says of its columns, and of those of the versions before. -/
structure CountersKept (past : List TableSchema) (s : TableSchema) : Prop where
  /-- Counters are only beside counters. -/
  alone : s.hasCounterColumn = true →
    ∀ c ∈ s.columns, c.role.isKey = false → c.type.isCounter = true
  /-- A table that is not compact remembers its counters. -/
  remembered : s.isCompact = false →
    (s.defaultType.isCounter = true ↔ ∃ t ∈ s :: past, t.hasCounterColumn = true)
  /-- A compact table still has the counters that it ever had, and no others by default. -/
  settled : s.isCompact = true →
    (s.defaultType.isCounter = true ∨ ∃ t ∈ past, t.hasCounterColumn = true) →
    s.hasCounterColumn = true

/-! ### Changes of the columns -/

theorem withColumn_hasCounterColumn (s : TableSchema) (c : ColumnDeclaration)
    (layout : CellLayout) :
    (s.withColumn c layout).hasCounterColumn = true ↔
      s.hasCounterColumn = true ∨ c.type.isCounter = true := by
  simp [hasCounterColumn, (s.newColumn_role c).1]

theorem without_hasCounterColumn {name : String} (h : (s.without name).hasCounterColumn = true) :
    s.hasCounterColumn = true := by
  obtain ⟨c, hc, h⟩ := hasCounterColumn_iff.1 h
  exact hasCounterColumn_iff.2 ⟨c, List.mem_of_mem_filter hc, h⟩

theorem retyped_hasCounterColumn (hs : s.Consistent) {c : Column} {type : ColumnType}
    (hretyped : s.Retyped c type) (hc : c ∈ s.columns) :
    (s.retyped c type).hasCounterColumn = s.hasCounterColumn := by
  rw [Bool.eq_iff_iff, hasCounterColumn_iff, hasCounterColumn_iff, retyped_columns hs.names]
  simp only [List.mem_map, exists_exists_and_eq_and, Column.retype_role]
  refine exists_congr fun other => and_congr_right fun hother => ?_
  rw [(hs.retyped_kind hretyped hc hother).2]

/-- The default type changes with the column of a compact table that it stands for. -/
theorem retyped_defaultType (s : TableSchema) (c : Column) (type : ColumnType) :
    (s.retyped c type).defaultType = s.defaultType ∨
      (s.retyped c type).defaultType = type ∧ c.role.isKey = false ∧
        (s.isCompact = true ∨ c.role = .compactValue) := by
  unfold retyped
  cases c.role with
  | partitionKey | clusteringKey => exact .inl rfl
  | compactValue => exact .inr ⟨rfl, rfl, .inr rfl⟩
  | regular | static =>
    cases s.isCompact <;> by_cases hsingle : s.valueColumns.length = 1 <;>
      simp [hsingle, ColumnRole.isKey]

/-- Counters are added beside counters, and other columns beside others. -/
theorem Added.isCounter_eq (hs : s.Consistent) {c : ColumnDeclaration} {layout : CellLayout}
    (h : Added s c layout) {other : Column} (hother : other ∈ s.columns)
    (hkey : other.role.isKey = false) : other.type.isCounter = c.type.isCounter := by
  have hvalue : other ∈ s.valueColumns := by
    rw [hs.valueColumns_of_sparse h.sparse]
    exact mem_otherColumns.2 ⟨hother, hkey⟩
  have hold : other.type ∈ s.valueColumns.map (·.type) ++ [c.type] :=
    List.mem_append_left _ (List.mem_map_of_mem hvalue)
  have hnew : c.type ∈ s.valueColumns.map (·.type) ++ [c.type] :=
    List.mem_append_right _ (List.mem_singleton_self _)
  rcases checkCounters_eq_ok_iff.1 h.counters with hall | hnone
  · rw [hall _ hold, hall _ hnew]
  · rw [hnone _ hold, hnone _ hnew]

/-! ### One change -/

namespace CountersKept

variable {past : List TableSchema}

theorem addColumn (hs : s.Consistent) (h : CountersKept past s) {c : ColumnDeclaration}
    (hadd : s.addColumn c = .ok s') : CountersKept (s :: past) s' := by
  obtain ⟨layout, hadded, rfl⟩ := addColumn_ok hadd
  have hhas := withColumn_hasCounterColumn s c layout
  refine ⟨fun hcounters => ?_, fun hloose => ?_, fun hcompact hever => hhas.2 (.inl ?_)⟩
  · have hcounter : c.type.isCounter = true := by
      refine (hhas.1 hcounters).elim (fun hold => ?_) fun hcounter => hcounter
      obtain ⟨other, hother, hkey, hcounter⟩ := hasCounterColumn_iff.1 hold
      rwa [← hadded.isCounter_eq hs hother hkey]
    exact List.forall_mem_append.2
      ⟨fun other hother hkey => (hadded.isCounter_eq hs hother hkey).trans hcounter,
        List.forall_mem_singleton.2 fun _ => hcounter⟩
  · have hdefault : (s.withColumn c layout).defaultType.isCounter = true ↔
        c.type.isCounter = true ∨ s.defaultType.isCounter = true := by
      show (if !s.isCompact && c.type.isCounter then ColumnType.counter
        else s.defaultType).isCounter = true ↔ _
      rw [show s.isCompact = false from hloose]
      cases c.type.isCounter <;> simp [ColumnType.isCounter, ColumnType.base]
    rw [hdefault, h.remembered hloose, List.exists_mem_cons_iff, List.exists_mem_cons_iff,
      List.exists_mem_cons_iff, hhas, ← or_or_distrib_left]
    exact or_left_comm
  · rw [s.withColumn_defaultType_of_compact c layout hcompact, List.exists_mem_cons_iff] at hever
    rcases hever with hdefault | hold | hpast
    · exact h.settled hcompact (.inl hdefault)
    · exact hold
    · exact h.settled hcompact (.inr hpast)

/-- A change that brings no counters, and takes none from a compact table. -/
theorem of_no_more (h : CountersKept past s) (hcompact : s'.isCompact = s.isCompact)
    (halone : s'.hasCounterColumn = true →
      ∀ c ∈ s'.columns, c.role.isKey = false → c.type.isCounter = true)
    (hfewer : s'.hasCounterColumn = true → s.hasCounterColumn = true)
    (hkept : s.isCompact = true → s.hasCounterColumn = true → s'.hasCounterColumn = true)
    (hloose : s.isCompact = false → s'.defaultType = s.defaultType)
    (hdefault : s.isCompact = true → s'.defaultType.isCounter = true →
      s.defaultType.isCounter = true ∨ s.hasCounterColumn = true) :
    CountersKept (s :: past) s' := by
  refine ⟨halone, fun hc => ?_, fun hc hever => ?_⟩
  · rw [hcompact] at hc
    rw [hloose hc, h.remembered hc, List.exists_mem_cons_iff (p := (·.hasCounterColumn = true)) s']
    refine ⟨.inr, fun hever => ?_⟩
    rcases hever with hnow | hbefore
    · exact ⟨s, List.mem_cons_self, hfewer hnow⟩
    · exact hbefore
  · rw [hcompact] at hc
    rw [List.exists_mem_cons_iff] at hever
    refine hkept hc ?_
    rcases hever with hnow | hold | hpast
    · rcases hdefault hc hnow with hbefore | hold
      · exact h.settled hc (.inl hbefore)
      · exact hold
    · exact hold
    · exact h.settled hc (.inr hpast)

theorem dropColumn (h : CountersKept past s) {name : String}
    (hdrop : s.dropColumn name = .ok s') : CountersKept (s :: past) s' := by
  obtain ⟨c, -, -, hloose, rfl⟩ := dropColumn_ok hdrop
  refine h.of_no_more rfl (fun hhas other hother => ?_) without_hasCounterColumn
    (fun hcompact => ?_) (fun _ => rfl) fun _ => .inl
  · exact h.alone (without_hasCounterColumn hhas) other (List.mem_of_mem_filter hother)
  · rw [hcompact] at hloose
    cases hloose

theorem retypeColumn (hs : s.Consistent) (h : CountersKept past s) {name : String}
    {type : ColumnType} (hretype : s.retypeColumn name type = .ok s') :
    CountersKept (s :: past) s' := by
  obtain ⟨c, hfound, hretyped, rfl⟩ := retypeColumn_ok hretype
  obtain ⟨hc, rfl⟩ := mem_of_column? hfound
  have hhas := retyped_hasCounterColumn hs hretyped hc
  refine h.of_no_more (retyped_isCompact s c type) (fun hcounters => ?_) (fun hnow => hhas ▸ hnow)
    (fun _ hold => hhas ▸ hold) (fun hloose => ?_) fun _ hdefault => ?_
  · rw [retyped_columns hs.names]
    refine List.forall_mem_map.2 fun other hother hkey => ?_
    rw [(hs.retyped_kind hretyped hc hother).2]
    rw [Column.retype_role] at hkey
    exact h.alone (hhas ▸ hcounters) other hother hkey
  · refine (retyped_defaultType s c type).resolve_right fun ⟨_, _, hor⟩ => ?_
    rcases hor with hcompact | hvalue
    · rw [hcompact] at hloose
      cases hloose
    · exact hs.role_of_loose hloose hc hvalue
  · rcases retyped_defaultType s c type with hsame | ⟨htype, hkey, -⟩
    · exact .inl (hsame ▸ hdefault)
    · rw [htype, hretyped.counter] at hdefault
      exact .inr (hasCounterColumn_iff.2 ⟨c, hc, hkey, hdefault⟩)

theorem setProperties (h : CountersKept past s) {p : TableProperties}
    (hset : s.setProperties p = .ok s') : CountersKept (s :: past) s' := by
  obtain ⟨-, rfl⟩ := setProperties_ok hset
  exact h.of_no_more rfl h.alone (fun hnow => hnow) (fun _ hold => hold) (fun _ => rfl)
    fun _ => .inl

theorem change (hs : s.Consistent) (h : CountersKept past s) {change : SchemaChange}
    (hchange : s.change change = .ok s') : CountersKept (s :: past) s' := by
  cases change with
  | addColumn c => exact h.addColumn hs hchange
  | dropColumn name => exact h.dropColumn hchange
  | retypeColumn name type => exact h.retypeColumn hs hchange
  | setProperties p => exact h.setProperties hchange

theorem isCounter_iff_ever (h : CountersKept past s) :
    s.isCounter = true ↔ ∃ t ∈ s :: past, t.hasCounterColumn = true := by
  rw [isCounter_iff]
  constructor
  · rintro (hdefault | hhas)
    · cases hcompact : s.isCompact with
      | false => exact (h.remembered hcompact).1 hdefault
      | true => exact ⟨s, List.mem_cons_self, h.settled hcompact (.inl hdefault)⟩
    · exact ⟨s, List.mem_cons_self, hhas⟩
  · intro hever
    cases hcompact : s.isCompact with
    | false => exact .inl ((h.remembered hcompact).2 hever)
    | true =>
      rw [List.exists_mem_cons_iff] at hever
      exact .inr (hever.elim (fun hhas => hhas) fun hpast => h.settled hcompact (.inr hpast))

end CountersKept

/-- When a default expiry is refused. -/
theorem setProperties_refused_iff (s : TableSchema) (p : TableProperties) :
    s.setProperties p = .error .counterWithDefaultTtl ↔
      p.check = .ok () ∧ 0 < p.defaultTimeToLive ∧ s.isCounter = true := by
  unfold setProperties TableProperties.check
  split
  · exact ⟨nofun, fun h => by cases h.1⟩
  · show (if (s.isCounter && decide (0 < p.defaultTimeToLive)) = true then _ else _) = _ ↔ _
    split
    · rename_i hcounter
      simp only [Bool.and_eq_true, decide_eq_true_eq] at hcounter
      exact ⟨fun _ => ⟨rfl, hcounter.2, hcounter.1⟩, fun _ => rfl⟩
    · rename_i hcounter
      refine ⟨nofun, fun h => absurd ?_ hcounter⟩
      simp [h.2.1, h.2.2]

end TableSchema

/-! ### Histories -/

namespace TableDefinition

theorem counterOrBlob_isCounter (columns : List ColumnDeclaration) :
    (DefaultValue.counterOrBlob columns).isCounter = true ↔
      ∃ c ∈ columns, c.type.isCounter = true := by
  unfold DefaultValue.counterOrBlob
  split
  · rename_i hany
    simpa [ColumnType.isCounter, ColumnType.base] using hany
  · rename_i hany
    simpa [ColumnType.isCounter, ColumnType.base] using hany

/-- By default values are counters only if one of the columns is a counter, which is enough if the
table is not compact. -/
theorem resolve_isCounter {compact : Bool} {count : Nat} {remaining : List ColumnDeclaration}
    {default : DefaultValue} (h : DefaultValue.resolve compact count remaining = .ok default) :
    (default.type.isCounter = true → ∃ c ∈ remaining, c.type.isCounter = true) ∧
      (compact = false → (∃ c ∈ remaining, c.type.isCounter = true) →
        default.type.isCounter = true) := by
  unfold DefaultValue.resolve at h
  have hblob : ColumnType.blob.isCounter = false := rfl
  have htext : ColumnType.text.isCounter = false := rfl
  split at h <;> cases h <;> simp_all [counterOrBlob_isCounter]

/-- A compiled table has a counter column if one is declared outside the key. -/
theorem table_hasCounterColumn (d : TableDefinition) (k : KeySplit) (layout : CellLayout)
    (default : DefaultValue) :
    (d.table k layout default).hasCounterColumn = true ↔
      ∃ c ∈ k.remaining, c.type.isCounter = true := by
  rw [TableSchema.hasCounterColumn_iff]
  constructor
  · rintro ⟨c, hc, hkey, hcounter⟩
    obtain ⟨declaration, hmem, rfl⟩ := List.mem_map.1 (mem_valueParts_of_role hc hkey)
    exact ⟨declaration, hmem, by rwa [valueRole_type] at hcounter⟩
  · rintro ⟨declaration, hmem, hcounter⟩
    refine ⟨_, List.mem_append_right _ (List.mem_map_of_mem hmem), valueRole_role _ _ _, ?_⟩
    rwa [valueRole_type]

theorem countersKept_of_compile {d : TableDefinition} {s : TableSchema} (h : d.compile = .ok s) :
    s.CountersKept [] := by
  obtain ⟨k, layout, default, hcompiled, rfl⟩ := compile_ok h
  obtain ⟨hdefault, hloose⟩ := resolve_isCounter hcompiled.default
  have hhas := table_hasCounterColumn d k layout default
  refine ⟨fun hcounters c hc hkey => ?_, fun hc => ?_, fun _ hever => ?_⟩
  · obtain ⟨counter, hmem, hcounter⟩ := hhas.1 hcounters
    obtain ⟨declaration, hother, rfl⟩ := List.mem_map.1 (mem_valueParts_of_role hc hkey)
    rw [valueRole_type]
    exact checkCounters_ok hcompiled.counters (List.mem_map_of_mem hmem) hcounter _
      (List.mem_map_of_mem hother)
  · simp only [List.mem_singleton, exists_eq_left, hhas]
    exact ⟨hdefault, hloose hc⟩
  · exact hhas.2 (hdefault (hever.resolve_right (by simp)))

theorem Evolved.countersKept {d : TableDefinition} {past : List TableSchema} {s : TableSchema}
    (h : d.Evolved past s) : s.CountersKept past := by
  induction h with
  | compiled hcompile => exact countersKept_of_compile hcompile
  | changed hbefore hchange ih => exact ih.change hbefore.consistent hchange

/-- **A table counts as one of counters if and only if it or a version before it had a counter
column**; if it is compact, if and only if it has one now.  Counters are only beside counters, and a
default expiry is refused exactly where a version had a counter column. -/
theorem counter_status {d : TableDefinition} {past : List TableSchema} {s : TableSchema}
    (h : d.Evolved past s) :
    (s.isCounter = true ↔ ∃ t ∈ s :: past, t.hasCounterColumn = true) ∧
      (s.isCompact = true → (s.isCounter = true ↔ s.hasCounterColumn = true)) ∧
      (s.hasCounterColumn = true →
        ∀ c ∈ s.columns, c.role.isKey = false → c.type.isCounter = true) ∧
      ∀ p, s.setProperties p = .error .counterWithDefaultTtl ↔
        p.check = .ok () ∧ 0 < p.defaultTimeToLive ∧
          ∃ t ∈ s :: past, t.hasCounterColumn = true := by
  have hkept := h.countersKept
  have hever := hkept.isCounter_iff_ever
  refine ⟨hever, fun hcompact => ?_, hkept.alone, fun p => ?_⟩
  · refine ⟨fun hcounter => ?_, fun hhas => TableSchema.isCounter_iff.2 (.inr hhas)⟩
    rcases TableSchema.isCounter_iff.1 hcounter with hdefault | hhas
    · exact hkept.settled hcompact (.inl hdefault)
    · exact hhas
  · rw [TableSchema.setProperties_refused_iff, hever]

/-- Visits of pages, counted. -/
def visitsDefinition : TableDefinition where
  keyspace := "site"
  name := "visits"
  columns := [⟨"page", .text, false⟩, ⟨"hits", .counter, false⟩]
  partitionKeys := [["page"]]

/-- The table of the visits. -/
def visits : TableSchema where
  keyspace := "site"
  name := "visits"
  keyLayout := .single .text
  cellLayout := .compoundSparse [] none
  defaultType := .counter
  isDense := false
  isCompact := false
  columns := [⟨"page", .text, .partitionKey, none⟩, ⟨"hits", .counter, .regular, some 0⟩]
  compactValue := none
  properties := {}

theorem visits_compile : visitsDefinition.compile = .ok visits := by decide

/-- The visits without their count are still a table of counters. -/
theorem counter_status_of_visits :
    visitsDefinition.Evolved [visits] (visits.without "hits") ∧
      (visits.without "hits").isCounter = true := by
  have h : visitsDefinition.Evolved [visits] (visits.without "hits") :=
    (Evolved.compiled visits_compile).changed (show visits.change (.dropColumn "hits") = _ from rfl)
  exact ⟨h, (counter_status h).1.2 ⟨visits, by simp, rfl⟩⟩

/-- **Counters outlive their column.**  Once the count is dropped, a title can be added; the table
of titles counts as one of counters, and refuses a default expiry. -/
theorem counters_outlive_column :
    ∃ s, visitsDefinition.compile = .ok visits ∧
      visits.changeAll [.dropColumn "hits", .addColumn ⟨"title", .text, false⟩] = .ok s ∧
      s.valueColumns = [⟨"title", .text, .regular, some 0⟩] ∧
      s.hasCounterColumn = false ∧ s.isCounter = true ∧
      s.setProperties { defaultTimeToLive := 60 } = .error .counterWithDefaultTtl :=
  ⟨_, visits_compile, rfl, rfl, rfl, rfl, rfl⟩

end TableDefinition

end WideColumn
