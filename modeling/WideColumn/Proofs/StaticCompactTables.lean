import WideColumn.Proofs.CounterTables
import WideColumn.Proofs.TableLayouts

/-!
# Compact tables without clustering columns

Such a table takes any number of columns, and more of them can be added.  The type of its values
without a column, and the mark that it has no value column, are worked out for the columns that it
is compiled with.  The type also follows a sole column that changes; a new column is heeded by
neither of the two.

* `DefaultFollows` — the type and the mark are what the compiler would work out for the columns that
  there are now;
* `DefaultKept` — what the type and the mark say of the columns, now and in the past, which each
  change keeps;
* `default_follows_iff` — **when the type and the mark follow the columns**;
* `default_lags_first_column` — a table without columns that gets one has neither of them right.
-/

namespace WideColumn

/-- What a column was declared as. -/
def Column.declaration (c : Column) : ColumnDeclaration := ⟨c.name, c.type, c.role = .static⟩

namespace TableSchema

/-- The columns outside the key as declarations. -/
def otherDeclarations (s : TableSchema) : List ColumnDeclaration :=
  s.otherColumns.map Column.declaration

/-- The type of values without a column and the value column are those of a compact table without
clustering columns that has these columns. -/
def DefaultFollows (s : TableSchema) : Prop :=
  DefaultValue.resolve true 0 s.otherDeclarations = .ok ⟨s.defaultType, s.compactValue⟩

/-- The type of the only column outside the key. -/
def soleType? (s : TableSchema) : Option ColumnType :=
  match s.otherColumns with
  | [c] => some c.type
  | _ => none

variable {s s' : TableSchema}

/-! ### The columns outside the key -/

theorem soleType?_of_eq {c : Column} (h : s.otherColumns = [c]) : s.soleType? = some c.type := by
  simp [soleType?, h]

theorem soleType?_eq_some_iff {type : ColumnType} :
    s.soleType? = some type ↔ ∃ c, s.otherColumns = [c] ∧ c.type = type := by
  unfold soleType?
  split
  · rename_i c hc
    simp [hc]
  · rename_i hnot
    exact ⟨nofun, fun ⟨c, hc, _⟩ => absurd hc (hnot c)⟩

theorem soleType?_of_length_ne (h : s.otherColumns.length ≠ 1) : s.soleType? = none := by
  refine Option.eq_none_iff_forall_ne_some.2 fun type htype => ?_
  obtain ⟨c, hc, -⟩ := soleType?_eq_some_iff.1 htype
  simp [hc] at h

theorem hasCounterColumn_eq (s : TableSchema) :
    s.hasCounterColumn = s.otherColumns.any (·.type.isCounter) := by
  simp [otherColumns, hasCounterColumn, List.any_filter]

theorem counterOrBlob_otherDeclarations (s : TableSchema) :
    DefaultValue.counterOrBlob s.otherDeclarations =
      if s.hasCounterColumn then .counter else .blob := by
  rw [DefaultValue.counterOrBlob, otherDeclarations, List.any_map, hasCounterColumn_eq]
  rfl

theorem hasCounterColumn_of_eq {c : Column} (h : s.otherColumns = [c]) :
    s.hasCounterColumn = c.type.isCounter := by
  simp [hasCounterColumn_eq, h]

/-- What follows the columns: the type of a sole column, or counters or bytes, and the mark that
there is no column. -/
theorem defaultFollows_iff :
    s.DefaultFollows ↔
      s.defaultType = s.soleType?.getD (DefaultValue.counterOrBlob s.otherDeclarations) ∧
        s.compactValue = if s.otherColumns = [] then some .empty else none := by
  have hok (type : ColumnType) (value : Option CompactValue) :
      (.ok ⟨type, value⟩ : Except SchemaError DefaultValue) =
          .ok ⟨s.defaultType, s.compactValue⟩ ↔ s.defaultType = type ∧ s.compactValue = value := by
    simp [eq_comm]
  unfold DefaultFollows soleType? otherDeclarations
  rcases s.otherColumns with _ | ⟨c, _ | ⟨c', rest⟩⟩
  · exact hok .blob (some .empty)
  · exact hok c.type none
  · exact hok _ none

theorem withColumn_otherColumns (s : TableSchema) (c : ColumnDeclaration) (layout : CellLayout) :
    (s.withColumn c layout).otherColumns = s.otherColumns ++ [s.newColumn c] := by
  simp [otherColumns, (s.newColumn_role c).1]

theorem retyped_otherColumns (hs : s.Consistent) (c : Column) (type : ColumnType) :
    (s.retyped c type).otherColumns =
      s.otherColumns.map (Column.retype c.name (storedType c type)) := by
  simp [otherColumns, retyped_columns hs.names, List.filter_map, Function.comp_def]

/-- The type of values without a column follows the sole column when its type changes. -/
theorem retyped_defaultType_of_sparse (hs : s.Consistent) (hcompact : s.isCompact = true)
    (hsparse : s.isDense = false) {c : Column} (hc : c ∈ s.columns) (type : ColumnType) :
    (s.retyped c type).defaultType = if s.otherColumns = [c] then type else s.defaultType := by
  have hmem : c ∈ s.otherColumns ↔ c.role.isKey = false := by simp [mem_otherColumns, hc]
  have hnot (hkey : c.role.isKey = true) : s.otherColumns ≠ [c] := fun hsole => by
    simp [hsole, hkey] at hmem
  have hsole (hkey : c.role.isKey = false) :
      s.valueColumns.length = 1 ↔ s.otherColumns = [c] := by
    rw [hs.valueColumns_of_sparse hsparse, List.length_eq_one_iff]
    refine ⟨fun ⟨other, hother⟩ => ?_, fun hsole => ⟨c, hsole⟩⟩
    have hin := hmem.2 hkey
    rw [hother, List.mem_singleton] at hin
    rw [hother, hin]
  unfold retyped
  cases hrole : c.role with
  | partitionKey | clusteringKey => exact (if_neg (hnot (by rw [hrole]; rfl))).symm
  | compactValue =>
    have hdense := (hs.compactValue c hc (by rw [hrole]; rfl)).1 hrole
    rw [hsparse] at hdense
    cases hdense
  | regular | static =>
    have hiff := hsole (by rw [hrole]; rfl)
    simp [hcompact, hiff]

/-- If the sole column is another one, it keeps its type. -/
theorem retyped_soleType? (hs : s.Consistent) {c : Column} (hc : c ∈ s.columns)
    (hother : s.otherColumns ≠ [c]) (type : ColumnType) :
    (s.retyped c type).soleType? = s.soleType? := by
  have hothers := retyped_otherColumns hs c type
  by_cases hone : s.otherColumns.length = 1
  · obtain ⟨other, hsole⟩ := List.length_eq_one_iff.1 hone
    have hmem := (mem_otherColumns.1 (hsole ▸ List.mem_singleton_self other)).1
    have hne : other.name ≠ c.name := fun hname => hother (hs.eq_of_name hmem hc hname ▸ hsole)
    rw [hsole, List.map_singleton, Column.retype_of_ne hne] at hothers
    rw [soleType?_of_eq hothers, soleType?_of_eq hsole]
  · rw [soleType?_of_length_ne hone, soleType?_of_length_ne]
    rwa [hothers, List.length_map]

/-! ### One change -/

/-- What the type of values without a column and the mark for the value column say of the columns,
in a compact table without clustering columns that has come from a definition. -/
structure DefaultKept (d : TableDefinition) (past : List TableSchema) (s : TableSchema) : Prop where
  compact : s.isCompact = true
  sparse : s.isDense = false
  more : d.otherColumns.length ≤ s.otherColumns.length
  /-- A table without a value column is marked as one if it was compiled without columns. -/
  marker : s.compactValue = if d.otherColumns = [] then some .empty else none
  bare : s.otherColumns = [] → s.defaultType = .blob
  counters : d.otherColumns ≠ [] → (s.defaultType.isCounter = true ↔ s.hasCounterColumn = true)
  /-- The type is that of the sole column as long as there is no other. -/
  single : d.otherColumns.length = 1 → (s :: past).findSome? soleType? = some s.defaultType
  several : 2 ≤ d.otherColumns.length → s.defaultType = .counter ∨ s.defaultType = .blob

namespace DefaultKept

variable {d : TableDefinition} {past : List TableSchema}

/-- It holds of a table whose default follows the columns that were declared. -/
theorem of_follows (hcompact : s.isCompact = true) (hsparse : s.isDense = false)
    (hlength : s.otherColumns.length = d.otherColumns.length) (h : s.DefaultFollows) :
    DefaultKept d [] s := by
  obtain ⟨hdefault, hmarker⟩ := defaultFollows_iff.1 h
  have hcounterOrBlob := counterOrBlob_otherDeclarations s
  have hseveral (hother : s.otherColumns.length ≠ 1) :
      s.defaultType = if s.hasCounterColumn then .counter else .blob := by
    rw [hdefault, soleType?_of_length_ne hother, Option.getD_none, hcounterOrBlob]
  have hnone : d.otherColumns = [] ↔ s.otherColumns = [] := by
    rw [← List.length_eq_zero_iff, ← hlength, List.length_eq_zero_iff]
  refine ⟨hcompact, hsparse, hlength.ge, ?_, fun hbare => ?_, fun _ => ?_, fun hone => ?_,
    fun htwo => ?_⟩
  · rw [hmarker, if_congr hnone rfl rfl]
  · rw [hdefault]
    simp [soleType?, otherDeclarations, hbare, DefaultValue.counterOrBlob]
  · by_cases hone : s.otherColumns.length = 1
    · obtain ⟨c, hc⟩ := List.length_eq_one_iff.1 hone
      rw [hdefault, soleType?_of_eq hc, hasCounterColumn_of_eq hc, Option.getD_some]
    · rw [hseveral hone]
      cases s.hasCounterColumn <;> decide
  · obtain ⟨c, hc⟩ := List.length_eq_one_iff.1 (hlength.trans hone)
    rw [hdefault, List.findSome?_cons, soleType?_of_eq hc]
    rfl
  · rw [hseveral (by omega)]
    cases s.hasCounterColumn <;> simp

theorem addColumn (hs : s.Consistent) (h : DefaultKept d past s) {c : ColumnDeclaration}
    (hadd : s.addColumn c = .ok s') : DefaultKept d (s :: past) s' := by
  obtain ⟨layout, hadded, rfl⟩ := addColumn_ok hadd
  have hothers := withColumn_otherColumns s c layout
  have hlength : (s.withColumn c layout).otherColumns.length = s.otherColumns.length + 1 := by
    rw [hothers, List.length_append, List.length_singleton]
  have hdefault := s.withColumn_defaultType_of_compact c layout h.compact
  exact {
    compact := h.compact
    sparse := h.sparse
    more := by
      rw [hlength]
      exact h.more.trans (Nat.le_succ _)
    marker := h.marker
    bare := fun hnone => by simp [hnone] at hlength
    counters := by
      intro hsome
      rw [hdefault, h.counters hsome, withColumn_hasCounterColumn]
      refine (or_iff_left_of_imp fun hcounter => ?_).symm
      -- A counter is only added beside counters, and there is a column already.
      have hlength := (List.length_pos_iff.2 hsome).trans_le h.more
      obtain ⟨other, hother⟩ := List.exists_mem_of_length_pos hlength
      obtain ⟨hmem, hkey⟩ := mem_otherColumns.1 hother
      exact hasCounterColumn_iff.2
        ⟨other, hmem, hkey, (hadded.isCounter_eq hs hmem hkey).trans hcounter⟩
    single := by
      intro hone
      have htwo : (s.withColumn c layout).otherColumns.length ≠ 1 := by
        have hmore := h.more
        omega
      rw [List.findSome?_cons, soleType?_of_length_ne htwo, hdefault]
      exact h.single hone
    several := by
      rw [hdefault]
      exact h.several }

/-- A change after which there are as many columns as before, with counters in the same places: the
type is left as it was, or it is now that of the sole column. -/
theorem of_as_many (h : DefaultKept d past s) (hcompact : s'.isCompact = s.isCompact)
    (hdense : s'.isDense = s.isDense) (hmarker : s'.compactValue = s.compactValue)
    (hlength : s'.otherColumns.length = s.otherColumns.length)
    (hhas : s'.hasCounterColumn = s.hasCounterColumn)
    (hdefault : s'.defaultType = s.defaultType ∧ s'.soleType? = s.soleType? ∨
      s'.soleType? = some s'.defaultType) : DefaultKept d (s :: past) s' := by
  have hsame (hother : s'.otherColumns.length ≠ 1) : s'.defaultType = s.defaultType :=
    (hdefault.resolve_right fun hsole => by
      rw [soleType?_of_length_ne hother] at hsole
      cases hsole).1
  exact {
    compact := hcompact.trans h.compact
    sparse := hdense.trans h.sparse
    more := hlength ▸ h.more
    marker := hmarker.trans h.marker
    bare := by
      intro hnone
      rw [hsame (by simp [hnone])]
      rw [hnone, List.length_nil, eq_comm, List.length_eq_zero_iff] at hlength
      exact h.bare hlength
    counters := by
      intro hsome
      rcases hdefault with ⟨hdefault, -⟩ | hsole
      · rw [hdefault, hhas]
        exact h.counters hsome
      · obtain ⟨c, hc, htype⟩ := soleType?_eq_some_iff.1 hsole
        rw [hasCounterColumn_of_eq hc, htype]
    single := by
      intro hone
      rw [List.findSome?_cons]
      rcases hdefault with ⟨hdefault, hsole⟩ | hsole
      · have hbefore := h.single hone
        rw [hsole, hdefault]
        cases hfirst : s.soleType? with
        | none => exact hbefore
        | some type => rwa [List.findSome?_cons, hfirst] at hbefore
      · rw [hsole]
    several := by
      intro htwo
      rw [hsame]
      · exact h.several htwo
      · have hmore := h.more
        omega }

theorem retypeColumn (hs : s.Consistent) (h : DefaultKept d past s) {name : String}
    {type : ColumnType} (hretype : s.retypeColumn name type = .ok s') :
    DefaultKept d (s :: past) s' := by
  obtain ⟨c, hfound, hretyped, rfl⟩ := retypeColumn_ok hretype
  obtain ⟨hc, rfl⟩ := mem_of_column? hfound
  have hothers := retyped_otherColumns hs c type
  refine h.of_as_many (retyped_isCompact s c type) (retyped_isDense s c type)
    (retyped_compactValue s c type) (by rw [hothers, List.length_map])
    (retyped_hasCounterColumn hs hretyped hc) ?_
  rw [retyped_defaultType_of_sparse hs h.compact h.sparse hc]
  by_cases hsole : s.otherColumns = [c]
  · refine .inr ?_
    have hkey := (mem_otherColumns.1 (hsole ▸ List.mem_singleton_self c)).2
    have hstored : storedType c type = type :=
      if_neg fun hand => by simp [hand.1, ColumnRole.isKey] at hkey
    rw [hsole, List.map_singleton] at hothers
    rw [soleType?_of_eq hothers, Column.retype_type, if_pos rfl, if_pos hsole, hstored]
  · exact .inl ⟨if_neg hsole, retyped_soleType? hs hc hsole type⟩

theorem setProperties (h : DefaultKept d past s) {p : TableProperties}
    (hset : s.setProperties p = .ok s') : DefaultKept d (s :: past) s' := by
  obtain ⟨-, rfl⟩ := setProperties_ok hset
  exact h.of_as_many rfl rfl rfl rfl rfl (.inl ⟨rfl, rfl⟩)

/-- Every change keeps it; no column of a compact table is dropped. -/
theorem change (hs : s.Consistent) (h : DefaultKept d past s) {change : SchemaChange}
    (hchange : s.change change = .ok s') : DefaultKept d (s :: past) s' := by
  cases change with
  | addColumn c => exact h.addColumn hs hchange
  | dropColumn name =>
    obtain ⟨_, _, _, hloose, _⟩ := dropColumn_ok hchange
    rw [h.compact] at hloose
    cases hloose
  | retypeColumn name type => exact h.retypeColumn hs hchange
  | setProperties p => exact h.setProperties hchange

/-- The type follows the columns if it is one of those that several columns can have. -/
theorem counterOrBlob_iff (h : DefaultKept d past s) (hsome : d.otherColumns ≠ []) :
    DefaultValue.counterOrBlob s.otherDeclarations = s.defaultType ↔
      s.defaultType = .counter ∨ s.defaultType = .blob := by
  have hcounters := h.counters hsome
  rw [counterOrBlob_otherDeclarations]
  constructor
  · intro hdefault
    rw [← hdefault]
    cases s.hasCounterColumn <;> simp
  · rintro (hdefault | hdefault) <;> rw [hdefault] at hcounters ⊢
    · rw [if_pos (hcounters.1 rfl)]
    · rw [if_neg fun hhas => absurd (hcounters.2 hhas) (by decide)]

/-- **When the default follows the columns.** -/
theorem follows_iff (h : DefaultKept d past s) :
    s.DefaultFollows ↔ 2 ≤ d.otherColumns.length ∨
      s.otherColumns.length = d.otherColumns.length ∨
      d.otherColumns.length = 1 ∧ ((s :: past).findSome? soleType? = some .counter ∨
        (s :: past).findSome? soleType? = some .blob) := by
  have hmore := h.more
  rw [defaultFollows_iff, h.marker]
  by_cases hnone : d.otherColumns = []
  · -- The mark is there, so there must be no column.
    by_cases hbare : s.otherColumns = []
    · simp [hnone, hbare, soleType?, otherDeclarations, DefaultValue.counterOrBlob, h.bare hbare]
    · simp [hnone, hbare]
  have hmarker : s.otherColumns ≠ [] := by
    rintro hbare
    rw [hbare, List.length_nil, Nat.le_zero, List.length_eq_zero_iff] at hmore
    exact hnone hmore
  rw [if_neg hnone, if_neg hmarker, and_iff_left rfl]
  have hsome := List.length_pos_iff.2 hnone
  by_cases hone : s.otherColumns.length = 1
  · have hsame : s.otherColumns.length = d.otherColumns.length := by omega
    obtain ⟨c, hc⟩ := List.length_eq_one_iff.1 hone
    have htype := h.single (hsame ▸ hone)
    rw [List.findSome?_cons, soleType?_of_eq hc] at htype
    exact iff_of_true (by rw [soleType?_of_eq hc, ← Option.some.inj htype]; rfl) (.inr (.inl hsame))
  rw [soleType?_of_length_ne hone, Option.getD_none, eq_comm, h.counterOrBlob_iff hnone]
  by_cases htwo : 2 ≤ d.otherColumns.length
  · exact iff_of_true (h.several htwo) (.inl htwo)
  · -- The type is the one that the first column had before there was a second one.
    have hfirst : d.otherColumns.length = 1 := by omega
    rw [h.single hfirst, Option.some.injEq, Option.some.injEq]
    exact ⟨fun htype => .inr (.inr ⟨hfirst, htype⟩), fun hor =>
      ((hor.resolve_left htwo).resolve_left (hfirst ▸ hone)).2⟩

end DefaultKept

end TableSchema

/-! ### Histories -/

namespace TableDefinition

/-- **The compiler works out a default that follows the columns.** -/
theorem defaultFollows_of_compile {d : TableDefinition} {s : TableSchema} (h : d.compile = .ok s)
    (hcompact : d.compactStorage = true) (hrows : d.clusteringColumns = []) :
    s.isCompact = true ∧ s.isDense = false ∧ s.otherDeclarations = d.otherColumns ∧
      s.DefaultFollows := by
  obtain ⟨hd, layout, default, hlayout, hdefault, rfl⟩ := compile_eq_ok_iff_acceptable.1 h
  have hclustering := (hd.key.clustering_eq_nil_iff hd.apart).2 hrows
  rw [hcompact, hclustering, List.length_nil] at hdefault
  rw [hcompact] at hlayout
  have hnone : default.compactValue.bind CompactValue.name? = none := by
    refine Option.eq_none_iff_forall_ne_some.2 fun name hname => ?_
    rw [name?_eq_some_iff, resolve_column hdefault] at hname
    exact hname.2.1 rfl
  have hothers : (d.table d.parts layout default).otherDeclarations = d.otherColumns := by
    rw [TableSchema.otherDeclarations, (table_columns _ _ _ _).2.2, valueParts, hnone,
      List.map_map, parts_remaining]
    refine (List.map_congr_left fun c _ => ?_).trans (List.map_id _)
    obtain ⟨name, type, isStatic⟩ := c
    cases isStatic <;> rfl
  refine ⟨hcompact, ?_, hothers, ?_⟩
  · show layout.isDense = false
    rw [← Bool.not_eq_true, (CellLayout.choose?_compact hlayout).2]
    simp [KeySplit.clusteringTypes, hclustering]
  · rw [TableSchema.DefaultFollows, hothers]
    exact hdefault

theorem Evolved.defaultKept {d : TableDefinition} {past : List TableSchema} {s : TableSchema}
    (h : d.Evolved past s) (hcompact : d.compactStorage = true) (hrows : d.clusteringColumns = []) :
    s.DefaultKept d past := by
  induction h with
  | compiled hcompile =>
    obtain ⟨hcompact, hsparse, hothers, hfollows⟩ :=
      defaultFollows_of_compile hcompile hcompact hrows
    refine .of_follows hcompact hsparse ?_ hfollows
    rw [← hothers, TableSchema.otherDeclarations, List.length_map]
  | changed hbefore hchange ih => exact ih.change hbefore.consistent hchange

/-- **When the default of a compact table without clustering columns follows its columns.**  The
mark that there is no value column is that of the first version.  The default follows in a table
that was compiled with several columns, in one that no column was added to, and in one that was
compiled with a single column, if that held counters or bytes when it was last the only one. -/
theorem default_follows_iff {d : TableDefinition} {past : List TableSchema} {s : TableSchema}
    (h : d.Evolved past s) (hcompact : d.compactStorage = true) (hrows : d.clusteringColumns = []) :
    (s.compactValue = if d.otherColumns = [] then some .empty else none) ∧
      (s.DefaultFollows ↔ 2 ≤ d.otherColumns.length ∨
        s.otherColumns.length = d.otherColumns.length ∨
        d.otherColumns.length = 1 ∧ ((s :: past).findSome? TableSchema.soleType? = some .counter ∨
          (s :: past).findSome? TableSchema.soleType? = some .blob)) :=
  ⟨(h.defaultKept hcompact hrows).marker, (h.defaultKept hcompact hrows).follows_iff⟩

/-- Files and their digests. -/
def digestsDefinition : TableDefinition where
  keyspace := "archive"
  name := "digests"
  columns := [⟨"file", .text, false⟩, ⟨"digest", .text, false⟩]
  partitionKeys := [["file"]]
  compactStorage := true

/-- The digests become bytes, and then the files have owners, too. -/
theorem default_follows_of_digests :
    ∃ past s, digestsDefinition.Evolved past s ∧ digestsDefinition.compactStorage = true ∧
      digestsDefinition.clusteringColumns = [] ∧
      s.otherDeclarations = [⟨"digest", .blob, false⟩, ⟨"owner", .text, false⟩] ∧
      s.DefaultFollows := by
  have hcompile : digestsDefinition.compile = .ok _ := rfl
  have hretype := (Evolved.compiled hcompile).changed
    (show TableSchema.change _ (.retypeColumn "digest" .blob) = .ok _ from rfl)
  have hadd := hretype.changed
    (show TableSchema.change _ (.addColumn ⟨"owner", .text, false⟩) = .ok _ from rfl)
  exact ⟨_, _, hadd, rfl, rfl, rfl,
    (default_follows_iff hadd rfl rfl).2.2 (.inr (.inr ⟨rfl, .inr rfl⟩))⟩

/-- **The first column is not heeded.**  A table of sites alone holds bytes by default, and it is
marked as one without a value column; once it has a column of numbers, both are as before. -/
theorem default_lags_first_column :
    ∃ first s, sitesDefinition.compile = .ok first ∧
      first.addColumn ⟨"height", .scalar .int, false⟩ = .ok s ∧
      s.otherDeclarations = [⟨"height", .scalar .int, false⟩] ∧
      s.defaultType = .blob ∧ s.compactValue = some .empty ∧ ¬s.DefaultFollows := by
  refine ⟨_, _, rfl, rfl, rfl, rfl, rfl, ?_⟩
  rw [TableSchema.defaultFollows_iff]
  exact fun h => by cases h.2

end TableDefinition

end WideColumn
