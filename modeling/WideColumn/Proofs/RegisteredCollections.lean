import WideColumn.Proofs.ConsistentTables
import WideColumn.Proofs.PackedNames

/-!
# Collections that a layout remembers

The layout of cell names records the multi-cell collections of its table, and keeps those that were
dropped, so that what is stored stays readable.

* `collection?` — the type of a table's multi-cell column of a name;
* `Evolved.collectionType?` — **the layout records the last collection of each name**, whichever
  version of the table had it;
* `takesElements_iff` — which columns a cell name with an element can be packed for;
* `element_accepted_iff` — **elements are accepted for a column if any version of the table had a
  collection of its name**, and wherever names are bare column names.
-/

namespace WideColumn

open Effects

/-! ### The collections of a table -/

namespace TableSchema

/-- The type of the multi-cell column of a name. -/
def collection? (s : TableSchema) (name : String) : Option ColumnType :=
  (s.columns.find? fun c => c.name = name && c.type.isMultiCell).map (·.type)

variable {s s' : TableSchema}

theorem isMultiCell_of_collection? {name : String} {type : ColumnType}
    (h : s.collection? name = some type) : type.isMultiCell = true := by
  obtain ⟨c, hc, rfl⟩ := Option.map_eq_some_iff.1 h
  have hfound := List.find?_some hc
  simp only [Bool.and_eq_true] at hfound
  exact hfound.2

theorem Consistent.collection?_eq_some_iff (h : s.Consistent) {name : String} {type : ColumnType} :
    s.collection? name = some type ↔
      ∃ c ∈ s.columns, c.name = name ∧ c.type.isMultiCell = true ∧ c.type = type := by
  unfold collection?
  rw [Option.map_eq_some_iff]
  constructor
  · rintro ⟨c, hc, htype⟩
    have hfound := List.find?_some hc
    simp only [Bool.and_eq_true, decide_eq_true_eq] at hfound
    exact ⟨c, List.mem_of_find?_eq_some hc, hfound.1, hfound.2, htype⟩
  · rintro ⟨c, hc, hname, hmulti, htype⟩
    cases hfind : s.columns.find? fun c => c.name = name && c.type.isMultiCell with
    | none => simpa [hname, hmulti] using List.find?_eq_none.1 hfind c hc
    | some other =>
      have hfound := List.find?_some hfind
      simp only [Bool.and_eq_true, decide_eq_true_eq] at hfound
      have hsame := h.eq_of_name (List.mem_of_find?_eq_some hfind) hc
        (hfound.1.trans hname.symm)
      exact ⟨other, rfl, hsame ▸ htype⟩

/-- The layout records the last collection of each name. -/
def RecordsCollections (past : List TableSchema) (s : TableSchema) : Prop :=
  ∀ name, s.cellLayout.collectionType? name = (s :: past).findSome? (·.collection? name)

/-! ### Changes -/

namespace RecordsCollections

variable {past : List TableSchema}

/-- A change that records no collection, and brings none. -/
theorem of_same_layout (h : RecordsCollections past s)
    (hlayout : s'.cellLayout.collections? = s.cellLayout.collections?)
    (hfewer : ∀ name type, s'.collection? name = some type → s.collection? name = some type) :
    RecordsCollections (s :: past) s' := by
  intro name
  unfold CellLayout.collectionType?
  rw [hlayout]
  refine (h name).trans ?_
  cases hnow : s'.collection? name with
  | none => rw [List.findSome?_cons (a := s'), hnow]
  | some type =>
    rw [List.findSome?_cons, List.findSome?_cons (a := s'), hnow, hfewer name type hnow]

theorem addColumn (hs : s.Consistent) (h : RecordsCollections past s) {c : ColumnDeclaration}
    (hadd : s.addColumn c = .ok s') : RecordsCollections (s :: past) s' := by
  have hs' := hs.addColumn hadd
  obtain ⟨layout, hadded, rfl⟩ := addColumn_ok hadd
  obtain ⟨-, -, -, hcollections⟩ := layoutWith_ok hadded.layout
  intro name
  rw [withColumn_cellLayout, hcollections, List.findSome?_cons]
  split
  · rename_i hhit
    obtain ⟨rfl, hmulti⟩ := hhit
    have hnew : (s.withColumn c layout).collection? c.name = some c.type :=
      hs'.collection?_eq_some_iff.2
        ⟨s.newColumn c, List.mem_append_right _ (List.mem_singleton_self _), rfl, hmulti, rfl⟩
    rw [hnew]
  · rename_i hmiss
    have hsame : (s.withColumn c layout).collection? name = s.collection? name := by
      ext type
      rw [hs'.collection?_eq_some_iff, hs.collection?_eq_some_iff]
      constructor
      · rintro ⟨other, hother, hname, hmulti, htype⟩
        rcases List.mem_append.1 hother with hother | hother
        · exact ⟨other, hother, hname, hmulti, htype⟩
        · obtain rfl := List.mem_singleton.1 hother
          exact absurd ⟨hname.symm, hmulti⟩ hmiss
      · rintro ⟨other, hother, hrest⟩
        exact ⟨other, List.mem_append_left _ hother, hrest⟩
    rw [hsame, h name, List.findSome?_cons]
    cases s.collection? name <;> rfl

theorem dropColumn (hs : s.Consistent) (h : RecordsCollections past s) {name : String}
    (hdrop : s.dropColumn name = .ok s') : RecordsCollections (s :: past) s' := by
  have hs' := hs.dropColumn hdrop
  obtain ⟨c, -, -, -, rfl⟩ := dropColumn_ok hdrop
  refine h.of_same_layout rfl fun _ _ hnow => ?_
  obtain ⟨other, hother, hrest⟩ := hs'.collection?_eq_some_iff.1 hnow
  exact hs.collection?_eq_some_iff.2 ⟨other, List.mem_of_mem_filter hother, hrest⟩

theorem retypeColumn (hs : s.Consistent) (h : RecordsCollections past s) {name : String}
    {type : ColumnType} (hretype : s.retypeColumn name type = .ok s') :
    RecordsCollections (s :: past) s' := by
  have hs' := hs.retypeColumn hretype
  obtain ⟨c, hfound, hretyped, rfl⟩ := retypeColumn_ok hretype
  obtain ⟨hc, rfl⟩ := mem_of_column? hfound
  refine h.of_same_layout (retyped_cellLayout s c type).2.2 fun _ _ hnow => ?_
  obtain ⟨_, hother, hname, hmulti, htype⟩ := hs'.collection?_eq_some_iff.1 hnow
  rw [retyped_columns hs.names] at hother
  obtain ⟨other, hold, rfl⟩ := List.mem_map.1 hother
  rw [(hs.retyped_kind hretyped hc hold).1] at hmulti
  rw [hs.retyped_multiCell hretyped hc hold hmulti] at hname htype
  exact hs.collection?_eq_some_iff.2 ⟨other, hold, hname, hmulti, htype⟩

theorem setProperties (h : RecordsCollections past s) {p : TableProperties}
    (hset : s.setProperties p = .ok s') : RecordsCollections (s :: past) s' := by
  obtain ⟨-, rfl⟩ := setProperties_ok hset
  exact h.of_same_layout rfl fun _ _ hnow => hnow

theorem change (hs : s.Consistent) (h : RecordsCollections past s) {change : SchemaChange}
    (hchange : s.change change = .ok s') : RecordsCollections (s :: past) s' := by
  cases change with
  | addColumn c => exact h.addColumn hs hchange
  | dropColumn name => exact h.dropColumn hs hchange
  | retypeColumn name type => exact h.retypeColumn hs hchange
  | setProperties p => exact h.setProperties hchange

/-- A column has elements on record if a version of the table had a collection of its name. -/
theorem elementType?_isSome (h : RecordsCollections past s) (name : String) :
    (s.cellLayout.elementType? name).isSome =
      ((s :: past).findSome? (·.collection? name)).isSome := by
  unfold CellLayout.elementType?
  rw [← h name]
  cases hrecorded : s.cellLayout.collectionType? name with
  | none => rfl
  | some type =>
    obtain ⟨t, -, ht⟩ := List.exists_of_findSome?_eq_some ((h name).symm.trans hrecorded)
    show type.elementNameType?.isSome = true
    rw [ColumnType.elementNameType?_isSome, isMultiCell_of_collection? ht]

end RecordsCollections

end TableSchema

/-! ### Names with an element -/

/-- A cell name of the column that has an element can be packed. -/
def CellLayout.TakesElements (layout : CellLayout) (column : String) : Prop :=
  ∃ name packed, name.column = some column ∧ name.element ≠ none ∧
    layout.encode name = .ok packed

/-- Every type has the empty value. -/
theorem ColumnType.validate_nil (t : ColumnType) : t.validate [] = .ok () := by
  unfold validate
  split
  · rename_i s _
    cases s <;> rfl
  · rfl

theorem Naming.encode_length_le {name : String} (h : checkColumnName name = .ok ()) :
    (Text.Utf8.encode name).length ≤ Composite.maxComponentSize := by
  unfold checkColumnName at h
  split at h
  · cases h
  · rename_i hfits
    simp only [Bool.or_eq_true, decide_eq_true_eq, not_or, Nat.not_lt] at hfits
    exact hfits.2

namespace CellLayout

/-- A compound sparse name has an element only of a collection on record. -/
theorem elementType?_of_encode {ts : List ColumnType} {cs : Option CollectionTypes}
    {name : CellName} {column : String} {element packed : Bytes}
    (hcolumn : name.column = some column) (helement : name.element = some element)
    (h : (compoundSparse ts cs).encode name = .ok packed) :
    ((compoundSparse ts cs).elementType? column).isSome = true := by
  obtain ⟨-, -, column', hcolumn', hvalid, -⟩ := compoundSparse_encode_eq_ok_iff.1 h
  obtain rfl : column = column' := Option.some.inj (hcolumn.symm.trans hcolumn')
  obtain ⟨t, ht, -⟩ := hvalid element helement
  rw [ht]
  rfl

/-- The static name of a short valid element. -/
theorem encode_static_element {ts : List ColumnType} {cs : Option CollectionTypes}
    {column : String} (hsize : (Text.Utf8.encode column).length ≤ Composite.maxComponentSize)
    {t : ColumnType} (ht : (compoundSparse ts cs).elementType? column = some t) {element : Bytes}
    (hvalid : t.validate element = .ok ()) (hshort : element.length ≤ Composite.maxComponentSize) :
    ∃ packed,
      (compoundSparse ts cs).encode ⟨[], some column, some element, true⟩ = .ok packed := by
  refine compoundSparse_encode_exists_iff.2 ⟨rfl, column, rfl, hsize, fun bytes hbytes => ?_⟩
  cases hbytes
  exact ⟨hshort, t, ht, hvalid⟩

/-- Elements are taken for the collections on record, and, in names that have nothing but the
column, for any column. -/
theorem takesElements_iff {column : String}
    (hsize : (Text.Utf8.encode column).length ≤ Composite.maxComponentSize)
    (layout : CellLayout) :
    layout.TakesElements column ↔
      layout.isDense = false ∧ layout.isCompound = false ∨
        (layout.elementType? column).isSome = true := by
  cases layout with
  | simpleSparse t =>
    refine ⟨fun _ => .inl ⟨rfl, rfl⟩, fun _ => ?_⟩
    exact ⟨⟨[], some column, some [], false⟩, _, rfl, Option.some_ne_none _, rfl⟩
  | simpleDense t =>
    constructor
    · rintro ⟨name, packed, hcolumn, -, h⟩
      rw [simpleDense_ok h] at hcolumn
      cases hcolumn
    · simp [isDense, elementType?, collectionType?, collections?]
  | compoundDense ts =>
    constructor
    · rintro ⟨name, packed, hcolumn, -, h⟩
      rw [(compoundDense_ok h).1] at hcolumn
      cases hcolumn
    · simp [isDense, elementType?, collectionType?, collections?]
  | compoundSparse ts cs =>
    constructor
    · rintro ⟨name, packed, hcolumn, helement, h⟩
      obtain ⟨element, helement⟩ := Option.ne_none_iff_exists'.1 helement
      exact .inr (elementType?_of_encode hcolumn helement h)
    · intro h
      have hrecorded := h.resolve_left (by simp [isCompound])
      obtain ⟨t, ht⟩ := Option.isSome_iff_exists.1 hrecorded
      obtain ⟨packed, hpacked⟩ := encode_static_element hsize ht t.validate_nil (Nat.zero_le _)
      exact ⟨_, packed, rfl, Option.some_ne_none _, hpacked⟩

end CellLayout

/-! ### Histories -/

namespace TableDefinition

variable {d : TableDefinition} {past : List TableSchema} {s : TableSchema}

theorem recordsCollections_of_compile (h : d.compile = .ok s) : s.RecordsCollections [] := by
  have hs := consistent_of_compile h
  obtain ⟨k, layout, default, hcompiled, rfl⟩ := compile_ok h
  intro name
  rw [List.findSome?_singleton]
  ext type
  rw [hs.collection?_eq_some_iff]
  exact hcompiled.collectionType?

/-- **The layout records the last collection of each name.** -/
theorem Evolved.recordsCollections (h : d.Evolved past s) : s.RecordsCollections past := by
  induction h with
  | compiled hcompile => exact recordsCollections_of_compile hcompile
  | changed hbefore hchange ih => exact ih.change hbefore.consistent hchange

/-- **The layout records the last collection of each name**, and elements are accepted for a column
if and only if the table or a version before it had a collection of its name, or cell names are bare
column names. -/
theorem element_accepted_iff (h : d.Evolved past s) (name : String) :
    s.cellLayout.collectionType? name = (s :: past).findSome? (·.collection? name) ∧
      ∀ c ∈ s.columns, (s.cellLayout.TakesElements c.name ↔
        s.isDense = false ∧ s.cellLayout.isCompound = false ∨
          ∃ t ∈ s :: past, (t.collection? c.name).isSome = true) := by
  have hs := h.consistent
  have hrecords := h.recordsCollections
  refine ⟨hrecords name, fun c hc => ?_⟩
  rw [CellLayout.takesElements_iff (Naming.encode_length_le (hs.validNames c hc)), hs.dense,
    hrecords.elementType?_isSome, List.findSome?_isSome_iff]

/-- Posts with their tags. -/
def postsDefinition : TableDefinition where
  keyspace := "site"
  name := "posts"
  columns := [⟨"post", .text, false⟩, ⟨"tags", .set .text false, false⟩]
  partitionKeys := [["post"]]

/-- The table of the posts. -/
def posts : TableSchema where
  keyspace := "site"
  name := "posts"
  keyLayout := .single .text
  cellLayout := .compoundSparse [] (some [("tags", .set .text false)])
  defaultType := .blob
  isDense := false
  isCompact := false
  columns := [⟨"post", .text, .partitionKey, none⟩, ⟨"tags", .set .text false, .regular, some 0⟩]
  compactValue := none
  properties := {}

/-- The posts with their tags as one text. -/
def postsRetagged : TableSchema :=
  (posts.without "tags").withColumn ⟨"tags", .text, false⟩ posts.cellLayout

theorem posts_compile : postsDefinition.compile = .ok posts := by decide

theorem postsRetagged_evolved :
    postsDefinition.Evolved [posts.without "tags", posts] postsRetagged := by
  have hdrop : posts.change (.dropColumn "tags") = .ok (posts.without "tags") := rfl
  have hadd : (posts.without "tags").change (.addColumn ⟨"tags", .text, false⟩) =
      .ok postsRetagged := rfl
  exact ((Evolved.compiled posts_compile).changed hdrop).changed hadd

/-- Elements are accepted for the text, since there was a set of its name. -/
theorem element_accepted_for_text :
    postsDefinition.Evolved [posts.without "tags", posts] postsRetagged ∧
      postsRetagged.cellLayout.TakesElements "tags" := by
  refine ⟨postsRetagged_evolved, ?_⟩
  have hset : ∃ t ∈ [postsRetagged, posts.without "tags", posts],
      (t.collection? "tags").isSome = true := ⟨posts, by simp, rfl⟩
  exact ((element_accepted_iff postsRetagged_evolved "tags").2
    ⟨"tags", .text, .regular, some 0⟩ (by decide)).2 (.inr hset)

/-- **A collection outlives its column.**  The tags are a text now, but the layout has them as a set
still, and packs the name of one of their elements. -/
theorem collection_outlives_column :
    postsDefinition.compile = .ok posts ∧
      posts.changeAll [.dropColumn "tags", .addColumn ⟨"tags", .text, false⟩] =
        .ok postsRetagged ∧
      postsRetagged.column? "tags" = some ⟨"tags", .text, .regular, some 0⟩ ∧
      postsRetagged.cellLayout.collectionType? "tags" = some (.set .text false) ∧
      ∃ packed,
        postsRetagged.cellLayout.encode ⟨[], some "tags", some [97], false⟩ = .ok packed :=
  ⟨posts_compile, rfl, rfl, rfl, _, rfl⟩

end TableDefinition

end WideColumn
