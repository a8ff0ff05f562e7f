import WideColumn.Proofs.ConsistentTables
import WideColumn.Proofs.FaithfulPacking
import WideColumn.Proofs.TextOrder

/-!
# What is stored outlives changes

Cells stay as they were written while the schema of their table changes.  So names and keys must be
taken apart as before, and values that were valid must stay so.

* `ColumnType.WidensTo` — all values of a type are values of another one;
* `widensTo_of_acceptsValuesOf`, `widensTo_of_keepsOrderOf` — **the types that a column may change
  to have all of its values**;
* `TableSchema.KeepsReadable` and `KeepsReadable.change` — a change leaves names and keys readable,
  with values that are valid where they stand;
* `TableSchema.KeepsColumn` and `KeepsColumn.change` — and columns that are not dropped keep their
  values;
* `TableDefinition.stored_outlives_changes` — **so does every sequence of changes**.
-/

namespace WideColumn

open Effects

/-! ### Wider types -/

/-- The bytes below 128 are the characters with these numbers. -/
theorem Text.Utf8.encode_ascii {bytes : Bytes} (h : ∀ b ∈ bytes, b < 128) :
    encode (String.ofList (bytes.map fun b => Char.ofNat b.toNat)) = bytes := by
  have hchar : ∀ b ∈ bytes, String.utf8EncodeChar (Char.ofNat b.toNat) = [b] := by
    intro b hb
    have hlt : b.toNat < 128 := UInt8.lt_iff_toNat_lt.1 (h b hb)
    have hpoint : (Char.ofNat b.toNat).toNat = b.toNat := by
      have hvalid : b.toNat.isValidChar := .inl (by omega)
      rw [Char.ofNat, dif_pos hvalid]
      rfl
    rw [utf8EncodeChar_eq, hpoint, leadByte, laterBytes, if_pos (by omega), if_pos (by omega)]
    simp
  rw [encode_eq_flatMap, String.toList_ofList, List.flatMap_map]
  exact (List.flatMap_congr hchar).trans (List.flatMap_singleton' bytes)

namespace ColumnType

/-- All values of the type are values of the other one. -/
def WidensTo (t t' : ColumnType) : Prop :=
  ∀ value, t.validate value = .ok () → t'.validate value = .ok ()

theorem WidensTo.refl (t : ColumnType) : t.WidensTo t := fun _ h => h

theorem WidensTo.trans {t t' t'' : ColumnType} (h : t.WidensTo t') (h' : t'.WidensTo t'') :
    t.WidensTo t'' := fun value hvalue => h' value (h value hvalue)

/-- Directions do not matter for validity. -/
theorem validate_base (t : ColumnType) (value : Bytes) :
    t.base.validate value = .ok () ↔ t.validate value = .ok () := by
  induction t with
  | descending t ih => exact ih.trans (validate_descending t value).symm
  | scalar | list | set | map => exact Iff.rfl

theorem widensTo_of_base {t t' : ColumnType} (h : t.base.WidensTo t'.base) : t.WidensTo t' :=
  fun value hvalue => (validate_base t' value).1 (h value ((validate_base t value).2 hvalue))

theorem widensTo_blob (t : ColumnType) : t.WidensTo blob := fun _ _ => rfl

theorem widensTo_varint (t : ColumnType) : t.WidensTo (scalar .varint) := fun _ _ => rfl

theorem ascii_widensTo_text : (scalar .ascii).WidensTo text := by
  intro value h
  have hascii : ∀ b ∈ value, b < 128 := by
    by_contra hnot
    rw [show (scalar .ascii).validate value = _ from if_neg (by simpa using hnot)] at h
    cases h
  rw [← Text.Utf8.encode_ascii hascii]
  exact validate_text _

theorem timeuuid_widensTo_uuid : (scalar .timeuuid).WidensTo (scalar .uuid) := by
  intro value h
  obtain ⟨⟨⟩, hwidth, -⟩ := except_bind_eq_ok.1 h
  exact validateWidth_eq_ok_iff.2 (validateWidth_eq_ok_iff.1 hwidth)

/-- A type that accepts the values of another one has all of them. -/
theorem widensTo_of_acceptsValuesOf {next previous : ColumnType}
    (h : next.acceptsValuesOf previous = true) : previous.WidensTo next := by
  unfold acceptsValuesOf at h
  rcases Bool.or_eq_true_iff.1 h with hsame | hwider
  · rw [of_decide_eq_true hsame]
    exact .refl previous
  · split at hwider
    · exact widensTo_blob _
    · exact ascii_widensTo_text
    · exact widensTo_varint _
    · exact widensTo_varint _
    · exact timeuuid_widensTo_uuid
    · cases hwider

/-- A type that keeps the order of another one has all of its values. -/
theorem widensTo_of_keepsOrderOf {next previous : ColumnType}
    (h : next.keepsOrderOf previous = true) : previous.WidensTo next := by
  unfold keepsOrderOf at h
  rcases Bool.or_eq_true_iff.1 h with hsame | hwider
  · rw [of_decide_eq_true hsame]
    exact .refl previous
  · refine widensTo_of_base ?_
    split at hwider
    · rename_i hnext hprevious
      rw [hnext, hprevious]
      exact ascii_widensTo_text
    · rename_i hnext hprevious
      rw [hnext]
      exact widensTo_blob _
    · rename_i hnext hprevious
      rw [hnext]
      exact widensTo_blob _
    · rename_i hnext hprevious
      rw [hnext]
      exact widensTo_varint _
    · rename_i hnext hprevious
      rw [hnext]
      exact widensTo_varint _
    · rw [of_decide_eq_true hwider]
      exact .refl _

theorem widensTo_descend (t : ColumnType) : t.WidensTo t.descend := by
  refine widensTo_of_base ?_
  rw [base_descend]
  exact .refl _

end ColumnType

/-! ### Layouts -/

/-- Values that are valid for the types of columns are valid for wider ones. -/
theorem FitTypes.widen {α : Type} {f g : α → ColumnType} {columns : List α} {values : List Bytes}
    (hwiden : ∀ c ∈ columns, (f c).WidensTo (g c)) (h : FitTypes (columns.map f) values) :
    FitTypes (columns.map g) values := by
  refine ⟨by simpa using h.length, ?_⟩
  induction columns generalizing values with
  | nil => exact h.valid
  | cons c columns ih =>
    cases values with
    | nil => rfl
    | cons value values =>
      obtain ⟨hc, hcolumns⟩ := List.forall_mem_cons.1 hwiden
      obtain ⟨hvalue, hvalues⟩ := h.tail
      exact except_bind_eq_ok.2 ⟨(), hc value hvalue, ih hcolumns hvalues⟩

/-- How keys are taken apart depends on the number of columns only. -/
theorem KeyLayout.decode_ofTypes {types types' : List ColumnType}
    (h : types.length = types'.length) : (ofTypes types).decode = (ofTypes types').decode := by
  by_cases hsingle : types.length = 1
  · obtain ⟨t, rfl⟩ := List.length_eq_one_iff.1 hsingle
    obtain ⟨t', rfl⟩ := List.length_eq_one_iff.1 (h.symm.trans hsingle)
    rfl
  · have hcomposite {ts : List ColumnType} (hts : ts.length ≠ 1) : ofTypes ts = composite ts := by
      refine ofTypes_of_isComposite ?_
      rw [isComposite_ofTypes]
      exact decide_eq_true hts
    rw [hcomposite hsingle, hcomposite (h ▸ hsingle)]
    funext key
    simp only [decode, h]

namespace CellLayout

theorem carried_clustering (layout : CellLayout) (name : CellName) :
    (layout.carried name).clustering = name.clustering := by
  cases layout <;> rfl

/-- How names are taken apart does not depend on the clustering types. -/
theorem withClusteringType_decode (position : Nat) (type : ColumnType) (layout : CellLayout) :
    (layout.withClusteringType position type).decode = layout.decode := by
  funext packed
  cases layout with
  | simpleSparse | simpleDense => rfl
  | compoundSparse | compoundDense => simp [withClusteringType, decode]

/-- Nor does it depend on the collections. -/
theorem withCollection?_decode {column : String} {type : ColumnType} {layout layout' : CellLayout}
    (h : layout.withCollection? column type = some layout') : layout'.decode = layout.decode := by
  cases layout with
  | compoundSparse types collections =>
    cases h
    rfl
  | simpleSparse | simpleDense | compoundDense => cases h

end CellLayout

/-! ### Changes -/

namespace TableSchema

variable {s s' s'' : TableSchema}

/-- Names and keys that were stored under one schema are taken apart alike under another one, and
their values are valid there. -/
structure KeepsReadable (s s' : TableSchema) : Prop where
  names : s'.cellLayout.decode = s.cellLayout.decode
  keys : s'.keyLayout.decode = s.keyLayout.decode
  clustering : ∀ values, FitTypes s.cellLayout.clusteringTypes values →
    FitTypes s'.cellLayout.clusteringTypes values
  keyParts : ∀ parts, FitTypes s.keyLayout.types parts → FitTypes s'.keyLayout.types parts

/-- The values of a column stay valid. -/
def KeepsColumn (s s' : TableSchema) (name : String) : Prop :=
  ∀ c, s.column? name = some c → ∃ c', s'.column? name = some c' ∧ c.type.WidensTo c'.type

theorem KeepsReadable.refl (s : TableSchema) : s.KeepsReadable s :=
  ⟨rfl, rfl, fun _ h => h, fun _ h => h⟩

theorem KeepsReadable.trans (h : s.KeepsReadable s') (h' : s'.KeepsReadable s'') :
    s.KeepsReadable s'' where
  names := h'.names.trans h.names
  keys := h'.keys.trans h.keys
  clustering := fun values hvalues => h'.clustering values (h.clustering values hvalues)
  keyParts := fun parts hparts => h'.keyParts parts (h.keyParts parts hparts)

theorem KeepsColumn.refl (s : TableSchema) (name : String) : s.KeepsColumn s name :=
  fun c hc => ⟨c, hc, .refl _⟩

theorem KeepsColumn.trans {name : String} (h : s.KeepsColumn s' name)
    (h' : s'.KeepsColumn s'' name) : s.KeepsColumn s'' name := by
  intro c hc
  obtain ⟨c', hc', hwiden⟩ := h c hc
  obtain ⟨c'', hc'', hwiden'⟩ := h' c' hc'
  exact ⟨c'', hc'', hwiden.trans hwiden'⟩

theorem Consistent.column?_eq_some_iff (h : s.Consistent) {name : String} {c : Column} :
    s.column? name = some c ↔ c ∈ s.columns ∧ c.name = name :=
  find?_name_eq_some_iff h.names

/-! ### A column that comes or goes -/

theorem layoutWith_decode {c : ColumnDeclaration} {layout : CellLayout}
    (h : s.layoutWith c = .ok layout) : layout.decode = s.cellLayout.decode := by
  unfold layoutWith at h
  split at h
  · cases h
    rfl
  · split at h
    · cases h
    · split at h
      · rename_i hroom
        cases h
        exact CellLayout.withCollection?_decode hroom
      · cases h

theorem keepsReadable_addColumn {c : ColumnDeclaration} (hadd : s.addColumn c = .ok s') :
    s.KeepsReadable s' := by
  obtain ⟨layout, hadded, rfl⟩ := addColumn_ok hadd
  refine ⟨layoutWith_decode hadded.layout, rfl, fun values hvalues => ?_, fun _ h => h⟩
  show FitTypes layout.clusteringTypes values
  rw [(layoutWith_ok hadded.layout).1]
  exact hvalues

theorem keepsColumn_addColumn (hs : s.Consistent) {c : ColumnDeclaration}
    (hadd : s.addColumn c = .ok s') (name : String) : s.KeepsColumn s' name := by
  intro kept hkept
  obtain ⟨hmem, hname⟩ := hs.column?_eq_some_iff.1 hkept
  have hs' := hs.addColumn hadd
  obtain ⟨layout, -, rfl⟩ := addColumn_ok hadd
  exact ⟨kept, hs'.column?_eq_some_iff.2 ⟨List.mem_append_left _ hmem, hname⟩, .refl _⟩

theorem keepsReadable_dropColumn {name : String} (hdrop : s.dropColumn name = .ok s') :
    s.KeepsReadable s' := by
  obtain ⟨c, -, -, -, rfl⟩ := dropColumn_ok hdrop
  exact ⟨rfl, rfl, fun _ hvalues => hvalues, fun _ hparts => hparts⟩

theorem keepsColumn_dropColumn (hs : s.Consistent) {dropped name : String}
    (hdrop : s.dropColumn dropped = .ok s') (hne : dropped ≠ name) : s.KeepsColumn s' name := by
  intro kept hkept
  obtain ⟨hmem, rfl⟩ := hs.column?_eq_some_iff.1 hkept
  have hs' := hs.dropColumn hdrop
  obtain ⟨c, -, -, -, rfl⟩ := dropColumn_ok hdrop
  have hstays : kept ∈ (s.without dropped).columns :=
    List.mem_filter.2 ⟨hmem, decide_eq_true hne.symm⟩
  exact ⟨kept, hs'.column?_eq_some_iff.2 ⟨hstays, rfl⟩, .refl _⟩

/-! ### Another type -/

/-- The new type of a column has all values of the old one. -/
theorem widensTo_of_checkRetype {c : Column} {type : ColumnType}
    (h : s.checkRetype c type = .ok ()) : c.type.WidensTo (storedType c type) := by
  have hbase : c.type.WidensTo c.type.base := by
    refine ColumnType.widensTo_of_base ?_
    rw [ColumnType.base_base]
    exact .refl _
  have hnew : c.type.base.WidensTo type := by
    obtain ⟨-, h⟩ := ite_error_eq_ok.1 h
    obtain ⟨-, h⟩ := ite_error_eq_ok.1 h
    simp only at h
    by_cases hrole : c.role = .clusteringKey
    · rw [if_pos hrole] at h
      by_contra hnot
      rw [if_neg fun hkeeps => hnot (ColumnType.widensTo_of_keepsOrderOf hkeeps)] at h
      cases h
    · rw [if_neg hrole] at h
      by_contra hnot
      rw [if_neg fun haccepts => hnot (ColumnType.widensTo_of_acceptsValuesOf haccepts)] at h
      cases h
  have hstored : type.WidensTo (storedType c type) := by
    unfold storedType
    split
    · exact ColumnType.widensTo_descend type
    · exact .refl type
  exact (hbase.trans hnew).trans hstored

theorem retypeColumn_checked {name : String} {type : ColumnType}
    (h : s.retypeColumn name type = .ok s') :
    ∃ c, s.column? name = some c ∧ s.checkRetype c type = .ok () ∧ s' = s.retyped c type := by
  unfold retypeColumn at h
  split at h
  · cases h
  · rename_i c hc
    obtain ⟨⟨⟩, hcheck, h⟩ := except_bind_eq_ok.1 h
    cases h
    exact ⟨c, hc, hcheck, rfl⟩

/-- No column has fewer values afterwards. -/
theorem Consistent.widensTo_retype (hs : s.Consistent) {c : Column} (hc : c ∈ s.columns)
    {type : ColumnType} (hcheck : s.checkRetype c type = .ok ()) {other : Column}
    (hother : other ∈ s.columns) :
    other.type.WidensTo (other.retype c.name (storedType c type)).type := by
  rw [Column.retype_type]
  split
  · rename_i hname
    rw [hs.eq_of_name hother hc hname]
    exact widensTo_of_checkRetype hcheck
  · exact .refl _

theorem retyped_decode (s : TableSchema) (c : Column) (type : ColumnType) :
    (s.retyped c type).cellLayout.decode = s.cellLayout.decode :=
  s.retyped_cellLayout_keeps c type CellLayout.withClusteringType_decode

theorem keepsReadable_retypeColumn (hs : s.Consistent) {name : String} {type : ColumnType}
    (hretype : s.retypeColumn name type = .ok s') : s.KeepsReadable s' := by
  obtain ⟨c, hfound, hcheck, rfl⟩ := retypeColumn_checked hretype
  obtain ⟨hc, rfl⟩ := mem_of_column? hfound
  refine ⟨retyped_decode s c type, ?_, fun values hvalues => ?_, fun parts hparts => ?_⟩
  · rw [hs.retyped_keyLayout hc type, hs.keyLayout]
    exact KeyLayout.decode_ofTypes (by simp)
  · rw [hs.retyped_clusteringTypes hc type, List.map_map]
    rw [hs.clustering] at hvalues
    exact hvalues.widen fun other hother =>
      hs.widensTo_retype hc hcheck (mem_clusteringColumns.1 hother).1
  · rw [hs.retyped_keyLayout hc type, KeyLayout.types_ofTypes, List.map_map]
    rw [hs.keyLayout, KeyLayout.types_ofTypes] at hparts
    exact hparts.widen fun other hother =>
      hs.widensTo_retype hc hcheck (mem_partitionKeyColumns.1 hother).1

theorem keepsColumn_retypeColumn (hs : s.Consistent) {retyped : String} {type : ColumnType}
    (hretype : s.retypeColumn retyped type = .ok s') (name : String) : s.KeepsColumn s' name := by
  intro kept hkept
  obtain ⟨hmem, rfl⟩ := hs.column?_eq_some_iff.1 hkept
  have hs' := hs.retypeColumn hretype
  obtain ⟨c, hfound, hcheck, rfl⟩ := retypeColumn_checked hretype
  obtain ⟨hc, rfl⟩ := mem_of_column? hfound
  refine ⟨kept.retype c.name (storedType c type), hs'.column?_eq_some_iff.2 ⟨?_, ?_⟩,
    hs.widensTo_retype hc hcheck hmem⟩
  · rw [retyped_columns hs.names]
    exact List.mem_map_of_mem hmem
  · exact Column.retype_name _ _ _

/-! ### Every change -/

/-- **A change leaves names and keys readable.** -/
theorem KeepsReadable.change (hs : s.Consistent) {change : SchemaChange}
    (hchange : s.change change = .ok s') : s.KeepsReadable s' := by
  cases change with
  | addColumn c => exact keepsReadable_addColumn hchange
  | dropColumn name => exact keepsReadable_dropColumn hchange
  | retypeColumn name type => exact keepsReadable_retypeColumn hs hchange
  | setProperties p =>
    obtain ⟨-, rfl⟩ := setProperties_ok hchange
    exact ⟨rfl, rfl, fun _ hvalues => hvalues, fun _ hparts => hparts⟩

/-- **A change leaves the values of a column valid**, unless it drops the column. -/
theorem KeepsColumn.change (hs : s.Consistent) {change : SchemaChange}
    (hchange : s.change change = .ok s') {name : String} (hkept : change ≠ .dropColumn name) :
    s.KeepsColumn s' name := by
  cases change with
  | addColumn c => exact keepsColumn_addColumn hs hchange name
  | dropColumn dropped =>
    exact keepsColumn_dropColumn hs hchange fun hsame => hkept (hsame ▸ rfl)
  | retypeColumn retyped type => exact keepsColumn_retypeColumn hs hchange name
  | setProperties p =>
    obtain ⟨-, rfl⟩ := setProperties_ok hchange
    exact fun c hc => ⟨c, hc, .refl _⟩

/-- What was stored before some changes can be read after them, and columns that were not dropped
keep their values. -/
theorem kept_changeAll {changes : List SchemaChange} (hs : s.Consistent)
    (hchanges : s.changeAll changes = .ok s') :
    s.KeepsReadable s' ∧ ∀ name, .dropColumn name ∉ changes → s.KeepsColumn s' name :=
  ⟨hs.changeAll_related (R := KeepsReadable) (.refl s) .trans
      (fun _ _ _ _ hnext hchange => KeepsReadable.change hnext hchange) hchanges,
    fun name => hs.changeAll_keeps_column (R := fun a b => a.KeepsColumn b name) (.refl s name)
      .trans (fun _ _ _ hnext hchange hkept => KeepsColumn.change hnext hchange hkept) hchanges⟩

end TableSchema

/-! ### Histories -/

namespace TableDefinition

/-- **What is stored outlives changes.**  Names and keys that were packed under a table are taken
apart as before after any further changes, and their values are valid where they stand; and all
values of a column stay valid unless the column is dropped. -/
theorem stored_outlives_changes {d : TableDefinition} {s₀ s s' : TableSchema}
    {before after : List SchemaChange} (hcompile : d.compile = .ok s₀)
    (hbefore : s₀.changeAll before = .ok s) (hafter : s.changeAll after = .ok s') :
    (∀ name packed, s.cellLayout.encode name = .ok packed →
      FitTypes s'.cellLayout.clusteringTypes name.clustering ∧
        ∃ parts, parts.clustering = name.clustering ∧ s.cellLayout.decode packed = .ok parts ∧
          s'.cellLayout.decode packed = .ok parts) ∧
    (∀ parts key, s.keyLayout.encode parts = .ok key →
      FitTypes s'.keyLayout.types parts ∧ s.keyLayout.decode key = .ok parts ∧
        s'.keyLayout.decode key = .ok parts) ∧
    ∀ name c, s.column? name = some c → .dropColumn name ∉ after →
      ∃ c', s'.column? name = some c' ∧
        ∀ value, c.type.validate value = .ok () → c'.type.validate value = .ok () := by
  have hs : s.Consistent := by
    obtain ⟨past, h⟩ := (Evolved.compiled hcompile).changeAll hbefore
    exact h.consistent
  obtain ⟨hreadable, hcolumns⟩ := TableSchema.kept_changeAll hs hafter
  refine ⟨fun name packed h => ?_, fun parts key h => ?_, fun name c hc hkept => ?_⟩
  · have hdecode := CellLayout.decode_of_encode h
    refine ⟨hreadable.clustering _ (CellLayout.fitTypes_of_encode h), _,
      CellLayout.carried_clustering s.cellLayout name, hdecode, ?_⟩
    rw [hreadable.names, hdecode]
  · obtain ⟨hdecode, -⟩ := KeyLayout.decode_of_encode h
    refine ⟨hreadable.keyParts _ (KeyLayout.fitTypes_of_encode h), hdecode, ?_⟩
    rw [hreadable.keys, hdecode]
  · exact hcolumns name hkept c hc

/-- Who lay at a berth on a day, stored before the types of pier and day widened and the boats were
dropped, and the values of the column of days. -/
theorem stored_outlives_changes_berths :
    ∃ s₀ s s' packed key, berthsDefinition.compile = .ok s₀ ∧
      s₀.changeAll (berthsChanges.take 2) = .ok s ∧ s.changeAll (berthsChanges.drop 2) = .ok s' ∧
      s.cellLayout.encode ⟨[[0, 0, 0, 9]], some "boat", none, false⟩ = .ok packed ∧
      s'.column? "boat" = none ∧ FitTypes s'.cellLayout.clusteringTypes [[0, 0, 0, 9]] ∧
      (∃ parts, s.cellLayout.decode packed = .ok parts ∧
        s'.cellLayout.decode packed = .ok parts) ∧
      s.keyLayout.encode [[0x41], [0x42]] = .ok key ∧
      s'.keyLayout.decode key = .ok [[0x41], [0x42]] ∧
      ∃ c', s'.column? "day" = some c' ∧ c'.type.validate [0, 0, 0, 9] = .ok () := by
  have hcompile : berthsDefinition.compile = .ok _ := rfl
  obtain ⟨hnames, hkeys, hcolumns⟩ := stored_outlives_changes hcompile
    (show TableSchema.changeAll _ (berthsChanges.take 2) = _ from rfl)
    (show TableSchema.changeAll _ (berthsChanges.drop 2) = _ from rfl)
  obtain ⟨hfits, parts, -, hparts⟩ := hnames ⟨[[0, 0, 0, 9]], some "boat", none, false⟩ _ rfl
  obtain ⟨-, -, hkey⟩ := hkeys [[0x41], [0x42]] _ rfl
  obtain ⟨c', hc', hwiden⟩ := hcolumns "day" _ rfl (by decide)
  exact ⟨_, _, _, _, _, hcompile, rfl, rfl, rfl, rfl, hfits, ⟨parts, hparts⟩, rfl, hkey, c', hc',
    hwiden _ rfl⟩

end TableDefinition

end WideColumn
