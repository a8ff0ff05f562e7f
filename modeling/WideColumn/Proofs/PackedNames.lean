import WideColumn.CellName.Layout
import WideColumn.Proofs.Effects

/-!
# Packed names

A packed composite tells its components, a packed key its values, and a packed cell name the parts
of the name.

* `Composite.decode_encode` — unpacking gives what was packed;
* `Composite.encode_injective` — different composites are packed differently;
* `Composite.encode_exists_iff` — which composites can be packed;
* `KeyLayout.decode_of_encode` — unpacking a key gives its values;
* `CellLayout.decode_of_encode` — the same for cell names, of which only a simple sparse layout
  forgets a part: the element, which it has no place for;
* `CellLayout.compoundSparse_encode_exists_iff` — which compound sparse names can be packed;
* `CellLayout.clustering_fits` — the clustering values of a name fit into a composite again.
-/

namespace WideColumn

open Effects

namespace Composite

/-! ### Components -/

theorem bigEndian_two (n : Nat) : Bytes.bigEndian 2 n = [(n / 256).toUInt8, n.toUInt8] := rfl

/-- The two bytes of a length spell it. -/
theorem length_of_bytes {n : Nat} (h : n ≤ maxComponentSize) :
    (n / 256).toUInt8.toNat * 256 + n.toUInt8.toNat = n := by
  have hn : n < 65536 := by unfold maxComponentSize at h; omega
  simp only [Nat.toUInt8, UInt8.toNat_ofNat']
  omega

theorem encodeComponent_ok {component packed : Bytes} (h : encodeComponent component = .ok packed) :
    component.length ≤ maxComponentSize ∧
      packed = (component.length / 256).toUInt8 :: component.length.toUInt8 :: (component ++ [0]) := by
  unfold encodeComponent at h
  split at h
  · cases h
  · cases h
    exact ⟨by omega, by rw [bigEndian_two]; rfl⟩

theorem encodeComponents_cons_ok {component packed : Bytes} {rest : List Bytes}
    (h : encodeComponents (component :: rest) = .ok packed) :
    ∃ first more, encodeComponent component = .ok first ∧ encodeComponents rest = .ok more ∧
      packed = first ++ more := by
  obtain ⟨first, hf, h⟩ := except_bind_eq_ok.1 h
  obtain ⟨more, hr, h⟩ := except_bind_eq_ok.1 h
  cases h
  exact ⟨first, more, hf, hr, rfl⟩

theorem decodeComponents_of_encode {components : List Bytes} {packed : Bytes}
    (h : encodeComponents components = .ok packed) :
    decodeComponents packed = .ok components := by
  induction components generalizing packed with
  | nil =>
    cases h
    exact decodeComponents.eq_1
  | cons component rest ih =>
    obtain ⟨first, more, hf, hr, rfl⟩ := encodeComponents_cons_ok h
    obtain ⟨hsize, rfl⟩ := encodeComponent_ok hf
    have hlength : ¬ (component ++ 0 :: more).length < component.length + 1 := by
      rw [List.length_append, List.length_cons]
      omega
    have hdrop : (component ++ 0 :: more).drop (component.length + 1) = more := by
      rw [List.drop_append]
      simp
    simp only [List.cons_append, List.append_assoc, List.nil_append]
    rw [decodeComponents, length_of_bytes hsize, if_neg hlength, hdrop, ih hr]
    show Except.ok _ = _
    rw [List.take_left]

/-- No component is long enough to be taken for the mark of a static composite. -/
theorem not_staticMarker_of_encode {components : List Bytes} {packed : Bytes}
    (h : encodeComponents components = .ok packed) : staticMarker.isPrefixOf packed = false := by
  cases components with
  | nil =>
    cases h
    rfl
  | cons component rest =>
    obtain ⟨first, more, hf, -, rfl⟩ := encodeComponents_cons_ok h
    obtain ⟨hsize, rfl⟩ := encodeComponent_ok hf
    rw [Bool.eq_false_iff]
    intro hmarker
    simp only [staticMarker, List.cons_append, List.isPrefixOf, Bool.and_true, Bool.and_eq_true,
      beq_iff_eq] at hmarker
    have hlength := length_of_bytes hsize
    rw [← hmarker.1, ← hmarker.2] at hlength
    unfold maxComponentSize at hsize
    have hff : (0xff : UInt8).toNat = 255 := rfl
    rw [hff] at hlength
    omega

/-! ### Composites -/

/-- **Unpacking gives what was packed.** -/
theorem decode_encode {c : Composite} {packed : Bytes} (h : c.encode = .ok packed) :
    decode packed = .ok c := by
  obtain ⟨components, isStatic⟩ := c
  obtain ⟨body, hbody, h⟩ := except_bind_eq_ok.1 h
  cases h
  unfold decode
  cases isStatic with
  | true =>
    rw [if_pos (by rfl)]
    exact except_bind_eq_ok.2 ⟨components, decodeComponents_of_encode hbody, rfl⟩
  | false =>
    rw [if_neg (by simp [not_staticMarker_of_encode hbody])]
    exact except_bind_eq_ok.2 ⟨components, decodeComponents_of_encode hbody, rfl⟩

theorem encode_injective {c d : Composite} {packed : Bytes} (hc : c.encode = .ok packed)
    (hd : d.encode = .ok packed) : c = d :=
  Except.ok.inj ((decode_encode hc).symm.trans (decode_encode hd))

theorem encodeComponents_exists_iff {components : List Bytes} :
    (∃ packed, encodeComponents components = .ok packed) ↔
      ∀ c ∈ components, c.length ≤ maxComponentSize := by
  induction components with
  | nil => exact ⟨fun _ => nofun, fun _ => ⟨[], rfl⟩⟩
  | cons component rest ih =>
    rw [List.forall_mem_cons, ← ih]
    constructor
    · rintro ⟨packed, h⟩
      obtain ⟨first, more, hf, hr, -⟩ := encodeComponents_cons_ok h
      exact ⟨(encodeComponent_ok hf).1, more, hr⟩
    · rintro ⟨hsize, more, hr⟩
      have hf : encodeComponent component =
          .ok (Bytes.bigEndian 2 component.length ++ component ++ [0]) := if_neg (by omega)
      exact ⟨_, except_bind_eq_ok.2 ⟨_, hf, except_bind_eq_ok.2 ⟨more, hr, rfl⟩⟩⟩

/-- **A composite can be packed** if none of its components is too long, and only then. -/
theorem encode_exists_iff {c : Composite} :
    (∃ packed, c.encode = .ok packed) ↔ ∀ component ∈ c.components,
      component.length ≤ maxComponentSize := by
  rw [← encodeComponents_exists_iff]
  constructor
  · rintro ⟨packed, h⟩
    obtain ⟨body, hbody, -⟩ := except_bind_eq_ok.1 h
    exact ⟨body, hbody⟩
  · rintro ⟨body, hbody⟩
    exact ⟨_, except_bind_eq_ok.2 ⟨body, hbody, rfl⟩⟩

end Composite

/-! ### Keys -/

/-- **Unpacking a key gives the values that were packed**, one for each column. -/
theorem KeyLayout.decode_of_encode {layout : KeyLayout} {parts : List Bytes} {key : Bytes}
    (h : layout.encode parts = .ok key) :
    layout.decode key = .ok parts ∧ parts.length = layout.types.length := by
  unfold encode at h
  split at h
  · cases h
  · rename_i hlength
    have hlength : parts.length = layout.types.length := Decidable.not_not.1 hlength
    obtain ⟨⟨⟩, -, h⟩ := except_bind_eq_ok.1 h
    refine ⟨?_, hlength⟩
    cases layout with
    | single t =>
      obtain ⟨value, rfl⟩ := List.length_eq_one_iff.1 hlength
      cases h
      simp [decode]
    | composite ts =>
      refine except_bind_eq_ok.2 ⟨_, Composite.decode_encode h, ?_⟩
      have hcount : parts.length = ts.length := hlength
      rw [if_neg (by simp [hcount])]
      rfl

namespace CellLayout

/-! ### Cell names -/

/-- The parts of a name that its packed form carries. -/
def carried (layout : CellLayout) (name : CellName) : CellName :=
  match layout with
  | simpleSparse _ => { name with element := none }
  | _ => name

theorem carried_eq_self {layout : CellLayout} {name : CellName} (h : name.element = none) :
    layout.carried name = name := by
  obtain ⟨clustering, column, element, isStatic⟩ := name
  cases h
  cases layout <;> rfl

theorem encode_carried (layout : CellLayout) (name : CellName) :
    layout.encode (layout.carried name) = layout.encode name := by
  cases layout <;> rfl

theorem columnName_encode (column : String) : columnName (Text.Utf8.encode column) = .ok column := by
  unfold columnName
  rw [Text.Utf8.decode?_eq_some_iff.2 rfl]

theorem eq_dense_of_requireDense {name : CellName} (h : requireDense name = .ok ()) :
    name = .dense name.clustering := by
  obtain ⟨clustering, column, element, isStatic⟩ := name
  cases column <;> cases element <;> cases isStatic <;> simp [requireDense] at h
  rfl

theorem requireColumn_ok {name : CellName} {column : String}
    (h : requireColumn name = .ok column) : name.column = some column := by
  unfold requireColumn at h
  split at h
  · cases h
    assumption
  · cases h

/-- What stands in front of the column: the clustering values, or as many empty ones. -/
theorem leadingComponents_eq_ok_iff {size : Nat} {name : CellName} {leading : List Bytes} :
    leadingComponents size name = .ok leading ↔
      name.clustering.length = (if name.isStatic then 0 else size) ∧
        leading = if name.isStatic then List.replicate size [] else name.clustering := by
  unfold leadingComponents
  cases name.isStatic <;> simp only [Bool.false_eq_true, if_true, if_false]
  · split
    · rename_i hlength
      rw [and_iff_right hlength, Except.ok.injEq, eq_comm]
    · rename_i hlength
      exact ⟨nofun, fun h => absurd h.1 hlength⟩
  · split
    · rename_i hempty
      rw [and_iff_right (List.isEmpty_iff_length_eq_zero.1 hempty), Except.ok.injEq, eq_comm]
    · rename_i hempty
      exact ⟨nofun, fun h => absurd (List.isEmpty_iff_length_eq_zero.2 h.1) hempty⟩

/-- The element comes last, if there is one, and is valid for the type of its collection. -/
theorem elementComponent_eq_ok_iff {layout : CellLayout} {column : String} {element : Option Bytes}
    {component : List Bytes} :
    layout.elementComponent column element = .ok component ↔
      component = element.toList ∧ ∀ bytes ∈ element,
        ∃ t, layout.elementType? column = some t ∧ t.validate bytes = .ok () := by
  cases element with
  | none =>
    rw [and_iff_left (by nofun)]
    exact ⟨fun h => (Except.ok.inj h).symm, fun h => congrArg Except.ok h.symm⟩
  | some bytes =>
    unfold elementComponent
    simp only
    cases layout.elementType? column with
    | none => exact ⟨nofun, fun ⟨_, h⟩ => by obtain ⟨t, ht, -⟩ := h bytes rfl; cases ht⟩
    | some t =>
      simp only
      rw [except_bind_eq_ok]
      constructor
      · rintro ⟨⟨⟩, hvalid, h⟩
        cases h
        exact ⟨rfl, fun _ hbytes => ⟨t, rfl, Option.some.inj hbytes ▸ hvalid⟩⟩
      · rintro ⟨rfl, h⟩
        obtain ⟨_, ht, hvalid⟩ := h bytes rfl
        cases ht
        exact ⟨(), hvalid, rfl⟩

/-- Values that fill a row: one for each type, valid for it and short enough for a composite. -/
structure FillsRow (types : List ColumnType) (values : List Bytes) : Prop where
  length : values.length = types.length
  valid : KeyLayout.validateAll types values = .ok ()
  short : ∀ value ∈ values, value.length ≤ Composite.maxComponentSize

/-- **When a compound sparse name is packed, and how.** -/
theorem compoundSparse_encode_eq_ok_iff {ts : List ColumnType} {cs : Option CollectionTypes}
    {name : CellName} {packed : Bytes} :
    (compoundSparse ts cs).encode name = .ok packed ↔
      KeyLayout.validateAll ts name.clustering = .ok () ∧
      name.clustering.length = (if name.isStatic then 0 else ts.length) ∧
      ∃ column, name.column = some column ∧
        (∀ element ∈ name.element, ∃ t,
          (compoundSparse ts cs).elementType? column = some t ∧ t.validate element = .ok ()) ∧
        Composite.encode ⟨(if name.isStatic then List.replicate ts.length [] else name.clustering) ++
          Text.Utf8.encode column :: name.element.toList, name.isStatic⟩ = .ok packed := by
  constructor
  · intro h
    obtain ⟨⟨⟩, hvalid, h⟩ := except_bind_eq_ok.1 h
    obtain ⟨column, hcolumn, h⟩ := except_bind_eq_ok.1 h
    obtain ⟨leading, hleading, h⟩ := except_bind_eq_ok.1 h
    obtain ⟨element, helement, h⟩ := except_bind_eq_ok.1 h
    obtain ⟨hlength, rfl⟩ := leadingComponents_eq_ok_iff.1 hleading
    obtain ⟨rfl, hvalue⟩ := elementComponent_eq_ok_iff.1 helement
    exact ⟨hvalid, hlength, column, requireColumn_ok hcolumn, hvalue, h⟩
  · rintro ⟨hvalid, hlength, column, hcolumn, helement, h⟩
    have hrequired : requireColumn name = .ok column := by
      rw [requireColumn, hcolumn]
    exact except_bind_eq_ok.2 ⟨(), hvalid, except_bind_eq_ok.2 ⟨column, hrequired,
      except_bind_eq_ok.2 ⟨_, leadingComponents_eq_ok_iff.2 ⟨hlength, rfl⟩,
      except_bind_eq_ok.2 ⟨_, elementComponent_eq_ok_iff.2 ⟨rfl, helement⟩, h⟩⟩⟩⟩

/-- **Which compound sparse names can be packed**: the clustering values fill the row, or are left
out of a static name, and the column and an element that its collection takes are short enough. -/
theorem compoundSparse_encode_exists_iff {ts : List ColumnType} {cs : Option CollectionTypes}
    {name : CellName} :
    (∃ packed, (compoundSparse ts cs).encode name = .ok packed) ↔
      (if name.isStatic then name.clustering = [] else FillsRow ts name.clustering) ∧
      ∃ column, name.column = some column ∧
        (Text.Utf8.encode column).length ≤ Composite.maxComponentSize ∧
        ∀ element ∈ name.element, element.length ≤ Composite.maxComponentSize ∧
          ∃ t, (compoundSparse ts cs).elementType? column = some t ∧
            t.validate element = .ok () := by
  obtain ⟨clustering, column?, element?, isStatic⟩ := name
  simp only [compoundSparse_encode_eq_ok_iff]
  constructor
  · rintro ⟨packed, hvalid, hlength, column, hcolumn, helement, h⟩
    have hshort := Composite.encode_exists_iff.1 ⟨packed, h⟩
    simp only [List.forall_mem_append, List.forall_mem_cons, Option.mem_toList] at hshort
    obtain ⟨hleading, hname, hlast⟩ := hshort
    refine ⟨?_, column, hcolumn, hname, fun element hmem =>
      ⟨hlast element hmem, helement element hmem⟩⟩
    cases isStatic
    · exact ⟨hlength, hvalid, hleading⟩
    · exact List.length_eq_zero_iff.1 hlength
  · rintro ⟨hrow, column, hcolumn, hname, helement⟩
    have hparts : KeyLayout.validateAll ts clustering = .ok () ∧
        clustering.length = (if isStatic then 0 else ts.length) ∧
        ∀ value ∈ (if isStatic then List.replicate ts.length [] else clustering),
          value.length ≤ Composite.maxComponentSize := by
      cases isStatic
      · have hfill : FillsRow ts clustering := hrow
        exact ⟨hfill.valid, hfill.length, hfill.short⟩
      · obtain rfl : clustering = [] := hrow
        refine ⟨by cases ts <;> rfl, rfl, fun value hvalue => ?_⟩
        rw [List.eq_of_mem_replicate hvalue]
        exact Nat.zero_le _
    obtain ⟨hvalid, hlength, hleading⟩ := hparts
    obtain ⟨packed, hpacked⟩ := (Composite.encode_exists_iff
      (c := ⟨(if isStatic then List.replicate ts.length [] else clustering) ++
        Text.Utf8.encode column :: element?.toList, isStatic⟩)).2
      (List.forall_mem_append.2 ⟨hleading, List.forall_mem_cons.2
        ⟨hname, fun element hmem => (helement element (Option.mem_toList.1 hmem)).1⟩⟩)
    exact ⟨packed, hvalid, hlength, column, hcolumn,
      fun element hmem => (helement element hmem).2, hpacked⟩

/-- The parts that make up a packed compound sparse name. -/
theorem compoundSparse_ok {ts : List ColumnType} {cs : Option CollectionTypes} {name : CellName}
    {packed : Bytes} (h : (compoundSparse ts cs).encode name = .ok packed) :
    ∃ column leading, name.column = some column ∧ leading.length = ts.length ∧
      name.clustering = (if name.isStatic then [] else leading) ∧
      Composite.encode ⟨leading ++ Text.Utf8.encode column :: name.element.toList, name.isStatic⟩ =
        .ok packed := by
  obtain ⟨-, hlength, column, hcolumn, -, h⟩ := compoundSparse_encode_eq_ok_iff.1 h
  refine ⟨column, _, hcolumn, ?_, ?_, h⟩
  · split
    · exact List.length_replicate
    · rename_i hrow
      rwa [if_neg hrow] at hlength
  · split
    · rename_i hstatic
      rw [if_pos hstatic] at hlength
      exact List.length_eq_zero_iff.1 hlength
    · rfl

/-- The parts that make up a packed compound dense name. -/
theorem compoundDense_ok {ts : List ColumnType} {name : CellName} {packed : Bytes}
    (h : (compoundDense ts).encode name = .ok packed) :
    name = .dense name.clustering ∧ name.clustering.length ≤ ts.length ∧
      Composite.encode ⟨name.clustering, false⟩ = .ok packed := by
  obtain ⟨⟨⟩, -, h⟩ := except_bind_eq_ok.1 h
  obtain ⟨⟨⟩, hdense, h⟩ := except_bind_eq_ok.1 h
  split at h
  · cases h
  · exact ⟨eq_dense_of_requireDense hdense, by omega, h⟩

/-- The parts that make up a simple dense name. -/
theorem simpleDense_ok {t : ColumnType} {name : CellName} {packed : Bytes}
    (h : (simpleDense t).encode name = .ok packed) : name = .dense [packed] := by
  obtain ⟨⟨⟩, -, h⟩ := except_bind_eq_ok.1 h
  obtain ⟨⟨⟩, hdense, h⟩ := except_bind_eq_ok.1 h
  have hname := eq_dense_of_requireDense hdense
  split at h
  · rename_i value hvalue
    cases h
    rw [hname, hvalue]
  · cases h

/-- The parts that make up a simple sparse name. -/
theorem simpleSparse_ok {t : ColumnType} {name : CellName} {packed : Bytes}
    (h : (simpleSparse t).encode name = .ok packed) :
    ∃ column, name.column = some column ∧ name.clustering = [] ∧ name.isStatic = false ∧
      packed = Text.Utf8.encode column := by
  obtain ⟨⟨⟩, -, h⟩ := except_bind_eq_ok.1 h
  obtain ⟨column, hcolumn, h⟩ := except_bind_eq_ok.1 h
  split at h
  · cases h
  · rename_i hnot
    cases h
    simp only [Bool.or_eq_true, Bool.not_eq_true', not_or, Bool.not_eq_true,
      Bool.not_eq_false, List.isEmpty_iff] at hnot
    exact ⟨column, requireColumn_ok hcolumn, hnot.1, hnot.2, rfl⟩

/-- Not too many clustering values, packed as they stand, are those of a compound dense name. -/
theorem compoundDense_decode {ts : List ColumnType} {values : List Bytes} {packed : Bytes}
    (h : Composite.encode ⟨values, false⟩ = .ok packed) (hlength : values.length ≤ ts.length) :
    (compoundDense ts).decode packed = .ok (.dense values) := by
  refine except_bind_eq_ok.2 ⟨_, Composite.decode_encode h, ?_⟩
  rw [if_neg (by simpa using hlength)]
  rfl

/-! ### What names are unpacked from -/

theorem columnName_ok {bytes : Bytes} {column : String} (h : columnName bytes = .ok column) :
    bytes = Text.Utf8.encode column := by
  unfold columnName at h
  split at h
  · rename_i hdecode
    cases h
    exact Text.Utf8.decode?_eq_some_iff.1 hdecode
  · cases h

/-- The composite that the parts of a compound sparse name were unpacked from. -/
theorem compoundSparse_decode_ok {ts : List ColumnType} {cs : Option CollectionTypes}
    {packed : Bytes} {name : CellName} (h : (compoundSparse ts cs).decode packed = .ok name) :
    ∃ leading column, leading.length = ts.length ∧ name.column = some column ∧
      name.clustering = (if name.isStatic then [] else leading) ∧
      Composite.decode packed =
        .ok ⟨leading ++ Text.Utf8.encode column :: name.element.toList, name.isStatic⟩ := by
  obtain ⟨⟨components, isStatic⟩, hdecode, h⟩ := except_bind_eq_ok.1 h
  simp only at h
  have hlength {tail : List Bytes} (htail : components.drop ts.length = tail) (hne : tail ≠ []) :
      (components.take ts.length).length = ts.length ∧
        components = components.take ts.length ++ tail := by
    have hlt : ts.length < components.length :=
      Nat.lt_of_not_le fun hle => hne (htail.symm.trans (List.drop_eq_nil_of_le hle))
    refine ⟨by rw [List.length_take]; omega, ?_⟩
    rw [← htail, List.take_append_drop]
  split at h
  · rename_i bytes htail
    obtain ⟨column, hcolumn, h⟩ := except_bind_eq_ok.1 h
    cases h
    obtain ⟨hlength, hcomponents⟩ := hlength htail nofun
    refine ⟨_, column, hlength, rfl, rfl, ?_⟩
    rw [hdecode, ← columnName_ok hcolumn]
    exact congrArg (fun components => Except.ok (Composite.mk components isStatic)) hcomponents
  · rename_i bytes element htail
    obtain ⟨column, hcolumn, h⟩ := except_bind_eq_ok.1 h
    cases h
    obtain ⟨hlength, hcomponents⟩ := hlength htail nofun
    refine ⟨_, column, hlength, rfl, rfl, ?_⟩
    rw [hdecode, ← columnName_ok hcolumn]
    exact congrArg (fun components => Except.ok (Composite.mk components isStatic)) hcomponents
  · cases h

/-- The composite that the parts of a compound dense name were unpacked from. -/
theorem compoundDense_decode_ok {ts : List ColumnType} {packed : Bytes} {name : CellName}
    (h : (compoundDense ts).decode packed = .ok name) :
    Composite.decode packed = .ok ⟨name.clustering, false⟩ ∧ name = .dense name.clustering ∧
      name.clustering.length ≤ ts.length := by
  obtain ⟨⟨components, isStatic⟩, hdecode, h⟩ := except_bind_eq_ok.1 h
  obtain ⟨hfits, h⟩ := ite_throw_eq_ok.1 h
  cases h
  obtain ⟨hstatic, hlength⟩ := not_or.1 hfits
  rw [hdecode, show isStatic = false from Bool.eq_false_iff.2 hstatic]
  exact ⟨rfl, rfl, Nat.le_of_not_lt hlength⟩

/-! ### Packed and unpacked -/

/-- **Unpacking gives the parts that were packed.** -/
theorem decode_of_encode {layout : CellLayout} {name : CellName} {packed : Bytes}
    (h : layout.encode name = .ok packed) : layout.decode packed = .ok (layout.carried name) := by
  obtain ⟨clustering, column?, element?, isStatic⟩ := name
  cases layout with
  | simpleSparse t =>
    obtain ⟨column, hcolumn, hclustering, hstatic, rfl⟩ := simpleSparse_ok h
    cases hcolumn
    cases hclustering
    cases hstatic
    exact except_bind_eq_ok.2 ⟨column, columnName_encode column, rfl⟩
  | simpleDense t =>
    rw [simpleDense_ok h]
    rfl
  | compoundDense ts =>
    obtain ⟨hname, hlength, hpacked⟩ := compoundDense_ok h
    rw [compoundDense_decode hpacked hlength]
    exact congrArg Except.ok hname.symm
  | compoundSparse ts cs =>
    obtain ⟨column, leading, hcolumn, hlength, hclustering, hpacked⟩ := compoundSparse_ok h
    refine except_bind_eq_ok.2 ⟨_, Composite.decode_encode hpacked, ?_⟩
    have hdrop : (leading ++ Text.Utf8.encode column :: element?.toList).drop ts.length =
        Text.Utf8.encode column :: element?.toList := List.drop_left' hlength
    have htake : (leading ++ Text.Utf8.encode column :: element?.toList).take ts.length =
        leading := List.take_left' hlength
    simp only [hdrop, htake]
    cases hcolumn
    simp only at hclustering
    rw [← hclustering]
    cases element? <;>
      exact except_bind_eq_ok.2 ⟨column, columnName_encode column, rfl⟩

/-- The clustering values of a name are no more than the layout has, and those of a packed
composite fit into one again. -/
theorem clustering_fits {layout : CellLayout} {name : CellName} {packed : Bytes}
    (h : layout.encode name = .ok packed) :
    name.clustering.length ≤ layout.clusteringTypes.length ∧
      (layout.isCompound = true →
        ∀ value ∈ name.clustering, value.length ≤ Composite.maxComponentSize) := by
  cases layout with
  | simpleSparse t =>
    obtain ⟨-, -, hclustering, -⟩ := simpleSparse_ok h
    exact ⟨by simp [hclustering], nofun⟩
  | simpleDense t => exact ⟨by simp [simpleDense_ok h, CellName.dense, clusteringTypes], nofun⟩
  | compoundDense ts =>
    obtain ⟨-, hlength, hpacked⟩ := compoundDense_ok h
    exact ⟨hlength, fun _ => Composite.encode_exists_iff.1 ⟨packed, hpacked⟩⟩
  | compoundSparse ts cs =>
    obtain ⟨column, leading, -, hlength, hclustering, hpacked⟩ := compoundSparse_ok h
    have hleading : ∀ value ∈ leading, value.length ≤ Composite.maxComponentSize := fun value hv =>
      Composite.encode_exists_iff.1 ⟨packed, hpacked⟩ value (List.mem_append_left _ hv)
    rw [hclustering]
    split
    · exact ⟨Nat.zero_le _, fun _ => nofun⟩
    · exact ⟨Nat.le_of_eq hlength, fun _ => hleading⟩

/-- What is unpacked has no more clustering values than the layout. -/
theorem clustering_le_of_decode {layout : CellLayout} {packed : Bytes} {name : CellName}
    (h : layout.decode packed = .ok name) :
    name.clustering.length ≤ layout.clusteringTypes.length := by
  cases layout with
  | simpleSparse t =>
    obtain ⟨column, -, h⟩ := except_bind_eq_ok.1 h
    cases h
    exact Nat.le_refl 0
  | simpleDense t =>
    cases h
    exact Nat.le_refl 1
  | compoundDense ts =>
    obtain ⟨c, -, h⟩ := except_bind_eq_ok.1 h
    obtain ⟨hfits, h⟩ := ite_throw_eq_ok.1 h
    cases h
    show c.components.length ≤ ts.length
    omega
  | compoundSparse ts cs =>
    obtain ⟨c, -, h⟩ := except_bind_eq_ok.1 h
    have htake : (if c.isStatic then [] else c.components.take ts.length).length ≤ ts.length := by
      split
      · exact Nat.zero_le _
      · rw [List.length_take]
        omega
    simp only at h
    split at h
    · obtain ⟨column, -, h⟩ := except_bind_eq_ok.1 h
      cases h
      exact htake
    · obtain ⟨column, -, h⟩ := except_bind_eq_ok.1 h
      cases h
      exact htake
    · cases h

/-- Where names are no composites, each carries all clustering values. -/
theorem clustering_complete {layout : CellLayout} {name : CellName} {packed : Bytes}
    (h : layout.encode name = .ok packed) (hsimple : layout.isCompound = false) :
    name.clustering.length = layout.clusteringTypes.length := by
  cases layout with
  | simpleSparse t =>
    obtain ⟨-, -, hclustering, -⟩ := simpleSparse_ok h
    rw [hclustering]
    rfl
  | simpleDense t =>
    rw [simpleDense_ok h]
    rfl
  | compoundDense ts => cases hsimple
  | compoundSparse ts cs => cases hsimple

end CellLayout

end WideColumn
