import WideColumn.Proofs.PackedNames
import WideColumn.Proofs.ValueOrder

/-!
# Packing is faithful

Composites, compound cell names and keys can be told from their packed forms.

* `Composite.encode_eq` — **a composite is packed, or its first component that is too long is
  refused**;
* `Composite.order_of_encode` — packed composites that are not static compare as lists of values;
* `KeyLayout.order_of_encode` — **packed keys compare value by value**;
* `packing_faithful` — **unpacking gives what was packed**, and long components are refused;
* `CellLayout.simple_name_kept_iff` — **names that are no composites are unpacked as they were**, if
  they have no element, which only a dense layout sees to.
-/

namespace WideColumn

open Effects

namespace Composite

/-! ### Components that are too long -/

theorem encodeComponent_eq_ok {component : Bytes} (h : ¬maxComponentSize < component.length) :
    encodeComponent component = .ok (Bytes.bigEndian 2 component.length ++ component ++ [0]) :=
  if_neg h

theorem encodeComponents_eq_error {components : List Bytes} {component : Bytes}
    (h : components.find? (maxComponentSize < ·.length) = some component) :
    encodeComponents components =
      .error (.componentTooLarge maxComponentSize component.length) := by
  induction components with
  | nil => cases h
  | cons first rest ih =>
    by_cases hfirst : maxComponentSize < first.length
    · rw [List.find?_cons_of_pos (by simpa using hfirst)] at h
      obtain rfl := Option.some.inj h
      have hrefused : encodeComponent first =
          .error (.componentTooLarge maxComponentSize first.length) := if_pos hfirst
      rw [encodeComponents, hrefused]
      rfl
    · rw [List.find?_cons_of_neg (by simpa using hfirst)] at h
      rw [encodeComponents, encodeComponent_eq_ok hfirst, ih h]
      rfl

/-- **A composite is packed, or its first component that is too long is refused.** -/
theorem encode_eq (c : Composite) :
    match c.components.find? (maxComponentSize < ·.length) with
    | none => ∃ packed, c.encode = .ok packed ∧ decode packed = .ok c
    | some component =>
      c.encode = .error (.componentTooLarge maxComponentSize component.length) := by
  split
  · rename_i hnone
    have hshort : ∀ component ∈ c.components, component.length ≤ maxComponentSize := by
      intro component hmem
      have hsize := List.find?_eq_none.1 hnone component hmem
      simpa using hsize
    obtain ⟨packed, hpacked⟩ := encode_exists_iff.2 hshort
    exact ⟨packed, hpacked, decode_encode hpacked⟩
  · rename_i component hlong
    unfold encode
    rw [encodeComponents_eq_error hlong]
    rfl

/-! ### The order of packed composites -/

/-- Packed composites that are not static compare as lists of values. -/
theorem order_of_encode {types : List ColumnType} {values values' : List Bytes} {a b : Bytes}
    (ha : encode ⟨values, false⟩ = .ok a) (hb : encode ⟨values', false⟩ = .ok b)
    (hlength : values.length ≤ types.length) (hlength' : values'.length ≤ types.length) :
    order types a b = orderValues types values values' := by
  unfold order
  rw [decode_encode ha, decode_encode hb]
  exact orderComponents_eq_orderValues hlength hlength'

end Composite

/-! ### The order of keys -/

/-- A key of several values is a composite of them. -/
theorem KeyLayout.composite_ok {types : List ColumnType} {parts : List Bytes} {key : Bytes}
    (h : (composite types).encode parts = .ok key) : Composite.encode ⟨parts, false⟩ = .ok key := by
  obtain ⟨-, h⟩ := ite_error_eq_ok.1 h
  obtain ⟨⟨⟩, -, h⟩ := except_bind_eq_ok.1 h
  exact h

/-- **Packed keys compare value by value.** -/
theorem KeyLayout.order_of_encode {layout : KeyLayout} {parts parts' : List Bytes}
    {key key' : Bytes} (h : layout.encode parts = .ok key) (h' : layout.encode parts' = .ok key') :
    layout.order key key' =
      lexicographic (List.zipWith3 ColumnType.order layout.types parts parts') := by
  obtain ⟨hdecode, hlength⟩ := decode_of_encode h
  obtain ⟨hdecode', hlength'⟩ := decode_of_encode h'
  cases layout with
  | single t =>
    obtain rfl : [key] = parts := Except.ok.inj hdecode
    obtain rfl : [key'] = parts' := Except.ok.inj hdecode'
    show t.order key key' = lexicographic [t.order key key']
    simp
  | composite types =>
    rw [← orderValues_of_length_eq _ (hlength.trans hlength'.symm)]
    exact Composite.order_of_encode (composite_ok h) (composite_ok h') hlength.le hlength'.le

/-! ### Values of packed forms -/

/-- The values of a packed key are valid for their types. -/
theorem KeyLayout.fitTypes_of_encode {layout : KeyLayout} {parts : List Bytes} {key : Bytes}
    (h : layout.encode parts = .ok key) : FitTypes layout.types parts := by
  obtain ⟨hlength, h⟩ := ite_error_eq_ok.1 h
  obtain ⟨⟨⟩, hvalid, -⟩ := except_bind_eq_ok.1 h
  exact ⟨Nat.le_of_eq (Decidable.not_not.1 hlength), hvalid⟩

/-- The clustering values of a packed name are valid for their types. -/
theorem CellLayout.fitTypes_of_encode {layout : CellLayout} {name : CellName} {packed : Bytes}
    (h : layout.encode name = .ok packed) : FitTypes layout.clusteringTypes name.clustering := by
  obtain ⟨⟨⟩, hvalid, -⟩ := except_bind_eq_ok.1 h
  exact ⟨(clustering_fits h).1, hvalid⟩

/-! ### All packed forms -/

/-- **Unpacking gives what was packed.**  A composite is refused if a component has more than
`0xfffe` bytes, and then because of the first such component, and is packed and unpacked else; the
names of compound layouts and the keys of all tables are unpacked; and packed keys compare value by
value. -/
theorem packing_faithful :
    (∀ c : Composite,
      match c.components.find? (0xfffe < ·.length) with
      | none => ∃ packed, c.encode = .ok packed ∧ Composite.decode packed = .ok c
      | some component => c.encode = .error (.componentTooLarge 0xfffe component.length)) ∧
    (∀ (layout : CellLayout) name packed, layout.isCompound = true →
      layout.encode name = .ok packed → layout.decode packed = .ok name) ∧
    (∀ types parts key, (KeyLayout.ofTypes types).encode parts = .ok key →
      (KeyLayout.ofTypes types).decode key = .ok parts) ∧
    ∀ types parts parts' key key', (KeyLayout.ofTypes types).encode parts = .ok key →
      (KeyLayout.ofTypes types).encode parts' = .ok key' →
      (KeyLayout.ofTypes types).order key key' =
        lexicographic (List.zipWith3 ColumnType.order types parts parts') := by
  refine ⟨Composite.encode_eq, fun layout name packed hcompound h => ?_,
    fun types parts key h => (KeyLayout.decode_of_encode h).1,
    fun types parts parts' key key' h h' => ?_⟩
  · rw [CellLayout.decode_of_encode h]
    cases layout with
    | simpleSparse | simpleDense => cases hcompound
    | compoundDense | compoundSparse => rfl
  · rw [KeyLayout.order_of_encode h h', KeyLayout.types_ofTypes]

/-- Static names of a sparse layout, and keys of a site and a year before the common era. -/
theorem packing_faithful_sites :
    ∃ name earlier later,
      (CellLayout.compoundSparse [.text, .text] none).encode ⟨[], some "warden", none, true⟩ =
        .ok name ∧
      (CellLayout.compoundSparse [.text, .text] none).decode name =
        .ok ⟨[], some "warden", none, true⟩ ∧
      (KeyLayout.ofTypes [.text, .scalar .int]).encode [[0x41], [0xff, 0xff, 0xff, 0xfe]] =
        .ok earlier ∧
      (KeyLayout.ofTypes [.text, .scalar .int]).encode [[0x41], [0xff, 0xff, 0xff, 0xff]] =
        .ok later ∧
      (KeyLayout.ofTypes [.text, .scalar .int]).decode later =
        .ok [[0x41], [0xff, 0xff, 0xff, 0xff]] ∧
      (KeyLayout.ofTypes [.text, .scalar .int]).order earlier later = .lt := by
  obtain ⟨-, hnames, hkeys, horder⟩ := packing_faithful
  have hname : (CellLayout.compoundSparse [.text, .text] none).encode
      ⟨[], some "warden", none, true⟩ = .ok _ := rfl
  have hearlier : (KeyLayout.ofTypes [.text, .scalar .int]).encode
      [[0x41], [0xff, 0xff, 0xff, 0xfe]] = .ok _ := rfl
  have hlater : (KeyLayout.ofTypes [.text, .scalar .int]).encode
      [[0x41], [0xff, 0xff, 0xff, 0xff]] = .ok _ := rfl
  exact ⟨_, _, _, hname, hnames _ _ _ rfl hname, hearlier, hlater, hkeys _ _ _ hlater,
    (horder _ _ _ _ _ hearlier hlater).trans (by decide)⟩

/-! ### Names that are no composites -/

namespace CellLayout

/-- Of a name that is no composite, all but the element is carried. -/
theorem carried_of_simple {layout : CellLayout} (hsimple : layout.isCompound = false)
    {name : CellName} {packed : Bytes} (h : layout.encode name = .ok packed) :
    layout.carried name = { name with element := none } := by
  cases layout with
  | simpleSparse t => rfl
  | simpleDense t =>
    rw [simpleDense_ok h]
    rfl
  | compoundSparse | compoundDense => cases hsimple

/-- **What is kept of a name that is no composite.**  All of it but the element.  A dense layout
refuses elements, so that its names are kept whole; a sparse one packs a name in the same way whatever
its element is, and the names that it keeps are those without one. -/
theorem simple_name_kept_iff {layout : CellLayout} (hsimple : layout.isCompound = false)
    {name : CellName} {packed : Bytes} (h : layout.encode name = .ok packed) :
    (layout.decode packed = .ok name ↔ name.element = none) ∧
      layout.decode packed = .ok { name with element := none } ∧
      (layout.isDense = true → name.element = none) ∧
      (layout.isDense = false →
        ∀ element, layout.encode { name with element := element } = .ok packed) := by
  have hdecode : layout.decode packed = .ok { name with element := none } := by
    rw [decode_of_encode h, carried_of_simple hsimple h]
  refine ⟨?_, hdecode, fun hdense => ?_, fun hsparse element => ?_⟩
  · rw [hdecode, Except.ok.injEq]
    exact ⟨fun hsame => (congrArg CellName.element hsame).symm,
      fun hnone => carried_of_simple hsimple h ▸ carried_eq_self hnone⟩
  · cases layout with
    | simpleDense t => rw [simpleDense_ok h, CellName.dense]
    | compoundDense => cases hsimple
    | simpleSparse | compoundSparse => cases hdense
  · rw [← h]
    cases layout with
    | simpleSparse t => rfl
    | compoundSparse => cases hsimple
    | simpleDense | compoundDense => cases hsparse

/-- The names of a compact table with one key: a column as it stands, and a row of a table with one
clustering column. -/
theorem simple_names_kept_levels :
    choose? [] true [] = some (simpleSparse .text) ∧
      (simpleSparse .text).decode (Text.Utf8.encode "level") = .ok ⟨[], some "level", none, false⟩ ∧
      (simpleDense (.scalar .int)).decode [0, 0, 0, 8] = .ok (.dense [[0, 0, 0, 8]]) := by
  have hsparse : (simpleSparse .text).encode ⟨[], some "level", none, false⟩ =
      .ok (Text.Utf8.encode "level") := rfl
  have hdense : (simpleDense (.scalar .int)).encode (.dense [[0, 0, 0, 8]]) =
      .ok [0, 0, 0, 8] := rfl
  exact ⟨rfl, (simple_name_kept_iff rfl hsparse).1.2 rfl, (simple_name_kept_iff rfl hdense).1.2 rfl⟩

/-- **An element is lost.**  The simple sparse layout packs a name with an element, as if its column
were a collection, and unpacks it without. -/
theorem element_of_simple_name_lost :
    (simpleSparse .text).encode ⟨[], some "level", some [97], false⟩ =
        .ok (Text.Utf8.encode "level") ∧
      (simpleSparse .text).decode (Text.Utf8.encode "level") =
        .ok ⟨[], some "level", none, false⟩ ∧
      (simpleSparse .text).decode (Text.Utf8.encode "level") ≠
        .ok ⟨[], some "level", some [97], false⟩ :=
  ⟨rfl, rfl, by decide⟩

end CellLayout

end WideColumn
