import WideColumn.Proofs.FaithfulPacking
import WideColumn.Proofs.SortedBindings
import WideColumn.Proofs.TextOrder

/-!
# The order of cell names

Packed cell names are compared in four different ways, one for each layout.  This file gives one
order for the parts of all names, `logicalOrder`, and shows that packed names are compared by it.

* `order_of_decode`, `order_eq_logicalOrder` — names are compared as their parts;
* `IsProper`, `isProper_of_encode` — what the parts of packed names have in common: each value is
  valid for its type, and an element belongs to a collection of the layout;
* `logicalOrder_preorder` — such parts are preordered, unless decimals are among them;
* `packed_names_ordered` — **the order of packed names is the logical order, and a total preorder**.
  A simple sparse layout compares the names of columns as values of the type that it wraps, so they
  have to be valid for it; the layouts that are chosen for tables wrap texts, which all names are.
-/

namespace WideColumn

open Effects

namespace CellLayout

/-! ### The logical order -/

/-- The type that the names of columns are compared by, where a layout has one for them. -/
def columnType? : CellLayout → Option ColumnType
  | simpleSparse t => some t
  | _ => none

/-- The order of the names of columns: by bytes, or by the type that a simple layout wraps. -/
def columnOrder (layout : CellLayout) : Bytes → Bytes → Ordering :=
  match layout.columnType? with
  | some t => t.order
  | none => Bytes.order

/-- The type of the elements of the column that a name belongs to. -/
def elementType (layout : CellLayout) (name : CellName) : ColumnType :=
  (name.column.bind layout.elementType?).getD .blob

/-- The order of the parts of names: static names first; then by clustering values, position by
position and a strict beginning first; then by column; then the name without an element first, and
elements by their type. -/
def logicalOrder (layout : CellLayout) (a b : CellName) : Ordering :=
  lexicographic [
    compare b.isStatic a.isStatic,
    orderValues layout.clusteringTypes a.clustering b.clustering,
    noneFirst layout.columnOrder (a.column.map Text.Utf8.encode) (b.column.map Text.Utf8.encode),
    noneFirst (layout.elementType a).order a.element b.element]

/-- No decimals are compared. -/
structure AvoidsDecimals (layout : CellLayout) : Prop where
  clustering : ∀ t ∈ layout.clusteringTypes, t.base ≠ .scalar .decimal
  elements : ∀ column t, layout.elementType? column = some t → t.base ≠ .scalar .decimal
  columns : ∀ t ∈ layout.columnType?, t.base ≠ .scalar .decimal

/-- The name of the column is a value of the type that it is compared by. -/
def ColumnFits (layout : CellLayout) (name : CellName) : Prop :=
  ∀ t ∈ layout.columnType?, ∀ column ∈ name.column,
    t.validate (Text.Utf8.encode column) = .ok ()

/-- Bytes that a name was packed into. -/
def IsPacked (layout : CellLayout) (packed : Bytes) : Prop :=
  ∃ name, layout.encode name = .ok packed ∧ layout.ColumnFits name

/-! ### Packed names are compared as their parts -/

theorem staticFirst_eq (a b : Bool) (other : Ordering) :
    Composite.staticFirst a b other = (compare b a).then other := by
  cases a <;> cases b <;> rfl

theorem orderElement_eq_noneFirst (t : ColumnType) (a b : Option Bytes) :
    orderElement t a b = noneFirst t.order a b := by
  cases a <;> cases b <;> rfl

theorem orderColumn_eq_noneFirst (a b : Option String) :
    orderColumn a b = noneFirst Bytes.order (a.map Text.Utf8.encode) (b.map Text.Utf8.encode) := by
  cases a with
  | none => cases b <;> rfl
  | some a =>
    cases b with
    | none => rfl
    | some b => exact (Text.Utf8.order_encode a b).symm

theorem orderClustering_eq_orderValues (types : List ColumnType) {a b : List Bytes}
    (h : a.length = b.length) : orderClustering types a b = orderValues types a b := by
  induction types generalizing a b with
  | nil =>
    rw [orderValues_of_length_eq [] h]
    cases a <;> cases b <;> rfl
  | cons t types ih =>
    cases a with
    | nil => rw [List.length_eq_zero_iff.1 h.symm, orderValues_nil]; rfl
    | cons a as =>
      obtain ⟨b, bs, rfl⟩ := List.exists_cons_of_length_eq_add_one h.symm
      rw [orderValues_cons, ← ih (Nat.succ.inj h)]
      rfl

/-- The parts of compound sparse names are compared in the logical order. -/
theorem orderParts_eq_logicalOrder {types : List ColumnType} {cs : Option CollectionTypes}
    {a b : CellName}
    (h : a.isStatic = b.isStatic → a.clustering.length = b.clustering.length) :
    (compoundSparse types cs).orderParts a b = (compoundSparse types cs).logicalOrder a b := by
  unfold orderParts logicalOrder
  rw [staticFirst_eq, orderElement_eq_noneFirst, orderColumn_eq_noneFirst]
  simp only [lexicographic_cons, lexicographic_nil, Ordering.then_eq]
  by_cases hstatic : a.isStatic = b.isStatic
  · rw [orderClustering_eq_orderValues _ (h hstatic)]
    rfl
  · cases ha : a.isStatic <;> cases hb : b.isStatic <;> simp_all <;> rfl

/-- **Names are compared as their parts**, whatever they were unpacked from. -/
theorem order_of_decode {layout : CellLayout} {m n : CellName} {a b : Bytes}
    (hm : layout.decode a = .ok m) (hn : layout.decode b = .ok n) :
    layout.order a b = layout.logicalOrder m n := by
  cases layout with
  | simpleSparse t =>
    obtain ⟨column, hcolumn, hm⟩ := except_bind_eq_ok.1 hm
    obtain ⟨column', hcolumn', hn⟩ := except_bind_eq_ok.1 hn
    cases hm
    cases hn
    rw [columnName_ok hcolumn, columnName_ok hcolumn']
    unfold logicalOrder
    rw [orderValues_nil]
    show t.order _ _ = lexicographic [.eq, .eq, t.order _ _, .eq]
    simp
  | simpleDense t =>
    cases hm
    cases hn
    show t.order a b = lexicographic [.eq, orderValues [t] [a] [b], .eq, .eq]
    rw [orderValues_cons, orderValues_nil]
    simp
  | compoundDense types =>
    obtain ⟨hpacked, hname, hlength⟩ := compoundDense_decode_ok hm
    obtain ⟨hpacked', hname', hlength'⟩ := compoundDense_decode_ok hn
    rw [hname, hname']
    show Composite.order types a b =
      lexicographic [.eq, orderValues types m.clustering n.clustering, .eq, .eq]
    unfold Composite.order
    rw [hpacked, hpacked', ← Composite.orderComponents_eq_orderValues hlength hlength']
    show Composite.orderComponents types m.clustering n.clustering = _
    simp
  | compoundSparse types cs =>
    unfold order
    rw [hm, hn]
    obtain ⟨leading, -, hlength, -, hclustering, -⟩ := compoundSparse_decode_ok hm
    obtain ⟨leading', -, hlength', -, hclustering', -⟩ := compoundSparse_decode_ok hn
    refine orderParts_eq_logicalOrder fun hstatic => ?_
    rw [hclustering, hclustering', hstatic]
    split
    · rfl
    · rw [hlength, hlength']

/-- **Packed names are compared as their parts.** -/
theorem order_eq_logicalOrder {layout : CellLayout} {m n : CellName} {a b : Bytes}
    (hm : layout.encode m = .ok a) (hn : layout.encode n = .ok b) :
    layout.order a b = layout.logicalOrder (layout.carried m) (layout.carried n) :=
  order_of_decode (decode_of_encode hm) (decode_of_encode hn)

/-! ### The parts of packed names -/

/-- The values among the parts of a name are valid for their types. -/
structure IsProper (layout : CellLayout) (name : CellName) : Prop where
  clustering : FitTypes layout.clusteringTypes name.clustering
  column : layout.ColumnFits name
  element : ∀ element ∈ name.element, layout.columnType? = none ∧
    ∃ column ∈ name.column, ∃ t, layout.elementType? column = some t ∧
      t.validate element = .ok ()

/-- An element is valid for the type of its collection. -/
theorem compoundSparse_element {types : List ColumnType} {cs : Option CollectionTypes}
    {name : CellName} {packed : Bytes} (h : (compoundSparse types cs).encode name = .ok packed) :
    ∀ element ∈ name.element, ∃ column ∈ name.column, ∃ t,
      (compoundSparse types cs).elementType? column = some t ∧ t.validate element = .ok () := by
  obtain ⟨-, -, column, hcolumn, helement, -⟩ := compoundSparse_encode_eq_ok_iff.1 h
  exact fun element hin => ⟨column, hcolumn, helement element hin⟩

theorem isProper_of_encode {layout : CellLayout} {name : CellName} {packed : Bytes}
    (h : layout.encode name = .ok packed) (hcolumn : layout.ColumnFits name) :
    layout.IsProper (layout.carried name) := by
  have hclustering := fitTypes_of_encode h
  cases layout with
  | simpleSparse t => exact ⟨hclustering, hcolumn, nofun⟩
  | simpleDense t =>
    refine ⟨hclustering, nofun, ?_⟩
    rw [simpleDense_ok h]
    nofun
  | compoundDense types =>
    refine ⟨hclustering, nofun, ?_⟩
    rw [(compoundDense_ok h).1]
    nofun
  | compoundSparse types cs =>
    refine ⟨hclustering, nofun, fun element helement => ⟨rfl, ?_⟩⟩
    exact compoundSparse_element h element helement

/-! ### Proper parts are preordered -/

section

variable {layout : CellLayout}

theorem columnOrder_preorder (h : layout.AvoidsDecimals) :
    PreorderOn layout.IsProper fun a b =>
      noneFirst layout.columnOrder (a.column.map Text.Utf8.encode)
        (b.column.map Text.Utf8.encode) := by
  have hcolumns : PreorderOn (fun bytes => ∀ t ∈ layout.columnType?, t.validate bytes = .ok ())
      layout.columnOrder := by
    unfold columnOrder
    cases htype : layout.columnType? with
    | none => exact Value.bytes_preorder
    | some t =>
      exact (t.order_preorder (h.columns t htype)).mono fun bytes hbytes => hbytes t rfl
  refine hcolumns.noneFirst.comap (fun name : CellName => name.column.map Text.Utf8.encode) ?_
  intro name hname bytes hbytes t ht
  obtain ⟨column, hcolumn, rfl⟩ := Option.map_eq_some_iff.1 hbytes
  exact hname.column t ht column hcolumn

/-- Names that are equal up to the element and have one have the same column. -/
theorem column_eq_of_noneFirst (htype : layout.columnType? = none) {a b : CellName}
    (h : noneFirst layout.columnOrder (a.column.map Text.Utf8.encode)
      (b.column.map Text.Utf8.encode) = .eq) : a.column = b.column := by
  unfold columnOrder at h
  rw [htype] at h
  rw [← orderColumn_eq_noneFirst] at h
  cases ha : a.column with
  | none =>
    cases hb : b.column with
    | none => rfl
    | some column =>
      rw [ha, hb] at h
      cases h
  | some column =>
    cases hb : b.column with
    | none =>
      rw [ha, hb] at h
      cases h
    | some column' =>
      rw [ha, hb] at h
      have h : compare column column' = .eq := h
      rw [Std.LawfulEqOrd.eq_of_compare h]

/-- Elements are preordered among names that are equal up to the element. -/
theorem elementOrder_preorder (h : layout.AvoidsDecimals) (a : CellName) :
    PreorderOn (fun b => layout.IsProper b ∧
        noneFirst layout.columnOrder (a.column.map Text.Utf8.encode)
          (b.column.map Text.Utf8.encode) = .eq)
      fun b c => noneFirst (layout.elementType b).order b.element c.element := by
  have htype : (layout.elementType a).base ≠ .scalar .decimal := by
    unfold elementType
    cases hfind : a.column.bind layout.elementType? with
    | none => exact nofun
    | some t =>
      obtain ⟨column, -, ht⟩ := Option.bind_eq_some_iff.1 hfind
      exact h.elements column t ht
  have hsame {b : CellName} (hb : layout.IsProper b) (helement : b.element ≠ none)
      (hequal : noneFirst layout.columnOrder (a.column.map Text.Utf8.encode)
        (b.column.map Text.Utf8.encode) = .eq) : a.column = b.column := by
    obtain ⟨element, helement⟩ := Option.ne_none_iff_exists'.1 helement
    exact column_eq_of_noneFirst (hb.element element helement).1 hequal
  refine (((layout.elementType a).order_preorder htype).noneFirst.comap CellName.element
    fun b hb element helement => ?_).congr fun b c hb _ => ?_
  · obtain ⟨-, column, hcolumn, t, ht, hvalid⟩ := hb.1.element element helement
    have hcolumn' : a.column = some column :=
      (hsame hb.1 (Option.ne_none_iff_exists'.2 ⟨element, helement⟩) hb.2).trans hcolumn
    have : layout.elementType a = t := by
      unfold elementType
      rw [hcolumn', Option.bind_some, ht]
      rfl
    rwa [this]
  · cases helement : b.element with
    | none => cases c.element <;> rfl
    | some element =>
      have hcolumn := hsame hb.1 (by rw [helement]; exact Option.some_ne_none _) hb.2
      unfold elementType
      rw [hcolumn]

/-- **Proper parts are preordered**, unless decimals are among them. -/
theorem logicalOrder_preorder (h : layout.AvoidsDecimals) :
    PreorderOn layout.IsProper layout.logicalOrder := by
  have hstatic : PreorderOn layout.IsProper fun a b => compare b.isStatic a.isStatic :=
    PreorderOn.of_transOrd.flip.comap CellName.isStatic fun _ _ => trivial
  have hclustering : PreorderOn layout.IsProper fun a b =>
      orderValues layout.clusteringTypes a.clustering b.clustering :=
    (orderValues_preorder h.clustering).comap CellName.clustering fun _ hname => hname.clustering
  have hcolumn := (columnOrder_preorder h).andThen fun a _ => elementOrder_preorder h a
  refine (hstatic.andThen_of_forall (hclustering.andThen_of_forall hcolumn)).congr fun a b _ _ => ?_
  simp only [logicalOrder, lexicographic_cons, lexicographic_nil, Ordering.then_eq]

end

/-! ### Packed names -/

/-- A table's layout compares the names of columns by bytes, and takes any of them. -/
theorem columnOrder_of_choose? {types : List ColumnType} {compact : Bool} {cs : CollectionTypes}
    {layout : CellLayout} (h : choose? types compact cs = some layout) :
    layout.columnOrder = Bytes.order ∧ ∀ name, layout.ColumnFits name := by
  have htype : layout.columnType? = none ∨ layout.columnType? = some .text := by
    unfold choose? at h
    split at h
    · split at h
      · cases h
      · split at h <;> cases h
        · exact .inr rfl
        · exact .inl rfl
        · exact .inl rfl
    · cases h
      exact .inl rfl
  unfold columnOrder ColumnFits
  rcases htype with htype | htype <;> rw [htype]
  · exact ⟨rfl, nofun⟩
  · refine ⟨funext fun a => funext fun b => ColumnType.text_order a b, ?_⟩
    intro name t ht column _
    obtain rfl := Option.some.inj ht
    exact ColumnType.validate_text column

/-- **The order of packed names** is the logical order of their parts; it is a total preorder,
unless decimals are compared; and the layouts of tables compare the names of columns by bytes,
whatever the names are. -/
theorem packed_names_ordered (layout : CellLayout) :
    (∀ m n a b, layout.encode m = .ok a → layout.encode n = .ok b →
      ∃ m' n', layout.decode a = .ok m' ∧ layout.decode b = .ok n' ∧
        layout.order a b = layout.logicalOrder m' n') ∧
    (layout.AvoidsDecimals → PreorderOn layout.IsPacked layout.order) ∧
    ∀ types compact cs, choose? types compact cs = some layout →
      layout.columnOrder = Bytes.order ∧ ∀ name, layout.ColumnFits name := by
  refine ⟨fun m n a b hm hn => ?_, fun h => ?_, fun types compact cs => columnOrder_of_choose?⟩
  · exact ⟨_, _, decode_of_encode hm, decode_of_encode hn, order_eq_logicalOrder hm hn⟩
  · refine (logicalOrder_preorder h).of_related
      (fun packed parts => ∃ name, layout.encode name = .ok packed ∧ parts = layout.carried name)
      ?_ ?_
    · rintro packed ⟨name, hname, hcolumn⟩
      exact ⟨_, isProper_of_encode hname hcolumn, name, hname, rfl⟩
    · rintro _ _ a b ⟨m, hm, rfl⟩ ⟨n, hn, rfl⟩
      exact order_eq_logicalOrder hm hn

/-- The tides of a harbour, the latest hour first, each with the crews of the boats that came in. -/
def tidesLayout : CellLayout :=
  compoundSparse [.descending (.scalar .int)] (some [("boats", .map .text (.scalar .int) false)])

theorem tidesLayout_avoidsDecimals : tidesLayout.AvoidsDecimals where
  clustering := by decide
  elements column t h := by
    obtain ⟨collection, hcollection, helement⟩ := Option.bind_eq_some_iff.1 h
    have hmem := Bindings.mem_of_find? hcollection
    obtain ⟨-, rfl⟩ := Prod.mk.inj (List.mem_singleton.1 hmem)
    obtain rfl : ColumnType.text = t := Option.some.inj helement
    decide
  columns := nofun

/-- The boats of hour 8 come before the boats of hour 7. -/
theorem packed_names_ordered_tides :
    ∃ a b a' b',
      tidesLayout.encode ⟨[[0, 0, 0, 7]], some "boats", some [0x41], false⟩ = .ok a ∧
      tidesLayout.encode ⟨[[0, 0, 0, 8]], some "boats", none, false⟩ = .ok b ∧
      tidesLayout.decode a = .ok a' ∧ tidesLayout.decode b = .ok b' ∧
      tidesLayout.order b a = tidesLayout.logicalOrder b' a' ∧ tidesLayout.order b a = .lt ∧
      tidesLayout.AvoidsDecimals ∧ PreorderOn tidesLayout.IsPacked tidesLayout.order ∧
      tidesLayout.columnOrder = Bytes.order := by
  obtain ⟨hlogical, hpreorder, hcolumns⟩ := packed_names_ordered tidesLayout
  have ha : tidesLayout.encode ⟨[[0, 0, 0, 7]], some "boats", some [0x41], false⟩ = .ok _ := rfl
  have hb : tidesLayout.encode ⟨[[0, 0, 0, 8]], some "boats", none, false⟩ = .ok _ := rfl
  obtain ⟨b', a', hb', ha', horder⟩ := hlogical _ _ _ _ hb ha
  have hchosen : choose? [.descending (.scalar .int)] false
      [("boats", .map .text (.scalar .int) false)] = some tidesLayout := rfl
  have hlt : tidesLayout.order _ _ = .lt := (order_eq_logicalOrder hb ha).trans (by decide)
  exact ⟨_, _, a', b', ha, hb, ha', hb', horder, hlt, tidesLayout_avoidsDecimals,
    hpreorder tidesLayout_avoidsDecimals, (hcolumns _ _ _ hchosen).1⟩

/-- **A simple sparse layout need not compare the names of columns by bytes, nor transitively**: of
a wrapped number, names of four bytes are compared as numbers and other ones by bytes. -/
theorem simple_sparse_names_compared_as_numbers :
    ∃ éab abcd b, (simpleSparse (.scalar .int)).AvoidsDecimals ∧
      (simpleSparse (.scalar .int)).encode ⟨[], some "éab", none, false⟩ = .ok éab ∧
      (simpleSparse (.scalar .int)).encode ⟨[], some "abcd", none, false⟩ = .ok abcd ∧
      (simpleSparse (.scalar .int)).encode ⟨[], some "b", none, false⟩ = .ok b ∧
      Bytes.order éab abcd = .gt ∧ (simpleSparse (.scalar .int)).order éab abcd = .lt ∧
      (simpleSparse (.scalar .int)).order abcd b = .lt ∧
      (simpleSparse (.scalar .int)).order b éab = .lt :=
  ⟨_, _, _, ⟨nofun, nofun, by rintro t ⟨⟩; decide⟩, rfl, rfl, rfl, by decide, by decide, by decide,
    by decide⟩

end CellLayout

end WideColumn
