import WideColumn.Proofs.AdmittedNames
import WideColumn.Proofs.ReadOrders
import WideColumn.Proofs.RetypedOrders
import WideColumn.Proofs.TableLayouts

/-!
# Equal names

A table takes two names for the same if their bytes are the same, and so a cell takes the place of
another one.  The comparison of names takes two for the same if it finds no difference between
their parts.  Both mean the same wherever a value is spelled in one way only; but the same integer
is a varint of any width, and the same number a decimal of any scale.

* `ColumnType.eq_of_order_eq` — **of a type with one spelling, equal values are the same bytes**;
  `ColumnType.exists_two_spellings` — two equal values of any other type;
* `CellLayout.eq_of_order_eq` — the same of packed names; `CellLayout.hasEqualNames_of_values` —
  values with two spellings give two equal names;
* `TableDefinition.hasOneSpelling_iff` — **equal names of a compiled table are the same bytes if and
  only if no varints and decimals are compared**;
* `TableStore.cellsNamed_perm` — the cells of some names that a read finds;
* `equal_names_reconcile_iff` — **of two cells one takes the place of the other if and only if their
  names are the same bytes**;
* `two_rows_of_one_depth` — a table that keeps both.
-/

namespace WideColumn

open Effects

/-! ### Equal values -/

theorem Bytes.eq_of_order_eq {a b : Bytes} (h : Bytes.order a b = .eq) : a = b :=
  Std.LawfulEqOrd.eq_of_compare h

/-- Byte strings of one length that spell the same number are the same. -/
theorem Bytes.eq_of_unsigned_eq {a b : Bytes} (hlength : a.length = b.length)
    (h : unsigned a = unsigned b) : a = b := by
  refine eq_of_order_eq ?_
  rw [order_eq_compare_unsigned hlength, h, Std.ReflOrd.compare_self]

/-- Byte strings of one length that spell the same integer are the same. -/
theorem Bytes.eq_of_signed_eq {a b : Bytes} (hlength : a.length = b.length)
    (h : signed a = signed b) : a = b := by
  have hsign : isNegative a = isNegative b := by
    rw [Bool.eq_iff_iff, ← signed_neg_iff, ← signed_neg_iff, h]
  refine eq_of_order_eq ?_
  rw [order_eq_compare_signed hlength hsign, h, Std.ReflOrd.compare_self]

/-- Each bit pattern has a place of its own in the total order of its format. -/
theorem Number.FloatFormat.eq_of_orderKey_eq {f : FloatFormat} {m n : Nat}
    (hm : m < 2 * 2 ^ (f.exponentBits + f.fractionBits))
    (hn : n < 2 * 2 ^ (f.exponentBits + f.fractionBits)) (h : f.orderKey m = f.orderKey n) :
    m = n := by
  unfold orderKey isNegative magnitude at h
  simp only [Nat.pow_eq, decide_eq_true_eq] at h
  generalize 2 ^ (f.exponentBits + f.fractionBits) = unit at hm hn h
  have hsign (k : Nat) (hk : k < 2 * unit) :
      k / unit = 0 ∧ k = k % unit ∨ k / unit = 1 ∧ k = unit + k % unit := by
    have hparts := Nat.div_add_mod k unit
    have hlead : k / unit < 2 := Nat.div_lt_of_lt_mul (Nat.mul_comm 2 unit ▸ hk)
    generalize k / unit = lead at hparts hlead
    obtain rfl | rfl : lead = 0 ∨ lead = 1 := by omega
    · exact .inl ⟨rfl, by omega⟩
    · exact .inr ⟨rfl, by omega⟩
  rcases hsign m hm with ⟨hm₀, hm⟩ | ⟨hm₀, hm⟩ <;> rcases hsign n hn with ⟨hn₀, hn⟩ | ⟨hn₀, hn⟩ <;>
    simp [hm₀, hn₀] at h <;> omega

namespace Value

/-- Values that are compared by a key that tells them apart are equal only to themselves. -/
theorem eq_of_orderByKey_eq {width : Nat} {key : Bytes → Int} {a b : Bytes}
    (hkey : a.length = width → b.length = width → key a = key b → a = b)
    (h : orderByKey width key a b = .eq) : a = b := by
  unfold orderByKey at h
  split at h
  · rename_i hwidth
    exact hkey hwidth.1 hwidth.2 (Std.LawfulEqOrd.eq_of_compare h)
  · exact Bytes.eq_of_order_eq h

theorem eq_of_signed_order_eq {width : Nat} {a b : Bytes}
    (h : orderByKey width Bytes.signed a b = .eq) : a = b :=
  eq_of_orderByKey_eq (fun ha hb => Bytes.eq_of_signed_eq (ha.trans hb.symm)) h

theorem eq_of_float_order_eq {f : Number.FloatFormat} {width : Nat} {a b : Bytes}
    (hwidth : 256 ^ width = 2 * 2 ^ (f.exponentBits + f.fractionBits))
    (h : orderByKey width (floatKey f) a b = .eq) : a = b := by
  refine eq_of_orderByKey_eq (fun ha hb hkey => ?_) h
  have hbound (bytes : Bytes) (hbytes : bytes.length = width) :
      Bytes.unsigned bytes < 2 * 2 ^ (f.exponentBits + f.fractionBits) :=
    hwidth ▸ hbytes ▸ Bytes.unsigned_lt bytes
  exact Bytes.eq_of_unsigned_eq (ha.trans hb.symm)
    (Number.FloatFormat.eq_of_orderKey_eq (hbound a ha) (hbound b hb) hkey)

theorem eq_of_orderTimeUuid_eq {a b : Bytes} (h : orderTimeUuid a b = .eq) : a = b := by
  unfold orderTimeUuid at h
  split at h
  · exact Bytes.eq_of_order_eq (Ordering.then_eq_eq.1 h).2
  · exact Bytes.eq_of_order_eq h

theorem eq_of_emptyFirst_eq {a b : Bytes} {other : Ordering} (hother : other = .eq → a = b)
    (h : emptyFirst a b other = .eq) : a = b := by
  cases a <;> cases b
  · rfl
  · cases h
  · cases h
  · exact hother h

end Value

namespace ColumnType

/-- Different values of the type are never equal: it has neither the varints, of which one integer
is spelled in any width, nor the decimals, of which one number is spelled at any scale. -/
structure HasOneSpelling (t : ColumnType) : Prop where
  notVarint : t.base ≠ scalar .varint
  notDecimal : t.base ≠ scalar .decimal

instance (t : ColumnType) : Decidable t.HasOneSpelling :=
  decidable_of_iff (t.base ≠ scalar .varint ∧ t.base ≠ scalar .decimal)
    ⟨fun h => ⟨h.1, h.2⟩, fun h => ⟨h.1, h.2⟩⟩

open Value in
/-- **Of a type with one spelling, equal values are the same bytes**, whether they are valid or
not. -/
theorem eq_of_order_eq {t : ColumnType} (h : t.HasOneSpelling) {a b : Bytes}
    (horder : t.order a b = .eq) : a = b := by
  induction t generalizing a b with
  | descending t ih => exact (ih ⟨h.notVarint, h.notDecimal⟩ horder).symm
  | list | set | map => exact Bytes.eq_of_order_eq horder
  | scalar s =>
    refine eq_of_emptyFirst_eq (fun horder => ?_) horder
    cases s with
    | varint => exact absurd rfl h.notVarint
    | decimal => exact absurd rfl h.notDecimal
    | int | bigint | counter | timestamp => exact eq_of_signed_order_eq horder
    | double | float => exact eq_of_float_order_eq (by decide) horder
    | timeuuid => exact eq_of_orderTimeUuid_eq horder
    | ascii | text | blob | boolean | inet | uuid => exact Bytes.eq_of_order_eq horder

/-- **Any other type has two short values that are equal.** -/
theorem exists_two_spellings {t : ColumnType} (h : ¬t.HasOneSpelling) :
    ∃ a b, a ≠ b ∧ t.order a b = .eq ∧
      ∀ v ∈ [a, b], t.validate v = .ok () ∧ v.length ≤ Composite.maxComponentSize := by
  induction t with
  | descending t ih =>
    obtain ⟨a, b, hne, horder, hvalid⟩ := ih fun ht => h ⟨ht.notVarint, ht.notDecimal⟩
    refine ⟨b, a, hne.symm, horder, fun v hv => ?_⟩
    obtain ⟨hv, hshort⟩ := hvalid v (List.mem_pair.2 (List.mem_pair.1 hv).symm)
    exact ⟨(validate_descending t v).2 hv, hshort⟩
  | list | set | map => exact absurd ⟨nofun, nofun⟩ h
  | scalar s =>
    cases s with
    | varint => exact ⟨[1], [0, 1], by decide, by decide, by decide⟩
    | decimal => exact ⟨[0, 0, 0, 0, 1], [0, 0, 0, 0, 0, 1], by decide, by decide, by decide⟩
    | _ => exact absurd ⟨nofun, nofun⟩ h

end ColumnType

/-- Equal lists of values are the same. -/
theorem eq_of_orderValues_eq {types : List ColumnType} (h : ∀ t ∈ types, t.HasOneSpelling)
    {as bs : List Bytes} (ha : as.length ≤ types.length) (hb : bs.length ≤ types.length)
    (horder : orderValues types as bs = .eq) : as = bs := by
  induction types generalizing as bs with
  | nil =>
    rw [List.length_eq_zero_iff.1 (Nat.le_zero.1 ha), List.length_eq_zero_iff.1 (Nat.le_zero.1 hb)]
  | cons t types ih =>
    obtain ⟨ht, htypes⟩ := List.forall_mem_cons.1 h
    cases as with
    | nil =>
      cases bs with
      | nil => rfl
      | cons b bs => cases horder
    | cons a as =>
      cases bs with
      | nil => cases horder
      | cons b bs =>
        rw [orderValues_cons] at horder
        obtain ⟨hfirst, hrest⟩ := Ordering.then_eq_eq.1 horder
        rw [ColumnType.eq_of_order_eq ht hfirst, ih htypes (Nat.le_of_succ_le_succ ha)
          (Nat.le_of_succ_le_succ hb) hrest]

theorem eq_of_noneFirst_eq {α : Type} {cmp : α → α → Ordering} {a b : Option α}
    (hcmp : ∀ x ∈ a, ∀ y ∈ b, cmp x y = .eq → x = y) (h : noneFirst cmp a b = .eq) : a = b := by
  cases a with
  | none =>
    cases b with
    | none => rfl
    | some y => cases h
  | some x =>
    cases b with
    | none => cases h
    | some y => rw [hcmp x rfl y rfl h]

/-! ### Equal names -/

namespace CellLayout

variable {layout : CellLayout} {m n : CellName} {a b : Bytes}

/-- Names are compared by values that have one spelling only. -/
structure HasOneSpelling (layout : CellLayout) : Prop where
  clustering : ∀ t ∈ layout.clusteringTypes, t.HasOneSpelling
  elements : ∀ column t, layout.elementType? column = some t → t.HasOneSpelling
  columns : ∀ t ∈ layout.columnType?, t.HasOneSpelling

/-- **Equal names have the same parts**, if values have one spelling. -/
theorem parts_eq_of_order_eq (h : layout.HasOneSpelling) (hm : layout.decode a = .ok m)
    (hn : layout.decode b = .ok n) (horder : layout.order a b = .eq) : m = n := by
  rw [order_of_decode hm hn] at horder
  simp only [logicalOrder, lexicographic_cons, lexicographic_nil, Ordering.then_eq,
    Ordering.then_eq_eq] at horder
  obtain ⟨hstatic, hclustering, hcolumn, helement⟩ := horder
  have hcolumns : ∀ x y, layout.columnOrder x y = .eq → x = y := by
    unfold columnOrder
    cases htype : layout.columnType? with
    | none => exact fun _ _ => Bytes.eq_of_order_eq
    | some t => exact fun _ _ => ColumnType.eq_of_order_eq (h.columns t htype)
  have helements : (layout.elementType m).HasOneSpelling := by
    unfold elementType
    cases htype : m.column.bind layout.elementType? with
    | none => exact (by decide : ColumnType.blob.HasOneSpelling)
    | some t =>
      obtain ⟨column, -, ht⟩ := Option.bind_eq_some_iff.1 htype
      exact h.elements column t ht
  obtain ⟨clustering, column, element, isStatic⟩ := m
  obtain ⟨clustering', column', element', isStatic'⟩ := n
  have hstatic : isStatic' = isStatic := Std.LawfulEqOrd.eq_of_compare hstatic
  have hclustering : clustering = clustering' :=
    eq_of_orderValues_eq h.clustering (clustering_le_of_decode hm) (clustering_le_of_decode hn)
      hclustering
  have hcolumn : column = column' :=
    Option.map_injective (fun _ _ => Text.Utf8.encode_inj)
      (eq_of_noneFirst_eq (fun x _ y _ => hcolumns x y) hcolumn)
  have helement : element = element' :=
    eq_of_noneFirst_eq (fun x _ y _ => ColumnType.eq_of_order_eq helements) helement
  rw [hstatic, hclustering, hcolumn, helement]

/-- **Equal packed names are the same bytes**, if values have one spelling. -/
theorem eq_of_order_eq (h : layout.HasOneSpelling) (hm : layout.encode m = .ok a)
    (hn : layout.encode n = .ok b) (horder : layout.order a b = .eq) : a = b := by
  have ha := decode_of_encode hm
  have hb := decode_of_encode hn
  rw [← parts_eq_of_order_eq h ha hb horder] at hb
  exact eq_of_isBlank ha hb (passedOver_of_encode hm) (passedOver_of_encode hn)

/-- Names that were packed into the same bytes carry the same parts. -/
theorem carried_eq_of_encode (hm : layout.encode m = .ok a) (hn : layout.encode n = .ok a) :
    layout.carried m = layout.carried n :=
  Except.ok.inj ((decode_of_encode hm).symm.trans (decode_of_encode hn))

/-- Two names were packed that are equal, but not the same bytes. -/
def HasEqualNames (layout : CellLayout) : Prop :=
  ∃ m n a b, layout.encode m = .ok a ∧ layout.encode n = .ok b ∧ layout.order a b = .eq ∧ a ≠ b

/-- **Values with two spellings give equal names**, if short valid ones can be packed into a name
which they alone decide the order of. -/
theorem hasEqualNames_of_values {t : ColumnType} (h : ¬t.HasOneSpelling) (name : Bytes → CellName)
    (hencode : ∀ v, t.validate v = .ok () → v.length ≤ Composite.maxComponentSize →
      ∃ packed, layout.encode (name v) = .ok packed)
    (horder : ∀ x y a b, layout.encode (name x) = .ok a → layout.encode (name y) = .ok b →
      layout.order a b = t.order x y)
    (hname : ∀ x y, layout.carried (name x) = layout.carried (name y) → x = y) :
    layout.HasEqualNames := by
  obtain ⟨x, y, hne, hequal, hvalid⟩ := ColumnType.exists_two_spellings h
  obtain ⟨hx, hxshort⟩ := hvalid x (.head _)
  obtain ⟨hy, hyshort⟩ := hvalid y (.tail _ (.head _))
  obtain ⟨a, ha⟩ := hencode x hx hxshort
  obtain ⟨b, hb⟩ := hencode y hy hyshort
  refine ⟨_, _, a, b, ha, hb, (horder x y a b ha hb).trans hequal, fun hab => hne (hname x y ?_)⟩
  exact carried_eq_of_encode ha (hab ▸ hb)

/-- The static names of elements of one column are ordered as the elements. -/
theorem order_static_elements {types : List ColumnType} {cs : Option CollectionTypes}
    {column : String} {t : ColumnType}
    (ht : (compoundSparse types cs).elementType? column = some t) {x y : Bytes}
    (ha : (compoundSparse types cs).encode ⟨[], some column, some x, true⟩ = .ok a)
    (hb : (compoundSparse types cs).encode ⟨[], some column, some y, true⟩ = .ok b) :
    (compoundSparse types cs).order a b = t.order x y := by
  have htype : (compoundSparse types cs).elementType ⟨[], some column, some x, true⟩ = t := by
    unfold elementType
    rw [Option.bind_some, ht]
    rfl
  have hcolumn : Bytes.order (Text.Utf8.encode column) (Text.Utf8.encode column) = .eq :=
    Std.ReflOrd.compare_self
  rw [order_eq_logicalOrder ha hb]
  show lexicographic [.eq, orderValues types [] [],
    Bytes.order (Text.Utf8.encode column) (Text.Utf8.encode column),
    ((compoundSparse types cs).elementType ⟨[], some column, some x, true⟩).order x y] = _
  rw [orderValues_nil, hcolumn, htype]
  simp

/-- Elements with two spellings give equal names. -/
theorem hasEqualNames_of_elements {column : String} {t : ColumnType}
    (hsize : (Text.Utf8.encode column).length ≤ Composite.maxComponentSize)
    (ht : layout.elementType? column = some t) (h : ¬t.HasOneSpelling) : layout.HasEqualNames := by
  cases layout with
  | simpleSparse | simpleDense | compoundDense => cases ht
  | compoundSparse types cs =>
    exact hasEqualNames_of_values h (fun element => ⟨[], some column, some element, true⟩)
      (fun _ hvalid hshort => encode_static_element hsize ht hvalid hshort)
      (fun _ _ _ _ => order_static_elements ht)
      fun _ _ hsame => Option.some.inj (congrArg CellName.element hsame)

end CellLayout

namespace TableSchema

variable {s : TableSchema} {c : Column}

/-- Rows that differ in one column tell its values. -/
theorem rowWith_inj (hc : c ∈ s.clusteringColumns) {x y : Bytes}
    (h : s.rowWith c x = s.rowWith c y) : x = y := by
  have hvalue := List.map_inj_left.1 h c hc
  rwa [if_pos rfl, if_pos rfl] at hvalue

/-- Clustering values with two spellings give equal names. -/
theorem Consistent.hasEqualNames (hs : s.Consistent) (hc : c ∈ s.clusteringColumns)
    (h : ¬c.type.HasOneSpelling) : s.cellLayout.HasEqualNames := by
  refine CellLayout.hasEqualNames_of_values h (fun v => s.cellLayout.rowName (s.rowWith c v))
    (fun _ => hs.encode_rowWith_exists) (fun x y a b ha hb => ?_) fun x y hsame => ?_
  · rw [CellLayout.order_rowName ha hb, hs.clustering, orderValues_rowWith hc]
  · have hrows := congrArg CellName.clustering hsame
    rw [CellLayout.carried_clustering, CellLayout.carried_clustering] at hrows
    exact rowWith_inj hc hrows

end TableSchema

/-! ### Equal names of a compiled table -/

namespace TableDefinition

variable {d : TableDefinition} {s : TableSchema}

/-- The columns whose elements a compiled table addresses have short names. -/
theorem size_of_elementType? (h : d.compile = .ok s) {column : String} {t : ColumnType}
    (ht : s.cellLayout.elementType? column = some t) :
    (Text.Utf8.encode column).length ≤ Composite.maxComponentSize := by
  obtain ⟨type, htype, -⟩ := Option.bind_eq_some_iff.1 ht
  have hs := consistent_of_compile h
  rw [recordsCollections_of_compile h column, List.findSome?_singleton,
    hs.collection?_eq_some_iff] at htype
  obtain ⟨c, hc, rfl, -⟩ := htype
  exact Naming.encode_length_le (hs.validNames c hc)

/-- The layout of a table compares the names of columns as texts, if by a type. -/
theorem columnType?_of_layoutRule {types : List ColumnType} {compact : Bool}
    {cs : CollectionTypes} {layout : CellLayout} (h : LayoutRule types compact cs layout) :
    ∀ t ∈ layout.columnType?, t = .text := by
  cases h with
  | compactStatic => exact fun t ht => (Option.some.inj ht).symm
  | compactOne | compactSeveral | plain | withCollections => nofun

/-- **Equal names of a compiled table are the same bytes if and only if no varints and decimals are
compared**, neither as clustering values nor as elements of a collection. -/
theorem hasOneSpelling_iff (h : d.compile = .ok s) :
    s.cellLayout.HasOneSpelling ↔ ∀ m n a b, s.cellLayout.encode m = .ok a →
      s.cellLayout.encode n = .ok b → (s.cellLayout.order a b = .eq ↔ a = b) := by
  have hs := consistent_of_compile h
  constructor
  · intro hone m n a b hm hn
    refine ⟨CellLayout.eq_of_order_eq hone hm hn, ?_⟩
    rintro rfl
    exact s.cellLayout.order_self a
  · intro hequal
    have hnone : ¬s.cellLayout.HasEqualNames := by
      rintro ⟨m, n, a, b, hm, hn, horder, hne⟩
      exact hne ((hequal m n a b hm hn).1 horder)
    refine ⟨fun t ht => ?_, fun column t ht => ?_, fun t ht => ?_⟩
    · rw [hs.clustering] at ht
      obtain ⟨c, hc, rfl⟩ := List.mem_map.1 ht
      exact by_contra fun hc' => hnone (hs.hasEqualNames hc hc')
    · exact by_contra fun ht' =>
        hnone (CellLayout.hasEqualNames_of_elements (size_of_elementType? h ht) ht ht')
    · obtain ⟨k, layout, default, hcompiled, rfl⟩ := compile_ok h
      obtain rfl := columnType?_of_layoutRule (layoutRule_of_choose? hcompiled.layout) t ht
      decide

end TableDefinition

/-! ### Cells under two names -/

/-- The cell that counts when one is written over what is stored under its name. -/
def Cell.writtenOver (c : Cell) : Option Cell → Cell
  | none => c
  | some old => if c.supersedes old then c else old

theorem Layers.reconcile_some (stored : Option Cell) (c : Cell) :
    reconcile stored (some c) = some (c.writtenOver stored) := by
  cases stored with
  | none => rfl
  | some old => exact (apply_ite some _ _ _).symm

/-- The action issues a flush or finishes one. -/
def StoreAction.IsFlush {σ : Type} : StoreAction σ → Prop
  | issueFlush _ | finishFlush _ => True
  | _ => False

namespace TableStore

variable {σ : Type} {s : TableStore}

/-- Flushes move cells from one layer to another. -/
theorem rearranged_of_flushes (h : s.layers.WellFormed) {flushes : List (StoreAction σ)}
    (hflushes : ∀ a ∈ flushes, a.IsFlush) (trace : HookTrace σ) :
    s.Rearranged (performAll TableStore.perform s trace flushes).2.1 := by
  induction flushes generalizing s trace with
  | nil => exact Rearranged.refl h
  | cons a rest ih =>
    obtain ⟨ha, hrest⟩ := List.forall_mem_cons.1 hflushes
    have hfirst : s.Rearranged (s.perform trace a).2.1 := by
      cases a with
      | issueFlush order =>
        unfold perform
        rcases issueFlush_cases h order with ⟨e, -, hf⟩ | ⟨-, t, s', o, hf, hs⟩ <;> simp only [hf]
        · exact Rearranged.refl h
        · exact hs
      | finishFlush ticket => exact finishFlush_rearranged h ticket
      | apply | discard | invalidate => cases ha
    have hall := ih hfirst.layers hrest (s.perform trace a).2.2
    exact ⟨hall.id.trans hfirst.id, hall.schema.trans hfirst.schema,
      hall.isInvalidated.trans hfirst.isInvalidated, hall.layers, hall.get?.trans hfirst.get?⟩

/-- The cells of a read that have one of the names. -/
def cellsNamed (s : TableStore) (key : Bytes) (names : List Bytes) : List Cell :=
  (s.read key).filter fun c => c.name ∈ names

/-- **Under each name a read finds the cell that counts.** -/
theorem cellsNamed_perm (h : s.layers.WellFormed) (key : Bytes) {names : List Bytes}
    (hnames : names.Nodup) : (s.cellsNamed key names).Perm (names.filterMap (s.get? key)) := by
  have hnamed {name : Bytes} {c : Cell} (hc : s.get? key name = some c) : c.name = name :=
    h.name_eq hc
  refine (List.perm_ext_iff_of_nodup ((read_names_nodup h key).of_map.filter _)
    (hnames.filterMap fun a b c ha hb => (hnamed ha).symm.trans (hnamed hb))).2 fun c => ?_
  rw [List.mem_filter, mem_read h, List.mem_filterMap, decide_eq_true_eq]
  constructor
  · rintro ⟨hc, hname⟩
    exact ⟨c.name, hname, hc⟩
  · rintro ⟨name, hname, hc⟩
    rw [hnamed hc]
    exact ⟨hc, hname⟩

/-- **Two cells of one name leave one**, and two cells of different names leave two. -/
theorem cellsNamed_of_put (h : s.layers.WellFormed) {v : Ledger} {key : Bytes} {x y : Cell}
    (hget : s.get? = (v.put key x).put key y) :
    (x.name = y.name → s.cellsNamed key [x.name] =
      [y.writtenOver (some (x.writtenOver (v key x.name)))]) ∧
    (x.name ≠ y.name → (s.cellsNamed key [x.name, y.name]).Perm
      [x.writtenOver (v key x.name), y.writtenOver (v key y.name)]) := by
  constructor
  · intro hname
    have hcounts : s.get? key x.name =
        some (y.writtenOver (some (x.writtenOver (v key x.name)))) := by
      rw [hget, hname, Ledger.put_self, ← hname, Ledger.put_self, Layers.reconcile_some,
        Layers.reconcile_some]
    have hcells := cellsNamed_perm h key (List.nodup_singleton x.name)
    rwa [List.filterMap_cons_some hcounts, List.filterMap_nil, List.perm_singleton] at hcells
  · intro hname
    have hx : s.get? key x.name = some (x.writtenOver (v key x.name)) := by
      rw [hget, Ledger.put_of_ne _ fun hsame => hname hsame.2, Ledger.put_self,
        Layers.reconcile_some]
    have hy : s.get? key y.name = some (y.writtenOver (v key y.name)) := by
      rw [hget, Ledger.put_self, Ledger.put_of_ne _ fun hsame => hname hsame.2.symm,
        Layers.reconcile_some]
    have hcells := cellsNamed_perm h key (List.nodup_cons.2
      ⟨fun hmem => hname (List.mem_singleton.1 hmem), List.nodup_singleton y.name⟩)
    rwa [List.filterMap_cons_some hx, List.filterMap_cons_some hy, List.filterMap_nil] at hcells

end TableStore

/-! ### Equal names reconcile -/

/-- **When equal names reconcile.**  In a compiled table, equal names that were packed are the same
bytes if and only if no varints and decimals are compared.  And whatever was done to the table
before: of two cells that are written one after the other, with or without flushes in between, reads
find one if their names are the same bytes, the one that supersedes the other; and else they find
both, each as if the other had not been written. -/
theorem equal_names_reconcile_iff {d : TableDefinition} {schema : TableSchema}
    (h : d.compile = .ok schema) :
    (schema.cellLayout.HasOneSpelling ↔ ∀ m n a b, schema.cellLayout.encode m = .ok a →
      schema.cellLayout.encode n = .ok b → (schema.cellLayout.order a b = .eq ↔ a = b)) ∧
    ∀ {σ : Type} (actions flushes : List (StoreAction σ)) (st : σ),
      let s := (performAll TableStore.perform (.ofSchema schema) ([], st) actions).2.1
      s.isInvalidated = false → (∀ a ∈ flushes, a.IsFlush) →
      ∀ (now now' : Int) (key : Bytes) (x y : Cell) (m n : CellName),
        (∃ parts, schema.keyLayout.decode key = .ok parts) →
        schema.cellLayout.encode m = .ok x.name → schema.cellLayout.encode n = .ok y.name →
        ∃ s₁ s', s.write now key [x] = .ok s₁ ∧
          (performAll TableStore.perform s₁ ([], st) flushes).2.1.write now' key [y] = .ok s' ∧
          (x.name = y.name → s'.cellsNamed key [x.name] =
            [y.writtenOver (some (x.writtenOver (s.get? key x.name)))]) ∧
          (x.name ≠ y.name → (s'.cellsNamed key [x.name, y.name]).Perm
            [x.writtenOver (s.get? key x.name), y.writtenOver (s.get? key y.name)]) := by
  refine ⟨TableDefinition.hasOneSpelling_iff h, ?_⟩
  intro σ actions flushes st s hopen hflushes now now' key x y m n hkey hx hy
  have hs : Admitting schema s := (Admitting.ofSchema schema).performAll ([], st) actions
  have hadmits {c : Cell} {name : CellName} (hc : schema.cellLayout.encode name = .ok c.name) :
      schema.Admits ⟨key, c⟩ := ⟨hkey, _, CellLayout.decode_of_encode hc⟩
  obtain ⟨s₁, hfirst, hwf₁, hschema₁, hopen₁, hget₁⟩ :=
    TableStore.receive_ok (d := ⟨⟨key, x⟩, now⟩) hs.layers hopen (hs.schema_eq ▸ hadmits hx)
  have hflushed := TableStore.rearranged_of_flushes hwf₁ hflushes ([], st)
  obtain ⟨s', hsecond, hwf, -, -, hget⟩ :=
    TableStore.receive_ok (d := ⟨⟨key, y⟩, now'⟩) hflushed.layers
      (hflushed.isInvalidated.trans hopen₁)
      (hflushed.schema.trans (hschema₁.trans hs.schema_eq) ▸ hadmits hy)
  rw [hflushed.get?, hget₁] at hget
  exact ⟨s₁, s', hfirst, hsecond, TableStore.cellsNamed_of_put hwf hget⟩

/-- A level that is flushed and then written anew is read once; and the names of a level and a note
are told apart. -/
theorem equal_names_reconcile_levels :
    readings.cellLayout.HasOneSpelling ∧
      readings.cellLayout.order (readingName "level") (readingName "note") ≠ .eq ∧
      ∃ s₁ s', (TableStore.ofSchema readings).write 0 [65] [reading "level" 49 1] = .ok s₁ ∧
        (performAll TableStore.perform s₁ ([], ()) [StoreAction.issueFlush {}]).2.1.write 0 [65]
          [reading "level" 50 2] = .ok s' ∧
        s'.cellsNamed [65] [readingName "level"] = [reading "level" 50 2] := by
  obtain ⟨hequal, hwrites⟩ := equal_names_reconcile_iff readings_compile
  have hone : readings.cellLayout.HasOneSpelling := ⟨by decide, nofun, nofun⟩
  have hlevel : readings.cellLayout.encode (.regular [[56]] "level") = .ok (readingName "level") :=
    rfl
  have hnote : readings.cellLayout.encode (.regular [[56]] "note") = .ok (readingName "note") := rfl
  obtain ⟨s₁, s', hfirst, hsecond, hsame, -⟩ := hwrites [] [StoreAction.issueFlush {}] () rfl
    (List.forall_mem_singleton.2 trivial) 0 0 [65] (reading "level" 49 1) (reading "level" 50 2)
    _ _ ⟨_, rfl⟩ hlevel hlevel
  refine ⟨hone, fun horder => ?_, s₁, s', hfirst, hsecond, (hsame rfl).trans ?_⟩
  · exact absurd ((hequal.1 hone _ _ _ _ hlevel hnote).1 horder) (by decide)
  · decide

/-! ### One depth in two spellings -/

/-- Readings at rivers: a row for each depth, with a level. -/
def depthsDefinition : TableDefinition where
  keyspace := "rivers"
  name := "depths"
  columns := [⟨"river", .text, false⟩, ⟨"depth", .scalar .varint, false⟩, ⟨"level", .text, false⟩]
  partitionKeys := [["river"]]
  clusteringColumns := ["depth"]

/-- The table of the depths. -/
def depths : TableSchema where
  keyspace := "rivers"
  name := "depths"
  keyLayout := .single .text
  cellLayout := .compoundSparse [.scalar .varint] none
  defaultType := .blob
  isDense := false
  isCompact := false
  columns := [⟨"river", .text, .partitionKey, none⟩,
    ⟨"depth", .scalar .varint, .clusteringKey, some 0⟩, ⟨"level", .text, .regular, some 1⟩]
  compactValue := none
  properties := {}

/-- The name of the level at a depth. -/
def depthName (depth : Bytes) : Bytes :=
  ((depths.cellLayout.encode (.regular [depth] "level")).toOption).getD []

/-- A level at the depth 1. -/
def levelAtOne : Cell := .ofValue (depthName [1]) [49] 1

/-- A later level at the same depth, which is written with another byte. -/
def laterLevelAtOne : Cell := .ofValue (depthName [0, 1]) [50] 2

/-- **Equal names need not reconcile.**  Both levels are at the depth 1, and the comparison of names
takes them for the same; the later one supersedes the other, but a read finds both. -/
theorem two_rows_of_one_depth :
    depthsDefinition.compile = .ok depths ∧
      depths.cellLayout.encode (.regular [[1]] "level") = .ok levelAtOne.name ∧
      depths.cellLayout.encode (.regular [[0, 1]] "level") = .ok laterLevelAtOne.name ∧
      depths.cellLayout.order levelAtOne.name laterLevelAtOne.name = .eq ∧
      laterLevelAtOne.supersedes levelAtOne = true ∧
      (((TableStore.ofSchema depths).write 0 [65] [levelAtOne]).bind fun s =>
        s.write 0 [65] [laterLevelAtOne]).map (·.read [65]) =
          .ok [levelAtOne, laterLevelAtOne] := by
  refine ⟨by decide, rfl, rfl, by decide +kernel, by decide, ?_⟩
  decide +kernel

end WideColumn
