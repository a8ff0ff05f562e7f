import WideColumn.Proofs.NameOrder
import WideColumn.Proofs.RegisteredCollections
import WideColumn.Proofs.StoredData
import WideColumn.Proofs.TypeNotation

/-!
# Rows in order under another type

The rows of a partition stay where they are while the type of a clustering column changes, so the
new type has to order the stored values as the old one did.  The check of a new type looks at the
types below the descending marks, which order values alike; the marks are another matter.  A column
in descending order keeps its mark whatever type it is given, but a column in ascending order that
is given a type with a mark is turned round.

* `ColumnType.isTurned`, `order_eq_of_isTurned` — a type orders values as its base does, or the
  other way round;
* `order_base_of_keepsOrderOf` — **the types that a clustering column may change to order its
  values alike, marks aside**;
* `CellLayout.order_withClusteringType` — the order of packed names follows from the types alone;
* `TableDefinition.retyped_order_kept_iff` — **a clustering column keeps its rows in order under
  another type if and only if its direction stays**, and turns them round else;
* `TableDefinition.ascending_rows_turned` — which happens to hours that are given a type with a
  mark.
-/

namespace WideColumn

open Effects

/-! ### Directions -/

namespace ColumnType

/-- Do the descending marks of the type, taken together, turn its order round? -/
def isTurned : ColumnType → Bool
  | descending t => !t.isTurned
  | _ => false

/-- **A type orders values as its base does**, or the other way round. -/
theorem order_eq_of_isTurned (t : ColumnType) (a b : Bytes) :
    t.order a b = if t.isTurned then t.base.order b a else t.base.order a b := by
  induction t generalizing a b with
  | descending t ih =>
    show t.order b a = if !t.isTurned then t.base.order b a else t.base.order a b
    rw [ih]
    cases t.isTurned <;> rfl
  | scalar | list | set | map => rfl

theorem isTurned_eq_isDescending {t : ColumnType} (h : t.hasSingleMarks = true) :
    t.isTurned = t.isDescending := by
  cases t with
  | descending t =>
    obtain ⟨hmark, -⟩ := Bool.and_eq_true_iff.1 h
    cases t with
    | descending => cases hmark
    | scalar | list | set | map => rfl
  | scalar | list | set | map => rfl

/-- Of the values of a type, the empty one stands at the beginning or at the end. -/
theorem order_nil (t : ColumnType) {b : Bytes} (hb : b ≠ []) :
    t.order [] b = if t.isTurned then .gt else .lt := by
  obtain ⟨x, rest, rfl⟩ := List.exists_cons_of_ne_nil hb
  have hbase (u : ColumnType) : u.base.order [] (x :: rest) = .lt ∧
      u.base.order (x :: rest) [] = .gt := by
    induction u with
    | descending u ih => exact ih
    | scalar | list | set | map => exact ⟨rfl, rfl⟩
  rw [order_eq_of_isTurned, (hbase t).1, (hbase t).2]

/-- So the place of the empty value tells the direction. -/
theorem isTurned_eq_of_order_nil {t t' : ColumnType} {b : Bytes} (hb : b ≠ [])
    (h : t'.order [] b = t.order [] b) : t'.isTurned = t.isTurned := by
  rw [order_nil t hb, order_nil t' hb] at h
  cases hturned : t.isTurned <;> cases hturned' : t'.isTurned <;>
    simp [hturned, hturned'] at h ⊢

theorem order_nil_nil (t : ColumnType) : t.order [] [] = .eq := by
  induction t with
  | descending t ih => exact ih
  | scalar | list | set | map => rfl

/-- Every type has another value than the empty one, and a short one. -/
theorem exists_short_value (t : ColumnType) :
    ∃ value, t.validate value = .ok () ∧ value ≠ [] ∧
      value.length ≤ Composite.maxComponentSize := by
  have hscalar (s : ScalarType) : ∃ value, (scalar s).validate value = .ok () ∧ value ≠ [] ∧
      value.length ≤ Composite.maxComponentSize := by
    cases s with
    | ascii | text | blob | boolean | varint => exact ⟨[0], by decide, nofun, by decide⟩
    | int | float | inet => exact ⟨List.replicate 4 0, by decide, nofun, by decide⟩
    | bigint | counter | timestamp | double => exact ⟨List.replicate 8 0, by decide, nofun, by decide⟩
    | decimal => exact ⟨List.replicate 5 0, by decide, nofun, by decide⟩
    -- The first four bits of the seventh byte are the version.
    | uuid | timeuuid => exact ⟨List.replicate 16 0x10, by decide, nofun, by decide⟩
  induction t with
  | descending t ih =>
    obtain ⟨value, hvalid, hvalue⟩ := ih
    exact ⟨value, (validate_descending t value).2 hvalid, hvalue⟩
  | scalar s => exact hscalar s
  | list | set | map => exact ⟨[0], rfl, nofun, by decide⟩

/-! ### Types that keep an order -/

/-- Whole numbers are ordered as numbers whatever their width. -/
theorem varint_order_eq {s : ScalarType} {width : Nat} {a b : Bytes}
    (hs : s.order = Value.orderByKey width Bytes.signed)
    (ha : a = [] ∨ a.length = width) (hb : b = [] ∨ b.length = width) :
    (scalar .varint).order a b = (scalar s).order a b := by
  show Value.emptyFirst a b (Value.orderVarint a b) = Value.emptyFirst a b (s.order a b)
  by_cases hane : a = []
  · subst hane
    cases b <;> rfl
  by_cases hbne : b = []
  · subst hbne
    cases a <;> rfl
  rw [hs, Value.orderVarint_eq_compare_signed hane hbne, Value.orderByKey,
    if_pos ⟨ha.resolve_left hane, hb.resolve_left hbne⟩]

/-- **A type that keeps the order of another one** orders its values as that one does, marks
aside. -/
theorem order_base_of_keepsOrderOf {next previous : ColumnType}
    (h : next.keepsOrderOf previous = true) {a b : Bytes}
    (ha : previous.validate a = .ok ()) (hb : previous.validate b = .ok ()) :
    next.base.order a b = previous.base.order a b := by
  rw [← validate_base] at ha hb
  unfold keepsOrderOf at h
  rcases Bool.or_eq_true_iff.1 h with hsame | hwider
  · rw [of_decide_eq_true hsame]
  · split at hwider
    all_goals rename_i hnext hprevious
    iterate 3
      · rw [hnext, hprevious]
        rfl
    · rw [hprevious] at ha hb
      rw [hnext, hprevious]
      exact varint_order_eq rfl (validateWidth_eq_ok_iff.1 ha) (validateWidth_eq_ok_iff.1 hb)
    · rw [hprevious] at ha hb
      rw [hnext, hprevious]
      exact varint_order_eq rfl (validateWidth_eq_ok_iff.1 ha) (validateWidth_eq_ok_iff.1 hb)
    · rw [of_decide_eq_true hwider]

end ColumnType

/-! ### Lists of values -/

/-- Types that order the values of each column alike order rows alike. -/
theorem orderValues_congr {α : Type} {f g : α → ColumnType} {columns : List α}
    (h : ∀ c ∈ columns, ∀ a b, (f c).validate a = .ok () → (f c).validate b = .ok () →
      (g c).order a b = (f c).order a b) {as bs : List Bytes}
    (ha : FitTypes (columns.map f) as) (hb : FitTypes (columns.map f) bs) :
    orderValues (columns.map g) as bs = orderValues (columns.map f) as bs := by
  induction columns generalizing as bs with
  | nil => rfl
  | cons c columns ih =>
    obtain ⟨hc, hcolumns⟩ := List.forall_mem_cons.1 h
    cases as with
    | nil => cases bs <;> rfl
    | cons a as =>
      cases bs with
      | nil => rfl
      | cons b bs =>
        obtain ⟨hvalid, has⟩ := ha.tail
        obtain ⟨hvalid', hbs⟩ := hb.tail
        simp only [List.map_cons, orderValues_cons, hc a b hvalid hvalid', ih hcolumns has hbs]

/-- Rows that differ in one column only are ordered by its type. -/
theorem orderValues_of_single {α : Type} {f : α → ColumnType} {u w : α → Bytes} {c : α}
    {columns : List α} (hc : c ∈ columns)
    (hothers : ∀ other ∈ columns, other ≠ c → (f other).order (u other) (w other) = .eq) :
    orderValues (columns.map f) (columns.map u) (columns.map w) = (f c).order (u c) (w c) := by
  have hequal {rest : List α}
      (h : ∀ other ∈ rest, (f other).order (u other) (w other) = .eq) :
      orderValues (rest.map f) (rest.map u) (rest.map w) = .eq := by
    induction rest with
    | nil => rfl
    | cons other rest ih =>
      obtain ⟨hother, hrest⟩ := List.forall_mem_cons.1 h
      simp only [List.map_cons, orderValues_cons, hother, ih hrest, Ordering.eq_then]
  induction columns with
  | nil => cases hc
  | cons other columns ih =>
    obtain ⟨hother, hcolumns⟩ := List.forall_mem_cons.1 hothers
    simp only [List.map_cons, orderValues_cons]
    by_cases hin : c ∈ columns
    · rw [ih hin hcolumns]
      by_cases hsame : other = c
      · subst hsame
        cases (f other).order (u other) (w other) <;> rfl
      · rw [hother hsame, Ordering.eq_then]
    · obtain rfl : c = other := (List.mem_cons.1 hc).resolve_right hin
      rw [hequal fun other hmem => hcolumns other hmem fun hsame => hin (hsame ▸ hmem),
        Ordering.then_eq]

theorem validateAll_map {α : Type} {f : α → ColumnType} {u : α → Bytes} {columns : List α}
    (h : ∀ c ∈ columns, (f c).validate (u c) = .ok ()) :
    KeyLayout.validateAll (columns.map f) (columns.map u) = .ok () := by
  induction columns with
  | nil => rfl
  | cons c columns ih =>
    obtain ⟨hc, hcolumns⟩ := List.forall_mem_cons.1 h
    exact except_bind_eq_ok.2 ⟨(), hc, ih hcolumns⟩

/-! ### Names -/

namespace CellLayout

/-- A name with these clustering values, and with a column where it needs one. -/
def rowName (layout : CellLayout) (values : List Bytes) : CellName :=
  ⟨values, if layout.isDense then none else some "", none, false⟩

/-- Values that fill a row can be packed. -/
theorem encode_rowName_exists {layout : CellLayout} {values : List Bytes}
    (h : FillsRow layout.clusteringTypes values) :
    ∃ packed, layout.encode (layout.rowName values) = .ok packed := by
  cases layout with
  | simpleSparse t =>
    obtain rfl : values = [] := List.length_eq_zero_iff.1 h.length
    exact ⟨_, rfl⟩
  | simpleDense t =>
    obtain ⟨value, rfl⟩ := List.length_eq_one_iff.1 h.length
    exact ⟨value, except_bind_eq_ok.2 ⟨(), h.valid, rfl⟩⟩
  | compoundDense types =>
    obtain ⟨packed, hpacked⟩ := (Composite.encode_exists_iff (c := ⟨values, false⟩)).2 h.short
    refine ⟨packed, except_bind_eq_ok.2 ⟨(), h.valid, except_bind_eq_ok.2 ⟨(), rfl, ?_⟩⟩⟩
    exact ite_throw_eq_ok.2 ⟨Nat.not_lt.2 h.length.le, hpacked⟩
  | compoundSparse types cs =>
    exact compoundSparse_encode_exists_iff.2 ⟨h, "", rfl, by decide, nofun⟩

variable {position : Nat} {type : ColumnType} {layout : CellLayout}

/-- Names are packed alike under another type that their values are valid for. -/
theorem encode_withClusteringType {name : CellName} {packed : Bytes}
    (h : layout.encode name = .ok packed)
    (hfits : FitTypes (layout.withClusteringType position type).clusteringTypes name.clustering) :
    (layout.withClusteringType position type).encode name = .ok packed := by
  obtain ⟨⟨⟩, -, h⟩ := except_bind_eq_ok.1 h
  refine except_bind_eq_ok.2 ⟨(), hfits.valid, ?_⟩
  cases layout with
  | simpleSparse | simpleDense => exact h
  | compoundDense types => simpa [withClusteringType] using h
  | compoundSparse types cs =>
    simp only [withClusteringType, List.length_set]
    exact h

/-- Of what names are compared by, only the clustering values follow another type. -/
theorem logicalOrder_withClusteringType (a b : CellName) :
    (layout.withClusteringType position type).logicalOrder a b =
      lexicographic [
        compare b.isStatic a.isStatic,
        orderValues (layout.withClusteringType position type).clusteringTypes a.clustering
          b.clustering,
        noneFirst layout.columnOrder (a.column.map Text.Utf8.encode)
          (b.column.map Text.Utf8.encode),
        noneFirst (layout.elementType a).order a.element b.element] := by
  cases layout <;> rfl

theorem withClusteringType_rowName (position : Nat) (type : ColumnType) (layout : CellLayout) :
    (layout.withClusteringType position type).rowName = layout.rowName := by
  cases layout <;> rfl

theorem withClusteringType_carried (position : Nat) (type : ColumnType) (layout : CellLayout) :
    (layout.withClusteringType position type).carried = layout.carried := by
  cases layout <;> rfl

/-- **Packed names are ordered alike under another type** that orders their values alike. -/
theorem order_withClusteringType {m n : CellName} {a b : Bytes} (hm : layout.encode m = .ok a)
    (hn : layout.encode n = .ok b)
    (hfits : FitTypes (layout.withClusteringType position type).clusteringTypes m.clustering)
    (hfits' : FitTypes (layout.withClusteringType position type).clusteringTypes n.clustering)
    (hvalues : orderValues (layout.withClusteringType position type).clusteringTypes m.clustering
      n.clustering = orderValues layout.clusteringTypes m.clustering n.clustering) :
    (layout.withClusteringType position type).order a b = layout.order a b := by
  rw [order_eq_logicalOrder (encode_withClusteringType hm hfits)
    (encode_withClusteringType hn hfits'), order_eq_logicalOrder hm hn,
    logicalOrder_withClusteringType, withClusteringType_carried, carried_clustering,
    carried_clustering, hvalues]
  unfold logicalOrder
  rw [carried_clustering, carried_clustering]

/-- Rows are ordered by their values. -/
theorem order_rowName {as bs : List Bytes} {a b : Bytes}
    (ha : layout.encode (layout.rowName as) = .ok a)
    (hb : layout.encode (layout.rowName bs) = .ok b) :
    layout.order a b = orderValues layout.clusteringTypes as bs := by
  have hcarried (values : List Bytes) :
      layout.carried (layout.rowName values) = layout.rowName values := carried_eq_self rfl
  -- Both names have the same column, none or the one without letters.
  have hcolumn : noneFirst layout.columnOrder
      ((layout.rowName as).column.map Text.Utf8.encode)
      ((layout.rowName bs).column.map Text.Utf8.encode) = .eq := by
    cases layout with
    | simpleSparse t => exact t.order_nil_nil
    | simpleDense | compoundDense | compoundSparse => rfl
  rw [order_eq_logicalOrder ha hb, hcarried, hcarried]
  unfold logicalOrder
  rw [hcolumn]
  show lexicographic [.eq, orderValues layout.clusteringTypes as bs, .eq, .eq] = _
  simp

end CellLayout

/-! ### Tables -/

namespace TableSchema

variable {s s' : TableSchema} {name : String} {c : Column} {type : ColumnType}

theorem base_storedType (c : Column) (type : ColumnType) :
    (storedType c type).base = type.base := by
  unfold storedType
  split
  · exact ColumnType.base_descend type
  · rfl

theorem keepsOrderOf_of_checkRetype (hrole : c.role = .clusteringKey)
    (h : s.checkRetype c type = .ok ()) : type.keepsOrderOf c.type.base = true := by
  obtain ⟨-, h⟩ := ite_error_eq_ok.1 h
  obtain ⟨-, h⟩ := ite_error_eq_ok.1 h
  simp only [if_pos hrole] at h
  by_contra hnot
  rw [if_neg hnot] at h
  cases h

/-- **The new type of a clustering column orders its values as the old one did**, or the other way
round. -/
theorem order_storedType (hrole : c.role = .clusteringKey) (h : s.checkRetype c type = .ok ())
    {a b : Bytes} (ha : c.type.validate a = .ok ()) (hb : c.type.validate b = .ok ()) :
    (storedType c type).order a b =
      if (storedType c type).isTurned = c.type.isTurned then c.type.order a b
      else c.type.order b a := by
  have hbase {x y : Bytes} (hx : c.type.validate x = .ok ()) (hy : c.type.validate y = .ok ()) :
      type.base.order x y = c.type.base.order x y := by
    have hagree := ColumnType.order_base_of_keepsOrderOf (keepsOrderOf_of_checkRetype hrole h)
      ((ColumnType.validate_base _ _).2 hx) ((ColumnType.validate_base _ _).2 hy)
    rwa [ColumnType.base_base] at hagree
  rw [ColumnType.order_eq_of_isTurned (storedType c type), base_storedType,
    ColumnType.order_eq_of_isTurned c.type, ColumnType.order_eq_of_isTurned c.type, hbase ha hb,
    hbase hb ha]
  cases (storedType c type).isTurned <;> cases c.type.isTurned <;> rfl

/-- The layout of cell names follows a clustering column. -/
theorem retyped_layout (hc : c ∈ s.columns) (hrole : c.role = .clusteringKey)
    (type : ColumnType) :
    ∃ position, (s.retyped c type).cellLayout =
      s.cellLayout.withClusteringType position (storedType c type) := by
  have hmem := mem_clusteringColumns.2 ⟨hc, hrole⟩
  cases hposition : s.clusteringColumns.findIdx? (·.name = c.name) with
  | none => simpa using List.findIdx?_eq_none_iff.1 hposition c hmem
  | some position =>
    refine ⟨position, ?_⟩
    unfold retyped storedType
    simp [hrole, hposition]

/-- The clustering values of a packed name are valid under another type. -/
theorem Consistent.fitTypes_retyped (hs : s.Consistent) (hc : c ∈ s.columns)
    (hcheck : s.checkRetype c type = .ok ()) {name : CellName} {packed : Bytes}
    (h : s.cellLayout.encode name = .ok packed) :
    FitTypes (s.retyped c type).cellLayout.clusteringTypes name.clustering := by
  have hfits := CellLayout.fitTypes_of_encode h
  rw [hs.clustering] at hfits
  rw [hs.retyped_clusteringTypes hc type, List.map_map]
  exact hfits.widen fun other hother =>
    hs.widensTo_retype hc hcheck (mem_clusteringColumns.1 hother).1

/-- Rows are packed alike under another type. -/
theorem Consistent.encode_rowName_retyped (hs : s.Consistent) (hc : c ∈ s.columns)
    (hrole : c.role = .clusteringKey) (hcheck : s.checkRetype c type = .ok ())
    {values : List Bytes} {packed : Bytes}
    (h : s.cellLayout.encode (s.cellLayout.rowName values) = .ok packed) :
    (s.retyped c type).cellLayout.encode ((s.retyped c type).cellLayout.rowName values) =
      .ok packed := by
  have hfits := hs.fitTypes_retyped hc hcheck h
  obtain ⟨position, hlayout⟩ := retyped_layout hc hrole type
  rw [hlayout] at hfits ⊢
  rw [CellLayout.withClusteringType_rowName]
  exact CellLayout.encode_withClusteringType h hfits

/-- **Names that were packed under a table are ordered alike** under another type for a clustering
column that orders the values of the column alike. -/
theorem Consistent.order_retyped (hs : s.Consistent) (hc : c ∈ s.columns)
    (hrole : c.role = .clusteringKey) (hcheck : s.checkRetype c type = .ok ())
    (hvalues : ∀ x y, c.type.validate x = .ok () → c.type.validate y = .ok () →
      (storedType c type).order x y = c.type.order x y)
    {m n : CellName} {a b : Bytes} (hm : s.cellLayout.encode m = .ok a)
    (hn : s.cellLayout.encode n = .ok b) :
    (s.retyped c type).cellLayout.order a b = s.cellLayout.order a b := by
  have hagree : ∀ other ∈ s.clusteringColumns, ∀ x y, other.type.validate x = .ok () →
      other.type.validate y = .ok () →
        (other.retype c.name (storedType c type)).type.order x y = other.type.order x y := by
    intro other hother x y hx hy
    rw [Column.retype_type]
    split
    · rename_i hname
      obtain rfl := hs.eq_of_name (mem_clusteringColumns.1 hother).1 hc hname
      exact hvalues x y hx hy
    · rfl
  have hrows : orderValues (s.retyped c type).cellLayout.clusteringTypes m.clustering n.clustering =
      orderValues s.cellLayout.clusteringTypes m.clustering n.clustering := by
    have hfits := CellLayout.fitTypes_of_encode hm
    have hfits' := CellLayout.fitTypes_of_encode hn
    rw [hs.clustering] at hfits hfits'
    rw [hs.retyped_clusteringTypes hc type, List.map_map, hs.clustering]
    exact orderValues_congr hagree hfits hfits'
  have hfits := hs.fitTypes_retyped hc hcheck hm
  have hfits' := hs.fitTypes_retyped hc hcheck hn
  obtain ⟨position, hlayout⟩ := retyped_layout hc hrole type
  rw [hlayout] at hfits hfits' hrows ⊢
  exact CellLayout.order_withClusteringType hm hn hfits hfits' hrows

/-! ### Rows that differ in one column -/

/-- The clustering values of a row that are empty but for one column. -/
def rowWith (s : TableSchema) (c : Column) (value : Bytes) : List Bytes :=
  s.clusteringColumns.map fun other => if other = c then value else []

theorem fitTypes_rowWith {value : Bytes} (hvalid : c.type.validate value = .ok ()) :
    FitTypes (s.clusteringColumns.map (·.type)) (s.rowWith c value) := by
  refine ⟨by simp [rowWith], validateAll_map fun other _ => ?_⟩
  split
  · rename_i hsame
    exact hsame ▸ hvalid
  · exact other.type.validate_nil

theorem orderValues_rowWith (hc : c ∈ s.clusteringColumns) (f : Column → ColumnType)
    (x y : Bytes) :
    orderValues (s.clusteringColumns.map f) (s.rowWith c x) (s.rowWith c y) =
      (f c).order x y := by
  unfold rowWith
  rw [orderValues_of_single hc fun other _ hne => ?_, if_pos rfl, if_pos rfl]
  rw [if_neg hne, if_neg hne]
  exact (f other).order_nil_nil

theorem Consistent.encode_rowWith_exists (hs : s.Consistent) {value : Bytes}
    (hvalid : c.type.validate value = .ok ()) (hshort : value.length ≤ Composite.maxComponentSize) :
    ∃ packed, s.cellLayout.encode (s.cellLayout.rowName (s.rowWith c value)) = .ok packed := by
  refine CellLayout.encode_rowName_exists ⟨by simp [rowWith, hs.clustering], ?_, ?_⟩
  · rw [hs.clustering]
    exact (fitTypes_rowWith hvalid).valid
  · refine List.forall_mem_map.2 fun other _ => ?_
    split
    · exact hshort
    · exact Nat.zero_le _

/-- **If all packed names are ordered alike, the direction of the column stays**: it tells whether
the row with empty values comes before another one. -/
theorem Consistent.isTurned_of_order_retyped (hs : s.Consistent) (hc : c ∈ s.columns)
    (hrole : c.role = .clusteringKey) (hcheck : s.checkRetype c type = .ok ())
    (horder : ∀ m n a b, s.cellLayout.encode m = .ok a → s.cellLayout.encode n = .ok b →
      (s.retyped c type).cellLayout.order a b = s.cellLayout.order a b) :
    (storedType c type).isTurned = c.type.isTurned := by
  have hmem := mem_clusteringColumns.2 ⟨hc, hrole⟩
  obtain ⟨value, hvalid, hne, hshort⟩ := c.type.exists_short_value
  obtain ⟨a, ha⟩ := hs.encode_rowWith_exists (c := c) c.type.validate_nil (Nat.zero_le _)
  obtain ⟨b, hb⟩ := hs.encode_rowWith_exists hvalid hshort
  have hold : s.cellLayout.order a b = c.type.order [] value := by
    rw [CellLayout.order_rowName ha hb, hs.clustering, orderValues_rowWith hmem]
  have hnew : (s.retyped c type).cellLayout.order a b = (storedType c type).order [] value := by
    rw [CellLayout.order_rowName (hs.encode_rowName_retyped hc hrole hcheck ha)
      (hs.encode_rowName_retyped hc hrole hcheck hb), hs.retyped_clusteringTypes hc type,
      List.map_map, orderValues_rowWith hmem, Function.comp_apply, Column.retype_type, if_pos rfl]
  have hsame := horder _ _ _ _ ha hb
  rw [hold, hnew] at hsame
  exact ColumnType.isTurned_eq_of_order_nil hne hsame

/-- **The values of the column are ordered alike if and only if its direction stays.** -/
theorem order_storedType_iff (hrole : c.role = .clusteringKey)
    (h : s.checkRetype c type = .ok ()) :
    (∀ x y, c.type.validate x = .ok () → c.type.validate y = .ok () →
      (storedType c type).order x y = c.type.order x y) ↔
        (storedType c type).isTurned = c.type.isTurned := by
  constructor
  · intro horder
    obtain ⟨value, hvalid, hne, -⟩ := c.type.exists_short_value
    exact ColumnType.isTurned_eq_of_order_nil hne (horder [] value c.type.validate_nil hvalid)
  · intro hturned x y hx hy
    rw [order_storedType hrole h hx hy, if_pos hturned]

/-- A column in descending order keeps its direction, and one in ascending order does so if the new
type has no mark. -/
theorem isTurned_storedType_iff (hrole : c.role = .clusteringKey)
    (hc : c.type.hasSingleMarks = true) (htype : type.hasSingleMarks = true) :
    (storedType c type).isTurned = c.type.isTurned ↔
      c.type.isDescending = true ∨ type.isDescending = false := by
  have hstored : (storedType c type).hasSingleMarks = true := by
    unfold storedType
    split
    · exact (ColumnType.hasSingleMarks_descend type).trans htype
    · exact htype
  rw [ColumnType.isTurned_eq_isDescending hstored, ColumnType.isTurned_eq_isDescending hc]
  unfold storedType
  cases hdescending : c.type.isDescending with
  | true => simp [hrole]
  | false => simp

/-- The column after it was given another type. -/
theorem column?_retypeColumn (hs : s.Consistent) (hfound : s.column? name = some c)
    (hretype : s.retypeColumn name type = .ok s') :
    s'.column? name = some { c with type := storedType c type } := by
  have hs' := hs.retypeColumn hretype
  obtain ⟨found, hfound', -, rfl⟩ := retypeColumn_checked hretype
  obtain rfl := Option.some.inj (hfound.symm.trans hfound')
  obtain ⟨hmem, rfl⟩ := mem_of_column? hfound
  refine hs'.column?_eq_some_iff.2 ⟨?_, rfl⟩
  rw [retyped_columns hs.names]
  exact List.mem_map.2 ⟨c, hmem, if_pos rfl⟩

end TableSchema

/-! ### Histories -/

namespace TableDefinition

/-- **A clustering column keeps the rows in order under another type if and only if its direction
stays**, whatever changes the table went through before: so do all names that were packed before,
and so do all values of the column.  Else the values are turned round.  Of types without double
marks, the direction stays in a column in descending order, and under a type without a mark. -/
theorem retyped_order_kept_iff {d : TableDefinition} {s₀ s s' : TableSchema}
    {changes : List SchemaChange} {name : String} {c : Column} {type : ColumnType}
    (hcompile : d.compile = .ok s₀) (hchanges : s₀.changeAll changes = .ok s)
    (hfound : s.column? name = some c) (hrole : c.role = .clusteringKey)
    (hretype : s.retypeColumn name type = .ok s') :
    ∃ c', s'.column? name = some c' ∧
      ((∀ m n a b, s.cellLayout.encode m = .ok a → s.cellLayout.encode n = .ok b →
        s'.cellLayout.order a b = s.cellLayout.order a b) ↔
          c'.type.isTurned = c.type.isTurned) ∧
      ((∀ x y, c.type.validate x = .ok () → c.type.validate y = .ok () →
        c'.type.order x y = c.type.order x y) ↔ c'.type.isTurned = c.type.isTurned) ∧
      (c'.type.isTurned ≠ c.type.isTurned →
        ∀ x y, c.type.validate x = .ok () → c.type.validate y = .ok () →
          c'.type.order x y = c.type.order y x) ∧
      (c.type.hasSingleMarks = true → type.hasSingleMarks = true →
        (c'.type.isTurned = c.type.isTurned ↔
          c.type.isDescending = true ∨ type.isDescending = false)) := by
  have hs := (consistent_of_compile hcompile).changeAll hchanges
  refine ⟨_, TableSchema.column?_retypeColumn hs hfound hretype, ?_⟩
  obtain ⟨found, hfound', hcheck, rfl⟩ := TableSchema.retypeColumn_checked hretype
  obtain rfl := Option.some.inj (hfound.symm.trans hfound')
  obtain ⟨hc, rfl⟩ := TableSchema.mem_of_column? hfound
  have hvalues := TableSchema.order_storedType_iff hrole hcheck
  refine ⟨⟨fun horder => hs.isTurned_of_order_retyped hc hrole hcheck horder, fun hturned => ?_⟩,
    hvalues, fun hturned x y hx hy => ?_, TableSchema.isTurned_storedType_iff hrole⟩
  · exact fun m n a b hm hn => hs.order_retyped hc hrole hcheck (hvalues.2 hturned) hm hn
  · rw [TableSchema.order_storedType hrole hcheck hx hy, if_neg hturned]

/-- The days of berths stand in descending order, and stay so as numbers of any length. -/
theorem retyped_order_kept_berths :
    ∃ s₀ s s' c', berthsDefinition.compile = .ok s₀ ∧
      s₀.changeAll (berthsChanges.take 3) = .ok s ∧
      s.retypeColumn "day" (.scalar .varint) = .ok s' ∧ s'.column? "day" = some c' ∧
      c'.type.isTurned = true ∧
      (∀ m n a b, s.cellLayout.encode m = .ok a → s.cellLayout.encode n = .ok b →
        s'.cellLayout.order a b = s.cellLayout.order a b) ∧
      c'.type.order [0, 0, 0, 8] [0, 0, 0, 9] = .gt := by
  obtain ⟨c', hc', hnames, hvalues, -, hmarks⟩ := retyped_order_kept_iff
    (show berthsDefinition.compile = .ok _ from rfl)
    (show TableSchema.changeAll _ (berthsChanges.take 3) = .ok _ from rfl)
    (show TableSchema.column? _ "day" = some _ from rfl) rfl
    (show TableSchema.retypeColumn _ "day" (.scalar .varint) = .ok _ from rfl)
  have hturned := (hmarks rfl rfl).2 (.inl rfl)
  refine ⟨_, _, _, c', rfl, rfl, rfl, hc', hturned, hnames.2 hturned, ?_⟩
  exact (hvalues.2 hturned [0, 0, 0, 8] [0, 0, 0, 9] rfl rfl).trans (by decide)

/-- The levels of rivers, hour by hour. -/
def hoursDefinition : TableDefinition where
  keyspace := "rivers"
  name := "readings"
  columns := [⟨"river", .text, false⟩, ⟨"hour", .scalar .int, false⟩, ⟨"level", .text, false⟩]
  partitionKeys := [["river"]]
  clusteringColumns := ["hour"]

/-- **Rows in ascending order are turned round** by a type with a mark: hour 7 stood before hour 8,
and stands behind it then. -/
theorem ascending_rows_turned :
    ∃ s s' a b, hoursDefinition.compile = .ok s ∧
      s.retypeColumn "hour" (.descending (.scalar .int)) = .ok s' ∧
      s.cellLayout.encode ⟨[[0, 0, 0, 7]], some "level", none, false⟩ = .ok a ∧
      s.cellLayout.encode ⟨[[0, 0, 0, 8]], some "level", none, false⟩ = .ok b ∧
      s.cellLayout.order a b = .lt ∧ s'.cellLayout.order a b = .gt := by
  have ha : (CellLayout.compoundSparse [.scalar .int] none).encode
      ⟨[[0, 0, 0, 7]], some "level", none, false⟩ = .ok _ := rfl
  have hb : (CellLayout.compoundSparse [.scalar .int] none).encode
      ⟨[[0, 0, 0, 8]], some "level", none, false⟩ = .ok _ := rfl
  have ha' : (CellLayout.compoundSparse [.descending (.scalar .int)] none).encode
      ⟨[[0, 0, 0, 7]], some "level", none, false⟩ = .ok _ := rfl
  have hb' : (CellLayout.compoundSparse [.descending (.scalar .int)] none).encode
      ⟨[[0, 0, 0, 8]], some "level", none, false⟩ = .ok _ := rfl
  exact ⟨_, _, _, _, rfl, rfl, ha, hb, (CellLayout.order_eq_logicalOrder ha hb).trans (by decide),
    (CellLayout.order_eq_logicalOrder ha' hb').trans (by decide)⟩

end TableDefinition

end WideColumn
