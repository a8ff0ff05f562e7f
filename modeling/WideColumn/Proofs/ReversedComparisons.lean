import WideColumn.Proofs.NameOrder

/-!
# Comparisons the other way round

Values that are no values of their type, and bytes that are no cell name, are compared as well, in
one way or another.  The comparison may fail to be transitive, but two byte strings are never told
apart in one direction only: the comparison of the second with the first is that of the first with
the second, the other way round.

* `ColumnType.order_swap` — so it is for all bytes and each type;
* `Composite.order_swap` — for composites;
* `CellLayout.order_swap` — **for the names of cells**.
-/

namespace WideColumn

/-! ### Values -/

namespace Value

theorem bytesOrder_swap (a b : Bytes) : Bytes.order b a = (Bytes.order a b).swap :=
  bytes_preorder.swap a b (p := fun _ => True) trivial trivial

theorem orderByKey_swap (width : Nat) (key : Bytes → Int) (a b : Bytes) :
    orderByKey width key b a = (orderByKey width key a b).swap := by
  unfold orderByKey
  by_cases h : a.length = width ∧ b.length = width
  · rw [if_pos h, if_pos h.symm]
    exact Std.OrientedOrd.eq_swap
  · rw [if_neg h, if_neg fun h' => h h'.symm]
    exact bytesOrder_swap a b

theorem orderTimeUuid_swap (a b : Bytes) : orderTimeUuid b a = (orderTimeUuid a b).swap := by
  unfold orderTimeUuid
  by_cases h : a.length = 16 ∧ b.length = 16
  · rw [if_pos h, if_pos h.symm, Ordering.swap_then, ← bytesOrder_swap,
      Std.OrientedOrd.eq_swap (a := uuidTime b)]
  · rw [if_neg h, if_neg fun h' => h h'.symm]
    exact bytesOrder_swap a b

theorem orderDecimal_swap (a b : Bytes) : orderDecimal b a = (orderDecimal a b).swap := by
  unfold orderDecimal
  cases scaledInt? a with
  | none => cases scaledInt? b <;> exact bytesOrder_swap a b
  | some x =>
    cases scaledInt? b with
    | none => exact bytesOrder_swap a b
    | some y =>
      simp only [max_comm y.scale x.scale]
      cases x.rescale? (max x.scale y.scale) with
      | none => cases y.rescale? (max x.scale y.scale) <;> exact bytesOrder_swap a b
      | some m =>
        cases y.rescale? (max x.scale y.scale) with
        | none => exact bytesOrder_swap a b
        | some n => exact Std.OrientedOrd.eq_swap

end Value

open Value

theorem ScalarType.order_swap (s : ScalarType) {a b : Bytes} (ha : a ≠ []) (hb : b ≠ []) :
    s.order b a = (s.order a b).swap := by
  cases s with
  | decimal => exact orderDecimal_swap a b
  | int | bigint | counter | timestamp | double | float => exact orderByKey_swap _ _ a b
  | varint => exact orderVarint_preorder.swap a b ha hb
  | timeuuid => exact orderTimeUuid_swap a b
  | ascii | text | blob | boolean | inet | uuid => exact bytesOrder_swap a b

/-- Values are compared alike in both directions, valid or not. -/
theorem ColumnType.order_swap (t : ColumnType) (a b : Bytes) :
    t.order b a = (t.order a b).swap := by
  induction t generalizing a b with
  | descending t ih => exact ih b a
  | scalar s =>
    cases a with
    | nil => cases b <;> rfl
    | cons x a =>
      cases b with
      | nil => rfl
      | cons y b => exact s.order_swap (List.cons_ne_nil x a) (List.cons_ne_nil y b)
  | list | set | map => exact bytesOrder_swap a b

/-! ### Composites -/

namespace Composite

theorem staticFirst_swap (a b : Bool) (o : Ordering) :
    staticFirst b a o.swap = (staticFirst a b o).swap := by
  cases a <;> cases b <;> rfl

theorem orderComponents_swap (types : List ColumnType) (a b : List Bytes) :
    orderComponents types b a = (orderComponents types a b).swap := by
  fun_induction orderComponents types a b with
  | case1 => simp [orderComponents]
  | case2 => simp [orderComponents]
  | case3 => simp [orderComponents]
  | case4 a as b bs ih =>
    simp only [orderComponents]
    rw [Ordering.swap_then, ← ih, ← bytesOrder_swap]
  | case5 t ts a as b bs ih =>
    simp only [orderComponents]
    rw [Ordering.swap_then, ← ih, ← t.order_swap]

theorem order_swap (types : List ColumnType) (a b : Bytes) :
    order types b a = (order types a b).swap := by
  unfold order
  cases decode a with
  | error e => cases decode b <;> exact bytesOrder_swap a b
  | ok x =>
    cases decode b with
    | error e => exact bytesOrder_swap a b
    | ok y =>
      simp only [orderComponents_swap types x.components y.components]
      exact staticFirst_swap _ _ _

end Composite

/-! ### Cell names -/

namespace CellLayout

theorem orderClustering_swap (types : List ColumnType) (a b : List Bytes) :
    orderClustering types b a = (orderClustering types a b).swap := by
  induction types generalizing a b with
  | nil => rfl
  | cons t ts ih =>
    cases a with
    | nil => cases b <;> rfl
    | cons a as =>
      cases b with
      | nil => rfl
      | cons b bs =>
        show (t.order b a).then (orderClustering ts bs as) =
          ((t.order a b).then (orderClustering ts as bs)).swap
        rw [Ordering.swap_then, ← ih, ← t.order_swap]

/-- Elements are compared by the type of the column, which is the same where it matters. -/
theorem orderParts_swap (layout : CellLayout) (a b : CellName) :
    layout.orderParts b a = (layout.orderParts a b).swap := by
  have hcolumn : orderColumn b.column a.column = (orderColumn a.column b.column).swap := by
    cases a.column with
    | none => cases b.column <;> rfl
    | some a =>
      cases b.column with
      | none => rfl
      | some b => exact Std.OrientedOrd.eq_swap
  have helement (t : ColumnType) :
      orderElement t b.element a.element = (orderElement t a.element b.element).swap := by
    cases a.element with
    | none => cases b.element <;> rfl
    | some a =>
      cases b.element with
      | none => rfl
      | some b => exact t.order_swap a b
  unfold orderParts
  rw [← Composite.staticFirst_swap, Ordering.swap_then, ← orderClustering_swap, Ordering.swap_then,
    ← hcolumn]
  cases hsame : orderColumn b.column a.column with
  | lt | gt => rfl
  | eq =>
    have hcolumns : a.column = b.column := by
      rw [orderColumn_eq_noneFirst] at hsame
      exact (column_eq_of_noneFirst (show (compoundDense []).columnType? = none from rfl)
        hsame).symm
    rw [hcolumns]
    simp only [helement]

/-- **Names are compared alike in both directions**, whatever their bytes. -/
theorem order_swap (layout : CellLayout) (a b : Bytes) :
    layout.order b a = (layout.order a b).swap := by
  cases layout with
  | simpleSparse t | simpleDense t => exact t.order_swap a b
  | compoundDense types => exact Composite.order_swap types a b
  | compoundSparse types cs =>
    unfold order
    cases (compoundSparse types cs).decode a with
    | error e => cases (compoundSparse types cs).decode b <;> exact bytesOrder_swap a b
    | ok x =>
      cases (compoundSparse types cs).decode b with
      | error e => exact bytesOrder_swap a b
      | ok y => exact orderParts_swap _ x y

end CellLayout

end WideColumn
