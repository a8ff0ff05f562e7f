import WideColumn.KeyLayout
import WideColumn.Proofs.Effects
import WideColumn.Proofs.Integers
import WideColumn.Proofs.Preorders

/-!
# The order of values is a preorder

Of the values of a type, the empty one aside, each has a place: an integer, a bit pattern's place in
the total order of its format, a time and then its bytes, or its bytes alone.  Only decimals have
none, and values of the wrong width for their type.

* `ScalarType.order_preorder`, `ColumnType.order_preorder` — **the valid values of every type but
  decimals are preordered**, in either direction;
* `orderValues` — lists of values, position by position; `orderValues_preorder` — they are
  preordered as well, lists of different lengths included.
-/

namespace WideColumn

open Effects

/-! ### Validity -/

namespace ColumnType

theorem validateWidth_eq_ok_iff {t : ColumnType} {width : Nat} {bytes : Bytes} :
    t.validateWidth width bytes = .ok () ↔ bytes = [] ∨ bytes.length = width := by
  unfold validateWidth
  split
  · exact ⟨fun _ => ‹_›, fun _ => rfl⟩
  · exact ⟨nofun, fun h => absurd h ‹_›⟩

/-- The direction does not matter for validity. -/
theorem validate_descending (t : ColumnType) (bytes : Bytes) :
    (descending t).validate bytes = .ok () ↔ t.validate bytes = .ok () := by
  unfold validate
  rw [show (descending t).base = t.base from rfl]
  split
  · rename_i s _
    cases s with
    | timeuuid =>
      constructor <;> intro h <;> obtain ⟨⟨⟩, hwidth, h⟩ := except_bind_eq_ok.1 h
      · exact except_bind_eq_ok.2
          ⟨(), validateWidth_eq_ok_iff.2 (validateWidth_eq_ok_iff.1 hwidth), h⟩
      · exact except_bind_eq_ok.2
          ⟨(), validateWidth_eq_ok_iff.2 (validateWidth_eq_ok_iff.1 hwidth), h⟩
    | _ => simp only [validateWidth_eq_ok_iff]
  · exact Iff.rfl

/-- Every text is a value of the type of texts. -/
theorem validate_text (s : String) : ColumnType.text.validate (Text.Utf8.encode s) = .ok () := by
  show (if (Text.Utf8.decode? _).isSome = true then Except.ok () else _) = _
  rw [Text.Utf8.decode?_eq_some_iff.2 rfl]
  rfl

end ColumnType

/-! ### Scalars -/

namespace Value

theorem emptyFirst_eq_noneFirst (a b : Bytes) (cmp : Bytes → Bytes → Ordering) :
    emptyFirst a b (cmp a b) =
      noneFirst cmp (if a = [] then none else some a) (if b = [] then none else some b) := by
  cases a <;> cases b <;> rfl

theorem emptyFirst_preorder {p : Bytes → Prop} {cmp : Bytes → Bytes → Ordering}
    (h : PreorderOn (fun a => p a ∧ a ≠ []) cmp) :
    PreorderOn p fun a b => emptyFirst a b (cmp a b) := by
  refine (h.noneFirst.comap (fun a => if a = [] then none else some a) fun a ha b hb => ?_).congr
    fun a b _ _ => emptyFirst_eq_noneFirst a b cmp
  split at hb
  · cases hb
  · rename_i hne
    cases hb
    exact ⟨ha, hne⟩

theorem bytes_preorder {p : Bytes → Prop} : PreorderOn p Bytes.order :=
  .of_key id fun _ _ _ _ => rfl

theorem orderByKey_preorder (width : Nat) (key : Bytes → Int) :
    PreorderOn (fun a => a.length = width) (orderByKey width key) :=
  .of_key key fun _ _ ha hb => if_pos ⟨ha, hb⟩

theorem orderTimeUuid_preorder : PreorderOn (fun a => a.length = 16) orderTimeUuid := by
  have htime : PreorderOn (fun a : Bytes => a.length = 16)
      fun a b => compare (uuidTime a) (uuidTime b) := .of_key uuidTime fun _ _ _ _ => rfl
  exact (htime.andThen_of_forall bytes_preorder).congr fun _ _ ha hb => if_pos ⟨ha, hb⟩

theorem orderVarint_preorder : PreorderOn (fun a => a ≠ []) orderVarint :=
  .of_key Bytes.signed fun _ _ => orderVarint_eq_compare_signed

end Value

open Value

/-- **The values of a scalar type are preordered**, unless they are decimals. -/
theorem ScalarType.order_preorder {s : ScalarType} (h : s ≠ .decimal) :
    PreorderOn (fun a => (ColumnType.scalar s).validate a = .ok () ∧ a ≠ []) s.order := by
  have hwidth {width : Nat} {a : Bytes}
      (ha : (ColumnType.scalar s).validateWidth width a = .ok () ∧ a ≠ []) : a.length = width :=
    (ColumnType.validateWidth_eq_ok_iff.1 ha.1).resolve_left ha.2
  cases s with
  | decimal => exact absurd rfl h
  | int | bigint | counter | timestamp | double | float =>
    exact (orderByKey_preorder _ _).mono fun _ => hwidth
  | varint => exact orderVarint_preorder.mono fun _ => And.right
  | timeuuid =>
    refine orderTimeUuid_preorder.mono fun a ha => ?_
    obtain ⟨⟨⟩, hvalid, -⟩ := except_bind_eq_ok.1 ha.1
    exact hwidth ⟨hvalid, ha.2⟩
  | ascii | text | blob | boolean | inet | uuid => exact bytes_preorder

/-! ### Types -/

/-- **The values of a type are preordered**, unless they are decimals. -/
theorem ColumnType.order_preorder {t : ColumnType} (h : t.base ≠ scalar .decimal) :
    PreorderOn (fun a => t.validate a = .ok ()) t.order := by
  induction t with
  | descending t ih =>
    exact (ih h).flip.mono fun a => (validate_descending t a).1
  | scalar s =>
    have hs : s ≠ .decimal := fun hs => h (congrArg scalar hs)
    exact emptyFirst_preorder (ScalarType.order_preorder hs)
  | list | set | map => exact bytes_preorder

/-- Texts are ordered byte by byte. -/
theorem ColumnType.text_order (a b : Bytes) : ColumnType.text.order a b = Bytes.order a b := by
  show emptyFirst a b (Bytes.order a b) = _
  cases a <;> cases b <;> rfl

/-! ### Lists of values -/

/-- Compares lists of values: the first position where they differ decides, by its type, and where
there is none the shorter list sorts first. -/
def orderValues (types : List ColumnType) (a b : List Bytes) : Ordering :=
  (lexicographic (List.zipWith3 ColumnType.order types a b)).then (compare a.length b.length)

/-- The values are no more than the types, and each is valid for the type at its position. -/
structure FitTypes (types : List ColumnType) (values : List Bytes) : Prop where
  length : values.length ≤ types.length
  valid : KeyLayout.validateAll types values = .ok ()

@[simp] theorem orderValues_nil (types : List ColumnType) : orderValues types [] [] = .eq := by
  cases types <;> rfl

theorem orderValues_cons (t : ColumnType) (types : List ColumnType) (a b : Bytes)
    (as bs : List Bytes) :
    orderValues (t :: types) (a :: as) (b :: bs) =
      (t.order a b).then (orderValues types as bs) := by
  have hlength : compare (a :: as).length (b :: bs).length = compare as.length bs.length := by
    show compareOfLessAndEq _ _ = compareOfLessAndEq _ _
    simp [compareOfLessAndEq]
  unfold orderValues
  rw [hlength, show List.zipWith3 ColumnType.order (t :: types) (a :: as) (b :: bs) =
    t.order a b :: List.zipWith3 ColumnType.order types as bs from rfl, lexicographic_cons,
    Ordering.then_assoc]

theorem orderValues_of_length_eq (types : List ColumnType) {a b : List Bytes}
    (h : a.length = b.length) :
    orderValues types a b = lexicographic (List.zipWith3 ColumnType.order types a b) := by
  rw [orderValues, h, Std.ReflOrd.compare_self, Ordering.then_eq]

theorem FitTypes.tail {t : ColumnType} {types : List ColumnType} {a : Bytes} {as : List Bytes}
    (h : FitTypes (t :: types) (a :: as)) : t.validate a = .ok () ∧ FitTypes types as := by
  obtain ⟨⟨⟩, ha, has⟩ := except_bind_eq_ok.1 h.valid
  exact ⟨ha, Nat.le_of_succ_le_succ h.length, has⟩

/-- The first value of a list and the others. -/
def firstAndRest : List Bytes → Option (Bytes × List Bytes)
  | [] => none
  | a :: as => some (a, as)

/-- **Lists of values are preordered**, unless decimals are among them. -/
theorem orderValues_preorder {types : List ColumnType}
    (h : ∀ t ∈ types, t.base ≠ .scalar .decimal) :
    PreorderOn (FitTypes types) (orderValues types) := by
  induction types with
  | nil =>
    refine .of_key (fun _ => ()) fun a b ha hb => ?_
    rw [List.length_eq_zero_iff.1 (Nat.le_zero.1 ha.length),
      List.length_eq_zero_iff.1 (Nat.le_zero.1 hb.length)]
    rfl
  | cons t types ih =>
    obtain ⟨ht, htypes⟩ := List.forall_mem_cons.1 h
    have hfirst := (t.order_preorder ht).comap (q := fun l : Bytes × List Bytes =>
      t.validate l.1 = .ok () ∧ FitTypes types l.2) Prod.fst fun _ => And.left
    have hrest := (ih htypes).comap (q := fun l : Bytes × List Bytes =>
      t.validate l.1 = .ok () ∧ FitTypes types l.2) Prod.snd fun _ => And.right
    refine ((hfirst.andThen_of_forall hrest).noneFirst.comap firstAndRest fun a ha l hl => ?_).congr
      fun a b _ _ => ?_
    · cases a with
      | nil => cases hl
      | cons a as =>
        cases hl
        exact ha.tail
    · cases a with
      | nil => cases b <;> rfl
      | cons a as =>
        cases b with
        | nil => rfl
        | cons b bs => exact orderValues_cons t types a b as bs

/-- Components within the types are compared as values. -/
theorem Composite.orderComponents_eq_orderValues {types : List ColumnType} {a b : List Bytes}
    (ha : a.length ≤ types.length) (hb : b.length ≤ types.length) :
    orderComponents types a b = orderValues types a b := by
  induction types generalizing a b with
  | nil =>
    rw [List.length_eq_zero_iff.1 (Nat.le_zero.1 ha), List.length_eq_zero_iff.1 (Nat.le_zero.1 hb)]
    rfl
  | cons t types ih =>
    cases a with
    | nil => cases b <;> rfl
    | cons a as =>
      cases b with
      | nil => rfl
      | cons b bs =>
        rw [orderValues_cons, ← ih (Nat.le_of_succ_le_succ ha) (Nat.le_of_succ_le_succ hb)]
        rfl

end WideColumn
