/-!
# Sorting by insertion

Sorting by a comparison that need not be transitive.  The items are taken in turn.  Each one
moves forward from the end of the sorted list past every item that it precedes and stops behind
the first one that it does not, which settles the result for every comparison.

* `sortBy_perm`: nothing is lost or added;
* `sortBy_pairwise`: a comparison that is total and transitive gives a sorted list;
* `sortBy_map`: a change of the items that the comparison does not notice changes no place.
-/

namespace WideColumn

variable {α : Type}

/-- Puts an item into a list whose largest item comes first. -/
def insertDescending (order : α → α → Ordering) (x : α) : List α → List α
  | [] => [x]
  | y :: rest =>
    if order x y = .lt then y :: insertDescending order x rest else x :: y :: rest

/-- The items with the smallest first; of two equal items the earlier stays in front. -/
def sortBy (order : α → α → Ordering) (items : List α) : List α :=
  (items.foldl (fun sorted x => insertDescending order x sorted) []).reverse

/-! ### The same items -/

theorem insertDescending_perm (order : α → α → Ordering) (x : α) (items : List α) :
    (insertDescending order x items).Perm (x :: items) := by
  induction items with
  | nil => exact .refl _
  | cons y rest ih =>
    unfold insertDescending
    split
    · exact (ih.cons y).trans (.swap x y rest)
    · exact .refl _

theorem foldl_insertDescending_perm (order : α → α → Ordering) (items sorted : List α) :
    (items.foldl (fun sorted x => insertDescending order x sorted) sorted).Perm
      (items ++ sorted) := by
  induction items generalizing sorted with
  | nil => exact .refl _
  | cons x rest ih =>
    exact (ih _).trans (((insertDescending_perm order x sorted).append_left rest).trans
      List.perm_middle)

theorem sortBy_perm (order : α → α → Ordering) (items : List α) :
    (sortBy order items).Perm items := by
  have h := foldl_insertDescending_perm order items []
  rw [List.append_nil] at h
  exact (List.reverse_perm _).trans h

/-! ### In order -/

theorem insertDescending_pairwise {order : α → α → Ordering}
    (total : ∀ x y, order x y ≠ .lt → order y x ≠ .gt)
    (trans : ∀ x y z, order x y ≠ .gt → order y z ≠ .gt → order x z ≠ .gt)
    (x : α) {items : List α} (h : items.Pairwise fun a b => order b a ≠ .gt) :
    (insertDescending order x items).Pairwise fun a b => order b a ≠ .gt := by
  induction items with
  | nil => simp [insertDescending]
  | cons y rest ih =>
    obtain ⟨hy, hrest⟩ := List.pairwise_cons.1 h
    unfold insertDescending
    split
    · rename_i hlt
      refine List.pairwise_cons.2 ⟨fun z hz => ?_, ih hrest⟩
      rcases List.mem_cons.1 ((insertDescending_perm order x rest).mem_iff.1 hz) with rfl | hz
      · simp [hlt]
      · exact hy z hz
    · rename_i hlt
      have hyx := total x y hlt
      refine List.pairwise_cons.2 ⟨fun z hz => ?_, h⟩
      rcases List.mem_cons.1 hz with rfl | hz
      · exact hyx
      · exact trans z y x (hy z hz) hyx

theorem foldl_insertDescending_pairwise {order : α → α → Ordering}
    (total : ∀ x y, order x y ≠ .lt → order y x ≠ .gt)
    (trans : ∀ x y z, order x y ≠ .gt → order y z ≠ .gt → order x z ≠ .gt)
    (items : List α) {sorted : List α} (h : sorted.Pairwise fun a b => order b a ≠ .gt) :
    (items.foldl (fun sorted x => insertDescending order x sorted) sorted).Pairwise
      fun a b => order b a ≠ .gt := by
  induction items generalizing sorted with
  | nil => exact h
  | cons x rest ih => exact ih (insertDescending_pairwise total trans x h)

theorem sortBy_pairwise {order : α → α → Ordering}
    (total : ∀ x y, order x y ≠ .lt → order y x ≠ .gt)
    (trans : ∀ x y z, order x y ≠ .gt → order y z ≠ .gt → order x z ≠ .gt) (items : List α) :
    (sortBy order items).Pairwise fun a b => order a b ≠ .gt :=
  List.pairwise_reverse.2 (foldl_insertDescending_pairwise total trans items .nil)

/-! ### Items that are changed -/

section Map

variable {β : Type} {order : α → α → Ordering} {order' : β → β → Ordering} {f : α → β}

theorem insertDescending_map (h : ∀ a b, order' (f a) (f b) = order a b) (x : α)
    (sorted : List α) :
    (insertDescending order x sorted).map f = insertDescending order' (f x) (sorted.map f) := by
  induction sorted with
  | nil => rfl
  | cons y rest ih =>
    simp only [insertDescending, List.map_cons, h]
    split
    · rw [List.map_cons, ih]
    · rfl

theorem foldl_insertDescending_map (h : ∀ a b, order' (f a) (f b) = order a b)
    (items sorted : List α) :
    (items.foldl (fun sorted x => insertDescending order x sorted) sorted).map f =
      (items.map f).foldl (fun sorted x => insertDescending order' x sorted) (sorted.map f) := by
  induction items generalizing sorted with
  | nil => rfl
  | cons x rest ih =>
    rw [List.foldl_cons, ih, insertDescending_map h]
    rfl

/-- Sorting commutes with a change of the items that the comparison does not notice. -/
theorem sortBy_map (h : ∀ a b, order' (f a) (f b) = order a b) (items : List α) :
    (sortBy order items).map f = sortBy order' (items.map f) := by
  unfold sortBy
  rw [List.map_reverse, foldl_insertDescending_map h]
  rfl

end Map

end WideColumn
