import Mathlib.Data.List.Sort
import WideColumn.Bindings

/-!
# Look-ups in sorted bindings

`Bindings` says what a look-up sees after one insertion or one removal.  This file has what the
store asks beyond that, for bindings whose keys rise strictly:

* `mem_of_find?`, `find?_eq_some_of_mem` — a look-up finds the bindings that are there;
* `Sorted.ext` — **canonical form**: bindings that answer every look-up alike are the same list;
* `find?_mapValues`, `find?_filter` — look-ups after a change of all values and after a selection;
* `find?_foldl_insert` — look-ups after the insertion of other bindings, one after the other;
* `ofList_concat`, `ofList_eq_nil_iff`, `ofList_eq_self` — the bindings of a list of pairs.
-/

namespace WideColumn

namespace Bindings

variable {κ α β : Type} [Ord κ]

/-! ### What is there is found -/

@[simp] theorem find?_nil (key : κ) : find? key ([] : Bindings κ α) = none := rfl

theorem find?_cons_self [Std.ReflOrd κ] (key : κ) (a : α) (rest : Bindings κ α) :
    find? key ((key, a) :: rest) = some a := by
  simp [find?]

theorem find?_cons_ne [Std.LawfulEqOrd κ] {key k : κ} (h : key ≠ k) (a : α)
    (rest : Bindings κ α) : find? key ((k, a) :: rest) = find? key rest := by
  have hne : compare key k ≠ .eq := fun heq => h (Std.LawfulEqOrd.eq_of_compare heq)
  simp [find?, hne]

theorem mem_of_find? [Std.LawfulEqOrd κ] {key : κ} {a : α} {m : Bindings κ α}
    (h : find? key m = some a) : (key, a) ∈ m := by
  induction m with
  | nil => simp at h
  | cons head rest ih =>
    obtain ⟨k, b⟩ := head
    unfold find? at h
    split at h
    · rename_i heq
      obtain rfl := Std.LawfulEqOrd.eq_of_compare heq
      obtain rfl := Option.some.inj h
      exact List.mem_cons_self
    · exact List.mem_cons_of_mem _ (ih h)

theorem Sorted.tail {head : κ × α} {m : Bindings κ α} (h : Sorted (head :: m)) : Sorted m :=
  (List.pairwise_cons.1 h).2

theorem Sorted.head_lt {head b : κ × α} {m : Bindings κ α} (h : Sorted (head :: m))
    (hb : b ∈ m) : compare head.1 b.1 = .lt :=
  (List.pairwise_cons.1 h).1 b hb

theorem Sorted.head_ne [Std.ReflOrd κ] {head b : κ × α} {m : Bindings κ α}
    (h : Sorted (head :: m)) (hb : b ∈ m) : b.1 ≠ head.1 := by
  intro heq
  have hlt := h.head_lt hb
  rw [heq, Std.ReflOrd.compare_self] at hlt
  exact absurd hlt (by decide)

theorem find?_eq_some_of_mem [Std.LawfulEqOrd κ] {key : κ} {a : α} {m : Bindings κ α}
    (hm : m.Sorted) (h : (key, a) ∈ m) : find? key m = some a := by
  induction m with
  | nil => simp at h
  | cons head rest ih =>
    rcases List.mem_cons.1 h with rfl | h
    · exact find?_cons_self key a rest
    · exact (find?_cons_ne (hm.head_ne h) head.2 rest).trans (ih hm.tail h)

theorem find?_eq_some_iff [Std.LawfulEqOrd κ] {key : κ} {a : α} {m : Bindings κ α}
    (hm : m.Sorted) : find? key m = some a ↔ (key, a) ∈ m :=
  ⟨mem_of_find?, find?_eq_some_of_mem hm⟩

theorem find?_eq_none_iff [Std.LawfulEqOrd κ] {key : κ} {m : Bindings κ α} :
    find? key m = none ↔ ∀ a, (key, a) ∉ m := by
  constructor
  · intro h a ha
    induction m with
    | nil => simp at ha
    | cons head rest ih =>
      obtain ⟨k, b⟩ := head
      unfold find? at h
      split at h
      · cases h
      · rename_i hne
        rcases List.mem_cons.1 ha with heq | ha
        · cases heq
          exact hne Std.ReflOrd.compare_self
        · exact ih h ha
  · intro h
    cases hf : find? key m with
    | none => rfl
    | some a => exact absurd (mem_of_find? hf) (h a)

/-! ### One list for each map -/

/-- Items whose keys rise strictly are determined by which items there are. -/
theorem eq_of_mem_iff_of_rising [Std.TransOrd κ] {ι : Type} (key : ι → κ) {xs ys : List ι}
    (hxs : xs.Pairwise fun a b => compare (key a) (key b) = .lt)
    (hys : ys.Pairwise fun a b => compare (key a) (key b) = .lt)
    (hmem : ∀ a, a ∈ xs ↔ a ∈ ys) : xs = ys := by
  have hirrefl : ∀ a, compare (key a) (key a) ≠ .lt := fun a h => by
    rw [Std.ReflOrd.compare_self] at h
    cases h
  have : Std.Irrefl fun a b : ι => compare (key a) (key b) = .lt := ⟨hirrefl⟩
  have : Std.Antisymm fun a b : ι => compare (key a) (key b) = .lt :=
    ⟨fun a _ hab hba => absurd (Std.TransCmp.lt_trans hab hba) (hirrefl a)⟩
  exact hxs.eq_of_mem_iff hys hmem

/-- Sorted bindings with the same members are the same list. -/
theorem Sorted.eq_of_mem_iff [Std.TransOrd κ] {m m' : Bindings κ α}
    (hm : m.Sorted) (hm' : m'.Sorted) (hmem : ∀ b, b ∈ m ↔ b ∈ m') : m = m' :=
  eq_of_mem_iff_of_rising Prod.fst hm hm' hmem

/-- **Canonical form.**  Sorted bindings that answer every look-up alike are the same list. -/
theorem Sorted.ext [Std.TransOrd κ] [Std.LawfulEqOrd κ] {m m' : Bindings κ α}
    (hm : m.Sorted) (hm' : m'.Sorted) (h : ∀ key, find? key m = find? key m') : m = m' :=
  hm.eq_of_mem_iff hm' fun b => by
    rw [← find?_eq_some_iff hm, ← find?_eq_some_iff hm', h]

/-! ### Changes of many bindings -/

theorem mapValues_sorted (f : α → β) {m : Bindings κ α} (h : m.Sorted) :
    Sorted (mapValues f m) :=
  List.pairwise_map.2 h

theorem find?_mapValues (f : α → β) (key : κ) (m : Bindings κ α) :
    find? key (mapValues f m) = (find? key m).map f := by
  induction m with
  | nil => rfl
  | cons head rest ih =>
    obtain ⟨k, a⟩ := head
    show find? key ((k, f a) :: mapValues f rest) = _
    unfold find?
    split
    · rfl
    · exact ih

omit [Ord κ] in
theorem mapValues_eq_self_iff {f : α → α} {m : Bindings κ α} :
    mapValues f m = m ↔ ∀ b ∈ m, f b.2 = b.2 := by
  induction m with
  | nil => exact ⟨fun _ => nofun, fun _ => rfl⟩
  | cons head rest ih =>
    obtain ⟨k, a⟩ := head
    show (k, f a) :: mapValues f rest = (k, a) :: rest ↔ _
    rw [List.cons.injEq, Prod.mk.injEq, ih, List.forall_mem_cons]
    exact and_congr_left' (and_iff_right rfl)

theorem filter_sorted (p : κ × α → Bool) {m : Bindings κ α} (h : m.Sorted) :
    Sorted (m.filter p) :=
  List.Pairwise.filter p h

theorem find?_filter [Std.LawfulEqOrd κ] (p : κ × α → Bool) (key : κ) {m : Bindings κ α}
    (hm : m.Sorted) : find? key (m.filter p) = (find? key m).filter fun a => p (key, a) := by
  ext a
  rw [find?_eq_some_iff (filter_sorted p hm), List.mem_filter, ← find?_eq_some_iff hm,
    Option.filter_eq_some_iff]

theorem foldl_insert_sorted [Std.TransOrd κ] [Std.LawfulEqOrd κ] (q : Bindings κ α)
    {p : Bindings κ α} (hp : p.Sorted) :
    Sorted (q.foldl (fun p (key, a) => insert key a p) p) := by
  induction q generalizing p with
  | nil => exact hp
  | cons head rest ih => exact ih (insert_sorted head.1 head.2 hp)

theorem find?_foldl_insert [Std.LawfulEqOrd κ] [DecidableEq κ] (key : κ) {q : Bindings κ α}
    (hq : q.Sorted) (p : Bindings κ α) :
    find? key (q.foldl (fun p (key, a) => insert key a p) p) = (find? key q).or (find? key p) := by
  induction q generalizing p with
  | nil => rfl
  | cons head rest ih =>
    obtain ⟨k, a⟩ := head
    rw [List.foldl_cons, ih hq.tail, find?_insert]
    by_cases h : key = k
    · subst h
      have hnone : find? key rest = none :=
        find?_eq_none_iff.2 fun b hb => hq.head_ne hb rfl
      rw [hnone, find?_cons_self, if_pos rfl]
      rfl
    · rw [find?_cons_ne h, if_neg h]

/-! ### Bindings of a list -/

/-- A key that is bound to nothing gets its binding beside the others. -/
theorem insert_perm [Std.LawfulEqOrd κ] {key : κ} {m : Bindings κ α} (h : find? key m = none)
    (a : α) : (insert key a m).Perm ((key, a) :: m) := by
  induction m with
  | nil => exact .refl _
  | cons head rest ih =>
    obtain ⟨k, b⟩ := head
    have hne : key ≠ k := by
      rintro rfl
      rw [find?_cons_self] at h
      cases h
    rw [find?_cons_ne hne] at h
    unfold insert
    split
    · exact .refl _
    · exact absurd (Std.LawfulEqOrd.eq_of_compare ‹_›) hne
    · exact ((ih h).cons (k, b)).trans (.swap _ _ _)

theorem insert_ne_nil (key : κ) (value : α) (m : Bindings κ α) : insert key value m ≠ [] := by
  cases m with
  | nil => exact List.cons_ne_nil _ _
  | cons head rest =>
    unfold insert
    split <;> exact List.cons_ne_nil _ _

theorem ofList_concat (pairs : List (κ × α)) (key : κ) (value : α) :
    ofList (pairs ++ [(key, value)]) = insert key value (ofList pairs) := by
  simp [ofList]

theorem mem_or_mem_of_mem_foldl_insert {pairs m : Bindings κ α} {binding : κ × α}
    (h : binding ∈ pairs.foldl (fun m (key, a) => insert key a m) m) :
    binding ∈ pairs ∨ binding ∈ m := by
  induction pairs generalizing m with
  | nil => exact .inr h
  | cons head rest ih =>
    rcases ih h with h | h
    · exact .inl (List.mem_cons_of_mem _ h)
    · rcases eq_or_mem_of_mem_insert h with rfl | h
      · exact .inl List.mem_cons_self
      · exact .inr h

theorem mem_of_mem_ofList {pairs : List (κ × α)} {binding : κ × α} (h : binding ∈ ofList pairs) :
    binding ∈ pairs :=
  (mem_or_mem_of_mem_foldl_insert h).resolve_right List.not_mem_nil

theorem ofList_sorted [Std.TransOrd κ] [Std.LawfulEqOrd κ] (pairs : List (κ × α)) :
    Sorted (ofList pairs) :=
  foldl_insert_sorted pairs List.Pairwise.nil

/-- Sorted bindings are the bindings of their list. -/
theorem ofList_eq_self [Std.TransOrd κ] [Std.LawfulEqOrd κ] [DecidableEq κ] {m : Bindings κ α}
    (h : m.Sorted) : ofList m = m := by
  refine (ofList_sorted m).ext h fun key => ?_
  rw [ofList, find?_foldl_insert key h, find?_nil, Option.or_none]

theorem ofList_eq_nil_iff {pairs : List (κ × α)} : ofList pairs = [] ↔ pairs = [] := by
  rcases List.eq_nil_or_concat pairs with rfl | ⟨rest, ⟨key, value⟩, rfl⟩
  · exact ⟨fun _ => rfl, fun _ => rfl⟩
  · simp [List.concat_eq_append, ofList_concat, insert_ne_nil]

end Bindings

end WideColumn
