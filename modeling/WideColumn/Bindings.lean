/-!
# Sorted bindings

A finite map as the list of its bindings in the order of their keys.  Two maps that answer
every look-up alike are the same list, which makes this form fit for comparing, printing and
hashing.

* `find?`, `insert` and `erase` are the operations;
* `Sorted` says that the keys rise strictly, which `insert` and `erase` keep;
* `find?_insert` and `find?_erase` say what a look-up sees afterwards.
-/

namespace WideColumn

/-- Bindings of keys to values. -/
abbrev Bindings (κ α : Type) := List (κ × α)

namespace Bindings

variable {κ α β : Type} [Ord κ]

/-- The value bound to a key. -/
def find? (key : κ) : Bindings κ α → Option α
  | [] => none
  | (k, a) :: rest => if compare key k = .eq then some a else find? key rest

/-- Is the key bound? -/
def contains (m : Bindings κ α) (key : κ) : Bool :=
  (m.find? key).isSome

/-- Binds a key, in place of what it was bound to before. -/
def insert (key : κ) (value : α) : Bindings κ α → Bindings κ α
  | [] => [(key, value)]
  | (k, a) :: rest =>
    match compare key k with
    | .lt => (key, value) :: (k, a) :: rest
    | .eq => (key, value) :: rest
    | .gt => (k, a) :: insert key value rest

/-- Unbinds a key. -/
def erase (key : κ) (m : Bindings κ α) : Bindings κ α :=
  m.filter fun binding => compare key binding.1 != .eq

/-- The bindings of a list of pairs; of two pairs with one key the later counts. -/
def ofList (pairs : List (κ × α)) : Bindings κ α :=
  pairs.foldl (fun m (k, a) => insert k a m) []

/-- The keys, in order. -/
def keys (m : Bindings κ α) : List κ := m.map Prod.fst

/-- The values, in the order of their keys. -/
def values (m : Bindings κ α) : List α := m.map Prod.snd

/-- The same keys with other values. -/
def mapValues (f : α → β) (m : Bindings κ α) : Bindings κ β :=
  m.map fun (k, a) => (k, f a)

/-- The keys rise strictly. -/
def Sorted (m : Bindings κ α) : Prop :=
  m.Pairwise fun a b => compare a.1 b.1 = .lt

/-! ### What a look-up sees -/

theorem find?_insert [Std.LawfulEqOrd κ] [DecidableEq κ] (key k : κ) (value : α)
    (m : Bindings κ α) :
    find? k (insert key value m) = if k = key then some value else find? k m := by
  induction m with
  | nil => simp [insert, find?]
  | cons head rest ih =>
    obtain ⟨k', a⟩ := head
    unfold insert
    split
    · simp [find?]
    · rename_i h
      obtain rfl := Std.LawfulEqOrd.eq_of_compare h
      by_cases hk : k = key <;> simp [find?, hk]
    · rename_i h
      have hne : key ≠ k' := by
        rintro rfl
        simp at h
      by_cases hk : k = k'
      · subst hk
        simp [find?, Ne.symm hne]
      · simp [find?, hk, ih]

theorem find?_erase [Std.LawfulEqOrd κ] [DecidableEq κ] (key k : κ) (m : Bindings κ α) :
    find? k (erase key m) = if k = key then none else find? k m := by
  induction m with
  | nil => simp [erase, find?]
  | cons head rest ih =>
    obtain ⟨k', a⟩ := head
    simp only [erase] at ih ⊢
    by_cases h : key = k'
    · subst h
      by_cases hk : k = key
      · simp_all
      · simp_all [find?]
    · by_cases hk : k = k'
      · subst hk
        simp [find?, h, Ne.symm h]
      · simp [find?, h, hk, ih]

/-! ### Order of the keys -/

theorem eq_or_mem_of_mem_insert {key : κ} {value : α} {m : Bindings κ α} {binding : κ × α}
    (h : binding ∈ insert key value m) : binding = (key, value) ∨ binding ∈ m := by
  induction m with
  | nil => simpa [insert] using h
  | cons head rest ih =>
    obtain ⟨k, a⟩ := head
    unfold insert at h
    split at h
    · simpa using h
    · rcases List.mem_cons.1 h with h | h
      · exact .inl h
      · exact .inr (List.mem_cons_of_mem _ h)
    · rcases List.mem_cons.1 h with h | h
      · exact .inr (h ▸ List.mem_cons_self)
      · exact (ih h).imp id (List.mem_cons_of_mem _)

theorem insert_sorted [Std.TransOrd κ] [Std.LawfulEqOrd κ] (key : κ) (value : α)
    {m : Bindings κ α} (h : m.Sorted) : Sorted (insert key value m) := by
  induction m with
  | nil => simp [insert, Sorted]
  | cons head rest ih =>
    obtain ⟨k, a⟩ := head
    rw [Sorted, List.pairwise_cons] at h
    unfold insert
    split
    · rename_i hlt
      refine List.pairwise_cons.2 ⟨?_, List.pairwise_cons.2 h⟩
      intro b hb
      rcases List.mem_cons.1 hb with rfl | hb
      · exact hlt
      · exact Std.TransCmp.lt_trans hlt (h.1 b hb)
    · rename_i heq
      obtain rfl := Std.LawfulEqOrd.eq_of_compare heq
      exact List.pairwise_cons.2 ⟨h.1, h.2⟩
    · rename_i hgt
      refine List.pairwise_cons.2 ⟨fun b hb => ?_, ih h.2⟩
      rcases eq_or_mem_of_mem_insert hb with rfl | hb
      · exact Std.OrientedCmp.lt_of_gt hgt
      · exact h.1 b hb

theorem erase_sorted (key : κ) {m : Bindings κ α} (h : m.Sorted) : Sorted (erase key m) :=
  List.Pairwise.filter _ h

end Bindings

end WideColumn
