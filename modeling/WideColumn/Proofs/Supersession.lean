import Mathlib.Data.List.Pairwise
import WideColumn.Store.Layers

/-!
# Which cell counts

`Cell.supersedes` compares two cells of one name by time, then by whether they mark a deletion,
then by value.  It is a strict order in which two cells are incomparable exactly if they agree in
all three, so that the newest one of several cells does not depend on the order of comparing:

* `supersedes_iff` — the rule as one formula;
* `supersedes_irrefl`, `supersedes_asymm`, `supersedes_trans`, `not_supersedes_trans` — a strict
  weak order;
* `not_supersedes_iff` — which cells tie;
* `newest` — the cell that counts of several that may be there, as the layers work it out;
* `newest_eq_some_iff` — **the newest cell is the one that no other supersedes**, provided that
  any two of them can be told apart.
-/

namespace WideColumn

namespace Cell

/-! ### A strict weak order -/

/-- The rule as one formula. -/
theorem supersedes_iff {c d : Cell} :
    c.supersedes d = true ↔
      d.timestamp < c.timestamp ∨
        c.timestamp = d.timestamp ∧
          (c.isTombstone = true ∧ d.isTombstone = false ∨
            c.isTombstone = d.isTombstone ∧ compare c.value d.value = .gt) := by
  unfold supersedes Bytes.order
  by_cases h : c.timestamp = d.timestamp
  · rw [if_neg (by simpa using h)]
    cases c.isTombstone <;> cases d.isTombstone <;> simp [h]
  · rw [if_pos h]
    simp [h]

theorem supersedes_irrefl (c : Cell) : c.supersedes c = false := by
  rw [Bool.eq_false_iff, ne_eq, supersedes_iff]
  simp

theorem supersedes_trans {c d e : Cell} (hcd : c.supersedes d = true)
    (hde : d.supersedes e = true) : c.supersedes e = true := by
  rw [supersedes_iff] at *
  have hval : compare c.value d.value = .gt → compare d.value e.value = .gt →
      compare c.value e.value = .gt := Std.TransCmp.gt_trans
  grind

theorem supersedes_asymm {c d : Cell} (h : c.supersedes d = true) : d.supersedes c = false := by
  rw [Bool.eq_false_iff]
  intro h'
  have hself := supersedes_trans h h'
  rw [supersedes_irrefl] at hself
  cases hself

/-- Of a cell that supersedes another and a third one, one supersedes the other of them. -/
theorem supersedes_or_of_supersedes {c e : Cell} (h : c.supersedes e = true) (d : Cell) :
    c.supersedes d = true ∨ d.supersedes e = true := by
  rw [supersedes_iff] at *
  rw [supersedes_iff]
  have hgt : ∀ {a b : Bytes}, compare a b ≠ .gt → compare b a ≠ .lt := fun hab hba =>
    hab (Std.OrientedCmp.gt_of_lt hba)
  have hval : compare c.value e.value = .gt →
      compare c.value d.value = .gt ∨ compare d.value e.value = .gt := by
    intro hce
    by_cases hcd : compare c.value d.value = .gt
    · exact .inl hcd
    · refine .inr (Classical.byContradiction fun hde => ?_)
      have hle := Std.TransCmp.isLE_trans (Ordering.isLE_iff_ne_gt.2 hcd)
        (Ordering.isLE_iff_ne_gt.2 hde)
      exact Ordering.isLE_iff_ne_gt.1 hle hce
  have hbool : ∀ a b : Bool, a = true ∧ b = false ∨ a = b ∨ a = false ∧ b = true := by decide
  have := hbool c.isTombstone d.isTombstone
  have := hbool d.isTombstone e.isTombstone
  grind

theorem not_supersedes_trans {c d e : Cell} (hcd : c.supersedes d = false)
    (hde : d.supersedes e = false) : c.supersedes e = false := by
  rw [Bool.eq_false_iff]
  intro h
  rcases supersedes_or_of_supersedes h d with h | h
  · rw [hcd] at h
    cases h
  · rw [hde] at h
    cases h

/-- A cell that does not supersede a second one does not supersede a newer one either. -/
theorem not_supersedes_of_supersedes {c d e : Cell} (hcd : c.supersedes d = false)
    (h : e.supersedes d = true) : c.supersedes e = false :=
  not_supersedes_trans hcd (supersedes_asymm h)

theorem timestamp_le_of_supersedes {c d : Cell} (h : c.supersedes d = true) :
    d.timestamp ≤ c.timestamp := by
  rcases supersedes_iff.1 h with h | ⟨h, -⟩ <;> omega

theorem timestamp_le_of_not_supersedes {c d : Cell} (h : c.supersedes d = false) :
    c.timestamp ≤ d.timestamp := by
  by_cases hlt : d.timestamp < c.timestamp
  · rw [supersedes_iff.2 (.inl hlt)] at h
    cases h
  · omega

/-- The name of a cell and what it says about expiry play no part. -/
theorem supersedes_congr {c c' d : Cell} (ht : c.timestamp = c'.timestamp)
    (hv : c.value = c'.value) (hk : c.isTombstone = c'.isTombstone) :
    c.supersedes d = c'.supersedes d := by
  unfold supersedes
  rw [ht, hv, hk]

theorem supersedes_congr_right {c d d' : Cell} (ht : d.timestamp = d'.timestamp)
    (hv : d.value = d'.value) (hk : d.isTombstone = d'.isTombstone) :
    c.supersedes d = c.supersedes d' := by
  unfold supersedes
  rw [ht, hv, hk]

/-- **Ties.**  Neither of two cells supersedes the other if they agree in time, in value and in
whether they mark a deletion, and only then. -/
theorem not_supersedes_iff {c d : Cell} :
    c.supersedes d = false ∧ d.supersedes c = false ↔
      c.timestamp = d.timestamp ∧ c.value = d.value ∧ c.isTombstone = d.isTombstone := by
  constructor
  · rintro ⟨hcd, hdc⟩
    have htime : c.timestamp = d.timestamp :=
      Int.le_antisymm (timestamp_le_of_not_supersedes hcd) (timestamp_le_of_not_supersedes hdc)
    rw [Bool.eq_false_iff, ne_eq, supersedes_iff] at hcd hdc
    have hmark : c.isTombstone = d.isTombstone := by
      cases hc : c.isTombstone <;> cases hd : d.isTombstone <;> simp_all
    refine ⟨htime, ?_, hmark⟩
    cases hv : compare c.value d.value with
    | eq => exact Std.LawfulEqOrd.eq_of_compare hv
    | gt => exact absurd (.inr ⟨htime, .inr ⟨hmark, hv⟩⟩) hcd
    | lt =>
      exact absurd (.inr ⟨htime.symm, .inr ⟨hmark.symm, Std.OrientedCmp.gt_of_lt hv⟩⟩) hdc
  · rintro ⟨htime, hvalue, hmark⟩
    have hboth : ∀ a b : Cell, a.timestamp = b.timestamp → a.value = b.value →
        a.isTombstone = b.isTombstone → a.supersedes b = false := by
      intro a b ht hv hm
      rw [supersedes_congr ht hv hm, supersedes_irrefl]
    exact ⟨hboth c d htime hvalue hmark, hboth d c htime.symm hvalue.symm hmark.symm⟩

end Cell

/-! ### The newest of several cells -/

/-- The cell that counts of several that may be there. -/
def newest (cells : List (Option Cell)) : Option Cell :=
  cells.foldl Layers.reconcile none

/-- If both cells are there, one supersedes the other. -/
def Apart (a b : Option Cell) : Prop :=
  ∀ c d, a = some c → b = some d → c.supersedes d = true ∨ d.supersedes c = true

instance : Std.Symm Apart := ⟨fun _ _ h c d hc hd => (h d c hd hc).symm⟩

/-- Of any two of the cells one supersedes the other. -/
def Distinguished (cells : List (Option Cell)) : Prop := cells.Pairwise Apart

theorem Distinguished.perm {a b : List (Option Cell)} (h : Distinguished a) (hp : a.Perm b) :
    Distinguished b :=
  (hp.pairwise_iff fun hxy => Std.Symm.symm _ _ hxy).1 h

@[simp] theorem reconcile_none_right (a : Option Cell) : Layers.reconcile a none = a := by
  cases a <;> rfl

@[simp] theorem reconcile_none_left (a : Option Cell) : Layers.reconcile none a = a := by
  cases a <;> rfl

theorem reconcile_eq_none_iff {a b : Option Cell} :
    Layers.reconcile a b = none ↔ a = none ∧ b = none := by
  cases a with
  | none => simp
  | some c =>
    cases b with
    | none => simp
    | some d => cases h : d.supersedes c <;> simp [Layers.reconcile, h]

/-- The cell that counts is one of the two, and neither supersedes it. -/
theorem reconcile_spec {a b : Option Cell} {c : Cell} (h : Layers.reconcile a b = some c) :
    (a = some c ∨ b = some c) ∧
      ∀ d, a = some d ∨ b = some d → d.supersedes c = false := by
  cases a with
  | none =>
    rw [reconcile_none_left] at h
    subst h
    refine ⟨.inr rfl, ?_⟩
    rintro d (hd | hd)
    · cases hd
    · cases hd
      exact Cell.supersedes_irrefl c
  | some x =>
    cases b with
    | none =>
      rw [reconcile_none_right] at h
      cases h
      refine ⟨.inl rfl, ?_⟩
      rintro d (hd | hd)
      · cases hd
        exact Cell.supersedes_irrefl c
      · cases hd
    | some y =>
      cases hs : y.supersedes x
      · have hc : x = c := by simpa [Layers.reconcile, hs] using h
        subst hc
        refine ⟨.inl rfl, ?_⟩
        rintro d (hd | hd)
        · cases hd
          exact Cell.supersedes_irrefl x
        · cases hd
          exact hs
      · have hc : y = c := by simpa [Layers.reconcile, hs] using h
        subst hc
        refine ⟨.inr rfl, ?_⟩
        rintro d (hd | hd)
        · cases hd
          exact Cell.supersedes_asymm hs
        · cases hd
          exact Cell.supersedes_irrefl y

/-- The running result of the comparison: it is the first cell or one of the others, and none
of them supersedes it. -/
theorem foldl_reconcile_spec (cells : List (Option Cell)) (first : Option Cell) :
    match cells.foldl Layers.reconcile first with
    | none => first = none ∧ ∀ c, some c ∉ cells
    | some c => (first = some c ∨ some c ∈ cells) ∧
        ∀ d, first = some d ∨ some d ∈ cells → d.supersedes c = false := by
  induction cells generalizing first with
  | nil =>
    cases first with
    | none => simp
    | some c => simp [Cell.supersedes_irrefl]
  | cons a rest ih =>
    have h := ih (Layers.reconcile first a)
    rw [List.foldl_cons]
    cases hr : rest.foldl Layers.reconcile (Layers.reconcile first a) with
    | none =>
      rw [hr] at h
      obtain ⟨hfirst, hrest⟩ := h
      obtain ⟨rfl, rfl⟩ := reconcile_eq_none_iff.1 hfirst
      exact ⟨rfl, by simpa using hrest⟩
    | some c =>
      rw [hr] at h
      obtain ⟨hc, hmax⟩ := h
      have hnot : ∀ d, first = some d ∨ a = some d → d.supersedes c = false := by
        intro d hd
        cases hx : Layers.reconcile first a with
        | none =>
          obtain ⟨rfl, rfl⟩ := reconcile_eq_none_iff.1 hx
          rcases hd with hd | hd <;> cases hd
        | some x =>
          exact Cell.not_supersedes_trans ((reconcile_spec hx).2 d hd) (hmax x (.inl hx))
      refine ⟨?_, ?_⟩
      · rcases hc with hc | hc
        · rcases (reconcile_spec hc).1 with h | h
          · exact .inl h
          · exact .inr (h ▸ List.mem_cons_self)
        · exact .inr (List.mem_cons_of_mem _ hc)
      · rintro d (hd | hd)
        · exact hnot d (.inl hd)
        · rcases List.mem_cons.1 hd with hd | hd
          · exact hnot d (.inr hd.symm)
          · exact hmax d (.inr hd)

theorem newest_eq_none_iff {cells : List (Option Cell)} :
    newest cells = none ↔ ∀ c, some c ∉ cells := by
  have h := foldl_reconcile_spec cells none
  unfold newest
  cases hr : cells.foldl Layers.reconcile none with
  | none =>
    rw [hr] at h
    simpa using h.2
  | some c =>
    rw [hr] at h
    rcases h.1 with h | h
    · cases h
    · simpa using ⟨c, h⟩

theorem newest_mem {cells : List (Option Cell)} {c : Cell} (h : newest cells = some c) :
    some c ∈ cells := by
  have hs := foldl_reconcile_spec cells none
  unfold newest at h
  rw [h] at hs
  rcases hs.1 with h | h
  · cases h
  · exact h

theorem not_supersedes_newest {cells : List (Option Cell)} {c d : Cell}
    (h : newest cells = some c) (hd : some d ∈ cells) : d.supersedes c = false := by
  have hs := foldl_reconcile_spec cells none
  unfold newest at h
  rw [h] at hs
  exact hs.2 d (.inr hd)

/-- A cell that supersedes the newest one supersedes them all. -/
theorem supersedes_of_supersedes_newest {cells : List (Option Cell)} {c d : Cell}
    (hc : ∀ e, newest cells = some e → c.supersedes e = true) (hd : some d ∈ cells) :
    c.supersedes d = true := by
  cases hn : newest cells with
  | none => exact absurd hd (newest_eq_none_iff.1 hn d)
  | some e =>
    rcases Cell.supersedes_or_of_supersedes (hc e hn) d with h | h
    · exact h
    · rw [not_supersedes_newest hn hd] at h
      cases h

/-- Cells that can be told apart are the same if neither supersedes the other. -/
theorem Distinguished.eq {cells : List (Option Cell)} (h : Distinguished cells) {c d : Cell}
    (hc : some c ∈ cells) (hd : some d ∈ cells) (hcd : c.supersedes d = false)
    (hdc : d.supersedes c = false) : c = d := by
  by_cases heq : some c = some d
  · exact Option.some.inj heq
  · rcases List.Pairwise.forall h hc hd heq c d rfl rfl with h | h
    · rw [hcd] at h
      cases h
    · rw [hdc] at h
      cases h

/-- **The newest cell is the one that no other supersedes.** -/
theorem newest_eq_some_iff {cells : List (Option Cell)} (h : Distinguished cells) {c : Cell} :
    newest cells = some c ↔
      some c ∈ cells ∧ ∀ d, some d ∈ cells → d.supersedes c = false := by
  constructor
  · exact fun hc => ⟨newest_mem hc, fun d hd => not_supersedes_newest hc hd⟩
  · rintro ⟨hc, hmax⟩
    cases hn : newest cells with
    | none => exact absurd hc (newest_eq_none_iff.1 hn c)
    | some d =>
      have hd := newest_mem hn
      rw [h.eq hc hd (not_supersedes_newest hn hc) (hmax d hd)]

/-- The newest cell depends only on which cells there are. -/
theorem newest_congr {a b : List (Option Cell)} (ha : Distinguished a) (hb : Distinguished b)
    (h : ∀ c, some c ∈ a ↔ some c ∈ b) : newest a = newest b := by
  ext c
  rw [newest_eq_some_iff ha, newest_eq_some_iff hb]
  simp only [h]

/-- Of cells that tie for the newest the first one stays. -/
theorem newest_cons_of_unbeaten {c : Cell} {rest : List (Option Cell)}
    (h : ∀ d, some d ∈ rest → d.supersedes c = false) : newest (some c :: rest) = some c := by
  show rest.foldl Layers.reconcile (Layers.reconcile none (some c)) = some c
  rw [reconcile_none_left]
  induction rest with
  | nil => rfl
  | cons a rest ih =>
    have hrest := ih fun d hd => h d (List.mem_cons_of_mem _ hd)
    cases a with
    | none => rw [List.foldl_cons, reconcile_none_right, hrest]
    | some d =>
      have hstay : Layers.reconcile (some c) (some d) = some c := by
        simp [Layers.reconcile, h d List.mem_cons_self]
      rw [List.foldl_cons, hstay, hrest]

end WideColumn
