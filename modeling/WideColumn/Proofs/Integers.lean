import Mathlib.Algebra.Order.Ring.Int
import Mathlib.Data.List.Induction
import Mathlib.Tactic.Linarith
import Mathlib.Tactic.NormNum
import Mathlib.Tactic.Positivity
import Mathlib.Tactic.Ring
import WideColumn.Value.Numeric

/-!
# Integers as byte strings

What the bytes of an integer say about its size, and what follows for the order of integers of any
width.

* `order_eq_compare_unsigned`, `order_eq_compare_signed` — byte strings of one length are ordered as
  the numbers they spell;
* `signed_stripSignExtension` — bytes that only repeat the sign do not change an integer;
* `signed_bounds`, `signed_of_isShort` — an integer without such bytes is as far from zero as its
  length says, from both sides, so of two integers with one sign the longer one is farther away;
* `orderVarint_eq_compare_signed` — **integers of any width are ordered as integers**.
-/

namespace WideColumn

namespace Bytes

/-! ### Numbers without sign -/

theorem unsigned_append_singleton (a : Bytes) (x : UInt8) :
    unsigned (a ++ [x]) = unsigned a * 256 + x.toNat := by
  simp [unsigned]

theorem unsigned_cons (x : UInt8) (b : Bytes) :
    unsigned (x :: b) = x.toNat * 256 ^ b.length + unsigned b := by
  induction b using List.reverseRecOn with
  | nil => simp [unsigned]
  | append_singleton b y ih =>
    rw [← List.cons_append, unsigned_append_singleton, unsigned_append_singleton, ih,
      List.length_append, List.length_singleton, Nat.pow_succ]
    ring

theorem unsigned_lt (b : Bytes) : unsigned b < 256 ^ b.length := by
  induction b with
  | nil => exact Nat.one_pos
  | cons x b ih =>
    have hx : x.toNat ≤ 255 := Nat.le_of_lt_succ x.toNat_lt
    have hlead := Nat.mul_le_mul_right (256 ^ b.length) hx
    rw [unsigned_cons, List.length_cons, Nat.pow_succ]
    omega

/-- A number is below another one if its leading digit is. -/
theorem digits_lt {x y m n unit : Nat} (hxy : x < y) (hm : m < unit) :
    x * unit + m < y * unit + n :=
  calc x * unit + m < (x + 1) * unit := by rw [Nat.succ_mul]; omega
    _ ≤ y * unit := Nat.mul_le_mul_right _ hxy
    _ ≤ y * unit + n := Nat.le_add_right _ _

/-- Byte strings of one length are ordered as the numbers they spell. -/
theorem order_eq_compare_unsigned {a b : Bytes} (h : a.length = b.length) :
    order a b = compare (unsigned a) (unsigned b) := by
  induction a generalizing b with
  | nil =>
    obtain rfl := List.length_eq_zero_iff.1 h.symm
    rfl
  | cons x a ih =>
    obtain ⟨y, b, rfl⟩ := List.exists_cons_of_length_eq_add_one h.symm
    have hlength : a.length = b.length := Nat.succ.inj h
    have ha : unsigned a < 256 ^ b.length := hlength ▸ unsigned_lt a
    have hb := unsigned_lt b
    have hfirst : compare x y = compare x.toNat y.toNat := by
      show compareOfLessAndEq _ _ = compareOfLessAndEq _ _
      simp only [compareOfLessAndEq, UInt8.lt_iff_toNat_lt, ← UInt8.toNat_inj]
    rw [show order (x :: a) (y :: b) = (compare x y).then (order a b) from List.compare_cons_cons,
      ih hlength, unsigned_cons, unsigned_cons, hlength, hfirst]
    rcases Nat.lt_trichotomy x.toNat y.toNat with hxy | hxy | hxy
    · rw [Nat.compare_eq_lt.2 hxy, Nat.compare_eq_lt.2 (digits_lt hxy ha)]
      rfl
    · rw [hxy, Nat.compare_eq_eq.2 rfl]
      show compareOfLessAndEq _ _ = compareOfLessAndEq _ _
      simp [compareOfLessAndEq]
    · rw [Nat.compare_eq_gt.2 hxy, Nat.compare_eq_gt.2 (digits_lt hxy hb)]
      rfl

/-! ### Numbers in two's complement -/

/-- The first byte counts from minus 128 to 127. -/
theorem signed_cons (x : UInt8) (b : Bytes) :
    signed (x :: b) =
      ((x.toNat : Int) - if 128 ≤ x.toNat then 256 else 0) * 256 ^ b.length + unsigned b := by
  unfold signed isNegative
  rw [unsigned_cons, List.length_cons]
  show (if decide (128 ≤ x.toNat) = true then _ - ((256 ^ (b.length + 1) : Nat) : Int) else _) = _
  split
  · rename_i h
    rw [if_pos (of_decide_eq_true h), Nat.pow_succ]
    push_cast
    ring
  · rename_i h
    rw [if_neg fun h' => h (decide_eq_true h')]
    push_cast
    ring

theorem signed_bounds (x : UInt8) (b : Bytes) :
    -(128 * 256 ^ b.length) ≤ signed (x :: b) ∧ signed (x :: b) < 128 * 256 ^ b.length := by
  have hx : x.toNat < 256 := x.toNat_lt
  have hb : (unsigned b : Int) < 256 ^ b.length := by exact_mod_cast unsigned_lt b
  rw [signed_cons]
  split <;> constructor <;> nlinarith

theorem signed_neg_iff {a : Bytes} : signed a < 0 ↔ isNegative a = true := by
  cases a with
  | nil => simp [signed, isNegative, unsigned]
  | cons x b =>
    have hx : x.toNat < 256 := x.toNat_lt
    have hb : (unsigned b : Int) < 256 ^ b.length := by exact_mod_cast unsigned_lt b
    rw [signed_cons]
    unfold isNegative
    by_cases h : 128 ≤ x.toNat
    · simp only [h, if_true, decide_true, iff_true]
      nlinarith
    · simp only [h, if_false, decide_false, Bool.false_eq_true, iff_false, not_lt, sub_zero]
      positivity

/-- Byte strings of one length and sign are ordered as the integers they spell. -/
theorem order_eq_compare_signed {a b : Bytes} (hlength : a.length = b.length)
    (hsign : isNegative a = isNegative b) : order a b = compare (signed a) (signed b) := by
  rw [order_eq_compare_unsigned hlength]
  unfold signed
  rw [hsign, hlength]
  show compareOfLessAndEq _ _ = compareOfLessAndEq _ _
  split <;> simp [compareOfLessAndEq]

end Bytes

namespace Value

open Bytes

/-! ### Sign extension -/

/-- The first byte does more than repeat the sign. -/
def IsShort (negative : Bool) : Bytes → Prop
  | a :: b :: _ => ¬(a = (if negative then 255 else 0) ∧ decide (128 ≤ b.toNat) = negative)
  | _ => True

/-- The sign is stripped byte by byte, until a byte does more than repeat it. -/
theorem stripSignExtension_induction {negative : Bool} {P : Bytes → Bytes → Prop}
    (strip : ∀ (a b : UInt8) (rest stripped : Bytes),
      a = (if negative then 255 else 0) ∧ decide (128 ≤ b.toNat) = negative →
      P (b :: rest) stripped → P (a :: b :: rest) stripped)
    (keep : ∀ a, IsShort negative a → P a a) (a : Bytes) :
    P a (stripSignExtension negative a) := by
  induction a with
  | nil => exact keep [] trivial
  | cons a rest ih =>
    cases rest with
    | nil => exact keep [a] trivial
    | cons b rest =>
      by_cases h : a = (if negative then 255 else 0) ∧ decide (128 ≤ b.toNat) = negative
      · have hstrip : stripSignExtension negative (a :: b :: rest) =
            stripSignExtension negative (b :: rest) := if_pos h
        rw [hstrip]
        exact strip a b rest _ h ih
      · have hkeep : stripSignExtension negative (a :: b :: rest) = a :: b :: rest := if_neg h
        rw [hkeep]
        exact keep _ h

theorem stripSignExtension_isShort (negative : Bool) (a : Bytes) :
    IsShort negative (stripSignExtension negative a) :=
  stripSignExtension_induction (P := fun _ stripped => IsShort negative stripped)
    (fun _ _ _ _ _ ih => ih) (fun _ hshort => hshort) a

theorem stripSignExtension_ne_nil {negative : Bool} {a : Bytes} (h : a ≠ []) :
    stripSignExtension negative a ≠ [] := by
  refine stripSignExtension_induction (P := fun a stripped => a ≠ [] → stripped ≠ []) ?_ ?_ a h
  · intro a b rest stripped _ ih _
    exact ih (List.cons_ne_nil _ _)
  · exact fun _ _ h => h

/-- A byte that only repeats the sign does not change an integer. -/
theorem signed_cons_of_repeats {negative : Bool} {a b : UInt8}
    (hfirst : a = if negative then 255 else 0) (hsecond : decide (128 ≤ b.toNat) = negative)
    (rest : Bytes) : signed (a :: b :: rest) = signed (b :: rest) := by
  rw [signed_cons, signed_cons, unsigned_cons, List.length_cons, hfirst]
  push_cast
  rw [pow_succ]
  cases negative with
  | true =>
    have hb : 128 ≤ b.toNat := of_decide_eq_true hsecond
    simp only [if_true, if_pos hb]
    simp
    ring
  | false =>
    have hb : ¬128 ≤ b.toNat := of_decide_eq_false hsecond
    simp only [if_neg hb]
    simp

/-- **Bytes that only repeat the sign do not change an integer.** -/
theorem signed_stripSignExtension {negative : Bool} {a : Bytes} (h : isNegative a = negative) :
    isNegative (stripSignExtension negative a) = negative ∧
      signed (stripSignExtension negative a) = signed a := by
  refine stripSignExtension_induction (P := fun a stripped => isNegative a = negative →
    isNegative stripped = negative ∧ signed stripped = signed a) ?_ (fun _ _ h => ⟨h, rfl⟩) a h
  rintro a b rest stripped ⟨hfirst, hsecond⟩ ih -
  rw [signed_cons_of_repeats hfirst hsecond]
  exact ih hsecond

/-- An integer that has no shorter form is at least as far from zero as its length says. -/
theorem signed_of_isShort {x y : UInt8} {b : Bytes}
    (h : IsShort (isNegative (x :: y :: b)) (x :: y :: b)) :
    if isNegative (x :: y :: b) = true then signed (x :: y :: b) < -(128 * 256 ^ b.length)
    else 128 * 256 ^ b.length ≤ signed (x :: y :: b) := by
  have hx : x.toNat < 256 := x.toNat_lt
  have hy : y.toNat < 256 := y.toNat_lt
  have hb : (unsigned b : Int) < 256 ^ b.length := by exact_mod_cast unsigned_lt b
  have hunit : (0 : Int) < 256 ^ b.length := by positivity
  have hfirst : ∀ n, x.toNat = n → x = UInt8.ofNat n := by
    rintro n rfl
    simp
  rw [signed_cons, unsigned_cons, List.length_cons, pow_succ]
  unfold IsShort isNegative at h
  unfold isNegative
  by_cases hneg : 128 ≤ x.toNat
  · simp only [hneg, decide_true, if_true] at h ⊢
    push_cast
    rcases Nat.lt_or_eq_of_le (Nat.le_of_lt_succ hx) with hlt | heq
    · nlinarith
    · have hsecond : y.toNat < 128 := by
        by_contra hnot
        exact h ⟨hfirst 255 heq, decide_eq_true (Nat.le_of_not_lt hnot)⟩
      rw [heq]
      push_cast
      nlinarith
  · simp only [hneg, decide_false, if_false, Bool.false_eq_true] at h ⊢
    push_cast
    rcases Nat.eq_zero_or_pos x.toNat with heq | hpos
    · have hsecond : 128 ≤ y.toNat := by
        by_contra hnot
        exact h ⟨hfirst 0 heq, decide_eq_false hnot⟩
      rw [heq]
      push_cast
      nlinarith
    · nlinarith

/-! ### Order -/

/-- Of two integers with one sign, a longer one without a shorter form is farther from zero. -/
theorem compare_signed_of_length_lt {a b : Bytes} (ha : a ≠ []) (hlength : a.length < b.length)
    (hb : IsShort (isNegative b) b) :
    if isNegative b = true then signed b < signed a else signed a < signed b := by
  obtain ⟨x, a, rfl⟩ := List.exists_cons_of_ne_nil ha
  obtain ⟨y, b, rfl⟩ :=
    List.exists_cons_of_ne_nil (List.length_pos_iff.1 (Nat.zero_lt_of_lt hlength))
  obtain ⟨z, b, rfl⟩ := List.exists_cons_of_ne_nil
    (List.length_pos_iff.1 (Nat.zero_lt_of_lt (Nat.lt_of_succ_lt_succ hlength)))
  have hbounds := signed_bounds x a
  have hshort := signed_of_isShort hb
  have hpow : (256 : Int) ^ a.length ≤ 256 ^ b.length := by
    refine pow_le_pow_right₀ (by norm_num) ?_
    simp only [List.length_cons] at hlength
    omega
  split
  · rename_i hneg
    rw [if_pos hneg] at hshort
    linarith
  · rename_i hneg
    rw [if_neg hneg] at hshort
    linarith

/-- Integers with one sign and without shorter forms: first by length, then byte by byte. -/
theorem order_of_isShort {a b : Bytes} {negative : Bool} (ha : a ≠ []) (hb : b ≠ [])
    (hsign : isNegative a = negative) (hsign' : isNegative b = negative)
    (hshort : IsShort negative a) (hshort' : IsShort negative b) :
    (if negative then (compare a.length b.length).swap else compare a.length b.length).then
      (Bytes.order a b) = compare (signed a) (signed b) := by
  rcases Nat.lt_trichotomy a.length b.length with hlt | heq | hlt
  · have hfar := compare_signed_of_length_lt ha hlt (by rwa [hsign'])
    rw [Nat.compare_eq_lt.2 hlt]
    rw [hsign'] at hfar
    cases negative with
    | true =>
      rw [compare_gt_iff_gt.2 hfar]
      rfl
    | false =>
      rw [compare_lt_iff_lt.2 hfar]
      rfl
  · rw [Nat.compare_eq_eq.2 heq, order_eq_compare_signed heq (hsign.trans hsign'.symm)]
    cases negative <;> rfl
  · have hfar := compare_signed_of_length_lt hb hlt (by rwa [hsign])
    rw [Nat.compare_eq_gt.2 hlt]
    rw [hsign] at hfar
    cases negative with
    | true =>
      rw [compare_lt_iff_lt.2 hfar]
      rfl
    | false =>
      rw [compare_gt_iff_gt.2 hfar]
      rfl

/-- **Integers of any width are ordered as integers.** -/
theorem orderVarint_eq_compare_signed {a b : Bytes} (ha : a ≠ []) (hb : b ≠ []) :
    orderVarint a b = compare (signed a) (signed b) := by
  unfold orderVarint
  split
  · rename_i hneg hpos
    have hbelow := signed_neg_iff.2 hneg
    have habove : ¬signed b < 0 := fun h => by simp [signed_neg_iff.1 h] at hpos
    rw [compare_lt_iff_lt.2 (by omega)]
  · rename_i hpos hneg
    have hbelow := signed_neg_iff.2 hneg
    have habove : ¬signed a < 0 := fun h => by simp [signed_neg_iff.1 h] at hpos
    rw [compare_gt_iff_gt.2 (by omega)]
  · rename_i hnot hnot'
    have hsign : isNegative b = isNegative a := by
      cases hna : isNegative a <;> cases hnb : isNegative b <;> simp_all
    obtain ⟨hsa, hva⟩ := signed_stripSignExtension (a := a) rfl
    obtain ⟨hsb, hvb⟩ := signed_stripSignExtension (a := b) hsign
    rw [← hva, ← hvb]
    exact order_of_isShort (stripSignExtension_ne_nil ha) (stripSignExtension_ne_nil hb) hsa hsb
      (stripSignExtension_isShort _ a) (stripSignExtension_isShort _ b)

end Value

end WideColumn
