import Mathlib.Data.Rat.Defs
import Mathlib.Algebra.Order.Field.Rat
import Mathlib.Algebra.Order.Field.Power
import Mathlib.Order.Compare
import Mathlib.Order.Std
import Mathlib.Tactic.FieldSimp
import WideColumn.Proofs.ReversedComparisons
import WideColumn.Proofs.Varints

/-!
# The order of decimals

Two decimals are compared as numbers if both can be brought to the larger of their scales within
sixteen bytes, and byte by byte if not.  So there are two rules, and which of them holds depends on
the pair.

* `ScaledInt.value`, `ScaledInt.Meets` — the number that a decimal stands for, and whether two
  decimals can be brought to one scale;
* `order_decimal_of_meets`, `order_decimal_of_not` — the two rules;
* `order_decimal_trans` — three values are compared transitively if one rule compares them all;
* `decimals_preorder` — a narrow range of scales and sizes is preordered, by the numbers;
* `not_preorder_of_apart`, `not_preorder_of_wide` — a wide one is not: its two ends are compared byte
  by byte, and there is a decimal in between that is near to both;
* `decimals_preordered_iff` — **a range is preordered if and only if it is narrow**;
* `decimals_in_circle` — three decimals that run in a circle.
-/

namespace WideColumn

namespace Value

/-! ### Rescaling -/

namespace ScaledInt

/-- The number that a decimal stands for. -/
def value (d : ScaledInt) : ℚ := d.unscaled / 10 ^ d.scale

/-- Both can be brought to the larger of their scales. -/
def Meets (x y : ScaledInt) : Prop :=
  (x.rescale? (max x.scale y.scale)).isSome = true ∧
    (y.rescale? (max x.scale y.scale)).isSome = true

instance (x y : ScaledInt) : Decidable (x.Meets y) :=
  inferInstanceAs (Decidable (_ ∧ _))

theorem Meets.symm {x y : ScaledInt} (h : x.Meets y) : y.Meets x := by
  unfold Meets
  rw [max_comm]
  exact ⟨h.2, h.1⟩

theorem fitsSixteenBytes_iff {n : Int} :
    fitsSixteenBytes n = true ↔ -2 ^ 127 ≤ n ∧ n < 2 ^ 127 := by
  unfold fitsSixteenBytes
  rw [Bool.and_eq_true, decide_eq_true_iff, decide_eq_true_iff]
  norm_num

/-- What a decimal is brought to. -/
theorem rescale?_eq_some_iff {d : ScaledInt} {target m : Int} :
    d.rescale? target = some m ↔
      (target - d.scale).toNat ≤ 38 ∧ m = 10 ^ (target - d.scale).toNat * d.unscaled ∧
        fitsSixteenBytes m = true := by
  unfold rescale?
  simp only [Nat.pow_eq]
  push_cast
  constructor
  · intro h
    split at h
    · cases h
    · split at h
      · rename_i hshift hfits
        cases h
        exact ⟨Nat.le_of_not_lt hshift, rfl, hfits⟩
      · cases h
  · rintro ⟨hshift, rfl, hfits⟩
    rw [if_neg (Nat.not_lt.2 hshift), if_pos hfits]

/-- Bringing a decimal to a larger scale does not change its number. -/
theorem value_of_rescale? {d : ScaledInt} {target m : Int} (hscale : d.scale ≤ target)
    (h : d.rescale? target = some m) : d.value = m / 10 ^ target := by
  obtain ⟨-, rfl, -⟩ := rescale?_eq_some_iff.1 h
  have hshift : ((target - d.scale).toNat : Int) = target - d.scale :=
    Int.toNat_of_nonneg (by omega)
  have hpow : (10 : ℚ) ^ target = 10 ^ (target - d.scale).toNat * 10 ^ d.scale := by
    rw [← zpow_natCast, ← zpow_add₀ (by norm_num), hshift, sub_add_cancel]
  unfold value
  rw [hpow]
  push_cast
  field_simp

/-- No power of ten above the thirty-eighth is small enough. -/
theorem exponent_le {shift n : Nat} (hn : 0 < n) (h : 10 ^ shift * n < 2 ^ 127) : shift ≤ 38 := by
  by_contra hlarge
  have hpow : 10 ^ 39 ≤ 10 ^ shift := Nat.pow_le_pow_right (by norm_num) (by omega)
  have hproduct : 10 ^ shift * 1 ≤ 10 ^ shift * n := Nat.mul_le_mul_left _ hn
  omega

/-- A decimal that is small enough can be brought to a larger scale. -/
theorem rescale?_isSome {d : ScaledInt} {target : Int} {shift bound : Nat} (hbound : 0 < bound)
    (hshift : (target - d.scale).toNat ≤ shift) (hd : d.unscaled.natAbs ≤ bound)
    (h : 10 ^ shift * bound < 2 ^ 127) : (d.rescale? target).isSome = true := by
  have hproduct : 10 ^ (target - d.scale).toNat * d.unscaled.natAbs ≤ 10 ^ shift * bound :=
    Nat.mul_le_mul (Nat.pow_le_pow_right (by norm_num) hshift) hd
  refine Option.isSome_iff_exists.2 ⟨_, rescale?_eq_some_iff.2
    ⟨hshift.trans (exponent_le hbound h), rfl, fitsSixteenBytes_iff.2 ?_⟩⟩
  have habs : (10 ^ (target - d.scale).toNat * d.unscaled).natAbs < 2 ^ 127 := by
    rw [Int.natAbs_mul, Int.natAbs_pow]
    exact lt_of_le_of_lt hproduct h
  omega

/-- **Whether a decimal other than zero can be brought to a larger scale.**  On either side of zero
the same numbers can: `2 ^ 127` itself, which would only fit below zero, is no multiple of ten. -/
theorem rescale?_isSome_iff {d : ScaledInt} {target : Int} (hne : d.unscaled ≠ 0)
    (hd : d.unscaled.natAbs < 2 ^ 127) :
    (d.rescale? target).isSome = true ↔
      10 ^ (target - d.scale).toNat * d.unscaled.natAbs < 2 ^ 127 := by
  refine ⟨fun h => ?_, rescale?_isSome (Int.natAbs_pos.2 hne) le_rfl le_rfl⟩
  obtain ⟨m, hm⟩ := Option.isSome_iff_exists.1 h
  obtain ⟨-, hproduct, hfits⟩ := rescale?_eq_some_iff.1 hm
  rw [fitsSixteenBytes_iff] at hfits
  have habs : m.natAbs = 10 ^ (target - d.scale).toNat * d.unscaled.natAbs := by
    rw [hproduct, Int.natAbs_mul, Int.natAbs_pow]
    rfl
  rw [← habs]
  cases hshift : (target - d.scale).toNat with
  | zero =>
    rw [hshift, pow_zero, one_mul] at habs
    rwa [habs]
  | succ shift =>
    rw [hshift, pow_succ', mul_assoc] at habs
    generalize 10 ^ shift * d.unscaled.natAbs = rest at habs
    omega

end ScaledInt

/-! ### Decimals as bytes -/

theorem compare_div {c : ℚ} (hc : 0 < c) (m n : Int) :
    compare ((m : ℚ) / c) (n / c) = compare m n := by
  have hmono : StrictMono fun n : Int => (n : ℚ) / c := fun m n h =>
    div_lt_div_of_pos_right (by exact_mod_cast h) hc
  rw [← cmp_eq_compare, ← cmp_eq_compare]
  exact hmono.cmp_map_eq m n

/-- The two are decimals that are compared as numbers. -/
def ComparedAsNumbers (a b : Bytes) : Prop :=
  ∃ x y, scaledInt? a = some x ∧ scaledInt? b = some y ∧ x.Meets y

theorem orderDecimal_of_meets {a b : Bytes} {x y : ScaledInt} (hx : scaledInt? a = some x)
    (hy : scaledInt? b = some y) (h : x.Meets y) :
    orderDecimal a b = compare x.value y.value := by
  obtain ⟨m, hm⟩ := Option.isSome_iff_exists.1 h.1
  obtain ⟨n, hn⟩ := Option.isSome_iff_exists.1 h.2
  rw [ScaledInt.value_of_rescale? (le_max_left _ _) hm,
    ScaledInt.value_of_rescale? (le_max_right _ _) hn, compare_div (by positivity)]
  unfold orderDecimal
  rw [hx, hy]
  simp only
  rw [hm, hn]

theorem orderDecimal_of_not {a b : Bytes} (h : ¬ComparedAsNumbers a b) :
    orderDecimal a b = Bytes.order a b := by
  unfold orderDecimal
  split
  · rename_i x y hx hy
    simp only
    split
    · rename_i m n hm hn
      exact absurd ⟨x, y, hx, hy, by rw [hm]; rfl, by rw [hn]; rfl⟩ h
    · rfl
  · rfl

/-! ### Spelled decimals -/

namespace ScaledInt

/-- A decimal with its scale in four bytes and its unscaled integer in sixteen. -/
def spell (d : ScaledInt) : Bytes :=
  Bytes.twosComplement 4 d.scale ++ Bytes.twosComplement 16 d.unscaled

/-- The decimal has bytes. -/
structure IsStorable (d : ScaledInt) : Prop where
  scale_lower : -2 ^ 31 ≤ d.scale
  scale_upper : d.scale < 2 ^ 31
  unscaled : d.unscaled.natAbs < 2 ^ 127

theorem scaledInt?_spell {d : ScaledInt} (h : d.IsStorable) : scaledInt? d.spell = some d := by
  have hlength : ¬d.spell.length < 5 := by simp [spell]
  have htake : d.spell.take 4 = Bytes.twosComplement 4 d.scale :=
    List.take_left' (Bytes.twosComplement_length 4 _)
  have hdrop : d.spell.drop 4 = Bytes.twosComplement 16 d.unscaled :=
    List.drop_left' (Bytes.twosComplement_length 4 _)
  have hvarint : varint? (Bytes.twosComplement 16 d.unscaled) = some d.unscaled := by
    unfold varint?
    rw [if_neg, Bytes.signed_twosComplement (by norm_num)]
    · have := h.unscaled
      norm_num at this ⊢
      omega
    · have := h.unscaled
      norm_num at this ⊢
      omega
    · rw [Bytes.twosComplement_length, not_or]
      exact ⟨List.ne_nil_of_length_pos (by rw [Bytes.twosComplement_length]; omega), by omega⟩
  have hscale : Bytes.signed (Bytes.twosComplement 4 d.scale) = d.scale := by
    have := h.scale_lower
    have := h.scale_upper
    exact Bytes.signed_twosComplement (by norm_num) (by norm_num; omega) (by norm_num; omega)
  unfold scaledInt?
  rw [if_neg hlength, htake, hdrop, hvarint, hscale]
  rfl

end ScaledInt

/-- Byte strings with different beginnings of one length are ordered as these. -/
theorem order_append_of_ne {a b : Bytes} (h : a.length = b.length) (hne : Bytes.order a b ≠ .eq)
    (u v : Bytes) : Bytes.order (a ++ u) (b ++ v) = Bytes.order a b := by
  induction a generalizing b with
  | nil =>
    obtain rfl := List.length_eq_zero_iff.1 h.symm
    exact absurd rfl hne
  | cons x a ih =>
    obtain ⟨y, b, rfl⟩ := List.exists_cons_of_length_eq_add_one h.symm
    have hcons (u v : Bytes) : Bytes.order (x :: u) (y :: v) =
        (compare x y).then (Bytes.order u v) := List.compare_cons_cons
    rw [hcons] at hne ⊢
    rw [List.cons_append, List.cons_append, hcons]
    cases hxy : compare x y with
    | lt | gt => rfl
    | eq =>
      rw [hxy] at hne
      exact ih (Nat.succ.inj h) hne

/-- Of two scales the smaller one comes first in bytes, unless it alone is negative. -/
theorem order_spell {x y : ScaledInt} (hx : x.IsStorable) (hy : y.IsStorable)
    (hlt : x.scale < y.scale) :
    Bytes.order x.spell y.spell = if x.scale < 0 ∧ 0 ≤ y.scale then .gt else .lt := by
  have hscales : Bytes.order (Bytes.twosComplement 4 x.scale) (Bytes.twosComplement 4 y.scale) =
      if x.scale < 0 ∧ 0 ≤ y.scale then .gt else .lt := by
    have hux := Bytes.unsigned_twosComplement 4 x.scale
    have huy := Bytes.unsigned_twosComplement 4 y.scale
    have := hx.scale_lower
    have := hy.scale_upper
    rw [Bytes.order_eq_compare_unsigned (by simp)]
    norm_num at hux huy this
    split
    · exact Nat.compare_eq_gt.2 (by omega)
    · exact Nat.compare_eq_lt.2 (by omega)
  unfold ScaledInt.spell
  rw [order_append_of_ne (by simp), hscales]
  rw [hscales]
  split <;> nofun

end Value

open Value

namespace ColumnType

/-! ### The order of decimals -/

theorem ne_nil_of_scaledInt? {a : Bytes} {x : ScaledInt} (h : scaledInt? a = some x) : a ≠ [] := by
  rintro rfl
  cases h

theorem order_decimal_of_meets {a b : Bytes} {x y : ScaledInt} (hx : scaledInt? a = some x)
    (hy : scaledInt? b = some y) (h : x.Meets y) :
    (scalar .decimal).order a b = compare x.value y.value := by
  rw [← orderDecimal_of_meets hx hy h]
  obtain ⟨_, _, rfl⟩ := List.exists_cons_of_ne_nil (ne_nil_of_scaledInt? hx)
  obtain ⟨_, _, rfl⟩ := List.exists_cons_of_ne_nil (ne_nil_of_scaledInt? hy)
  rfl

/-- What is not compared as numbers is compared byte by byte, the empty value included. -/
theorem order_decimal_of_not {a b : Bytes} (h : ¬ComparedAsNumbers a b) :
    (scalar .decimal).order a b = Bytes.order a b := by
  have hdecimal := orderDecimal_of_not h
  cases a with
  | nil => cases b <;> rfl
  | cons x a =>
    cases b with
    | nil => rfl
    | cons y b => exact hdecimal

/-- **Three values are compared transitively if one rule compares them all**, as numbers or byte by
byte. -/
theorem order_decimal_trans {a b c : Bytes}
    (hrule : (ComparedAsNumbers a b ∧ ComparedAsNumbers b c ∧ ComparedAsNumbers a c) ∨
      (¬ComparedAsNumbers a b ∧ ¬ComparedAsNumbers b c ∧ ¬ComparedAsNumbers a c))
    (hab : ((scalar .decimal).order a b).isLE = true)
    (hbc : ((scalar .decimal).order b c).isLE = true) :
    ((scalar .decimal).order a c).isLE = true := by
  rcases hrule with ⟨⟨x, y, hx, hy, hxy⟩, ⟨y', z, hy', hz, hyz⟩, ⟨x', z', hx', hz', hxz⟩⟩ |
    ⟨hnot, hnot', hnot''⟩
  · obtain rfl : y = y' := Option.some.inj (hy.symm.trans hy')
    obtain rfl : x = x' := Option.some.inj (hx.symm.trans hx')
    obtain rfl : z = z' := Option.some.inj (hz.symm.trans hz')
    rw [order_decimal_of_meets hx hy hxy] at hab
    rw [order_decimal_of_meets hy hz hyz] at hbc
    rw [order_decimal_of_meets hx hz hxz]
    exact Std.TransOrd.isLE_trans hab hbc
  · rw [order_decimal_of_not hnot] at hab
    rw [order_decimal_of_not hnot'] at hbc
    rw [order_decimal_of_not hnot'']
    exact bytes_preorder.trans a b c (p := fun _ => True) trivial trivial trivial hab hbc

/-! ### Ranges of decimals -/

/-- The decimals with a scale between two bounds and an unscaled integer of at most a given size, in
all spellings, and the empty value. -/
def DecimalsWithin (lo hi : Int) (bound : Nat) (a : Bytes) : Prop :=
  a = [] ∨ ∃ d, scaledInt? a = some d ∧ lo ≤ d.scale ∧ d.scale ≤ hi ∧ d.unscaled.natAbs ≤ bound

variable {lo hi : Int} {bound : Nat}

/-- In a narrow range all decimals are compared as numbers. -/
theorem meets_of_narrow (hbound : 0 < bound) (h : 10 ^ (hi - lo).toNat * bound < 2 ^ 127)
    {x y : ScaledInt} (hx : lo ≤ x.scale ∧ x.scale ≤ hi ∧ x.unscaled.natAbs ≤ bound)
    (hy : lo ≤ y.scale ∧ y.scale ≤ hi ∧ y.unscaled.natAbs ≤ bound) : x.Meets y :=
  ⟨ScaledInt.rescale?_isSome hbound (by omega) hx.2.2 h,
    ScaledInt.rescale?_isSome hbound (by omega) hy.2.2 h⟩

/-- **A narrow range is preordered**, by the numbers that the decimals stand for. -/
theorem decimals_preorder (hbound : 0 < bound) (h : 10 ^ (hi - lo).toNat * bound < 2 ^ 127) :
    PreorderOn (DecimalsWithin lo hi bound) (scalar .decimal).order := by
  show PreorderOn _ fun a b => emptyFirst a b (orderDecimal a b)
  refine emptyFirst_preorder (.of_key (fun a => ((scaledInt? a).map ScaledInt.value).getD 0)
    fun a b ha hb => ?_)
  obtain ⟨x, hx, hxrange⟩ := ha.1.resolve_left ha.2
  obtain ⟨y, hy, hyrange⟩ := hb.1.resolve_left hb.2
  rw [orderDecimal_of_meets hx hy (meets_of_narrow hbound h hxrange hyrange), hx, hy]
  rfl

/-! ### Wide ranges -/

/-- The decimal of a sign, a scale and a size. -/
def signedDecimal (negative : Bool) (scale : Int) (size : Nat) : ScaledInt :=
  ⟨scale, if negative then -size else size⟩

theorem natAbs_signedDecimal (negative : Bool) (scale : Int) (size : Nat) :
    (signedDecimal negative scale size).unscaled.natAbs = size := by
  cases negative <;> simp [signedDecimal]

theorem signedDecimal_isStorable (negative : Bool) {scale : Int} {size : Nat}
    (hlower : -2 ^ 31 ≤ scale) (hupper : scale < 2 ^ 31) (hsize : size < 2 ^ 127) :
    (signedDecimal negative scale size).IsStorable :=
  ⟨hlower, hupper, by rwa [natAbs_signedDecimal]⟩

/-- Whether two decimals of one sign are compared as numbers. -/
theorem signedDecimal_meets_iff (negative : Bool) {s t : Int} {m n : Nat} (hst : s ≤ t)
    (hm : 0 < m) (hm' : m < 2 ^ 127) (hn : 0 < n) (hn' : n < 2 ^ 127) :
    (signedDecimal negative s m).Meets (signedDecimal negative t n) ↔
      10 ^ (t - s).toNat * m < 2 ^ 127 := by
  have hmax : max (signedDecimal negative s m).scale (signedDecimal negative t n).scale = t :=
    max_eq_right hst
  have hne {scale : Int} {size : Nat} (hsize : 0 < size) :
      (signedDecimal negative scale size).unscaled ≠ 0 := by
    rw [← Int.natAbs_pos, natAbs_signedDecimal]
    exact hsize
  unfold ScaledInt.Meets
  rw [hmax, ScaledInt.rescale?_isSome_iff (hne hm) (by rwa [natAbs_signedDecimal]),
    ScaledInt.rescale?_isSome_iff (hne hn) (by rwa [natAbs_signedDecimal]), natAbs_signedDecimal,
    natAbs_signedDecimal]
  show _ ∧ 10 ^ (t - t).toNat * n < 2 ^ 127 ↔ _
  rw [sub_self, Int.toNat_zero, pow_zero, one_mul]
  exact and_iff_left hn'

/-- The one with the smaller scale and the larger size is farther from zero. -/
theorem signedDecimal_value_le {s t : Int} {m n : Nat} (hst : s ≤ t) (hmn : n ≤ m) :
    (signedDecimal false t n).value ≤ (signedDecimal false s m).value ∧
      (signedDecimal true s m).value ≤ (signedDecimal true t n).value := by
  have hpow : (10 : ℚ) ^ s ≤ 10 ^ t := zpow_le_zpow_right₀ (by norm_num) hst
  have hle : (n : ℚ) / 10 ^ t ≤ m / 10 ^ s :=
    div_le_div₀ (by positivity) (by exact_mod_cast hmn) (by positivity) hpow
  unfold ScaledInt.value signedDecimal
  constructor
  · simpa using hle
  · simp only [if_true]
    push_cast
    rw [neg_div, neg_div]
    exact neg_le_neg hle

/-- Near decimals are ordered as their numbers. -/
theorem order_spell_isLE {x y : ScaledInt} (hx : x.IsStorable) (hy : y.IsStorable)
    (hmeets : x.Meets y) (hle : x.value ≤ y.value) :
    ((scalar .decimal).order x.spell y.spell).isLE = true := by
  rw [order_decimal_of_meets (ScaledInt.scaledInt?_spell hx) (ScaledInt.scaledInt?_spell hy) hmeets]
  exact Ordering.isLE_iff_ne_gt.2 (compare_le_iff_le.2 hle)

/-- **Two decimals that are too far apart break transitivity** if there is one in between that is
near to both.  It has their sign, and the sign is the one for which their bytes are in the wrong
order. -/
theorem not_preorder_of_apart {p : Bytes → Prop} {s t : Int} {n : Nat} (hlower : -2 ^ 31 ≤ lo)
    (hls : lo ≤ s) (hst : s ≤ t) (hlt : lo < t) (hupper : t < 2 ^ 31) (hn : 0 < n)
    (hn' : n < 2 ^ 127) (hnear : 10 ^ (s - lo).toNat * n < 2 ^ 127)
    (hnear' : 10 ^ (t - s).toNat * 1 < 2 ^ 127) (hfar : ¬10 ^ (t - lo).toNat * n < 2 ^ 127)
    (hp : ∀ negative, p (signedDecimal negative lo n).spell ∧
      p (signedDecimal negative s 1).spell ∧ p (signedDecimal negative t 1).spell) :
    ¬PreorderOn p (scalar .decimal).order := by
  intro h
  have hone : 1 < 2 ^ 127 := by norm_num
  have hx (negative : Bool) : (signedDecimal negative lo n).IsStorable :=
    signedDecimal_isStorable negative hlower (by omega) hn'
  have hy (negative : Bool) : (signedDecimal negative s 1).IsStorable :=
    signedDecimal_isStorable negative (by omega) (by omega) hone
  have hz (negative : Bool) : (signedDecimal negative t 1).IsStorable :=
    signedDecimal_isStorable negative (by omega) hupper hone
  have hxy (negative : Bool) : (signedDecimal negative lo n).Meets (signedDecimal negative s 1) :=
    (signedDecimal_meets_iff negative hls hn hn' one_pos hone).2 hnear
  have hyz (negative : Bool) : (signedDecimal negative s 1).Meets (signedDecimal negative t 1) :=
    (signedDecimal_meets_iff negative hst one_pos hone one_pos hone).2 hnear'
  -- The two outer ones are compared byte by byte.
  have hxz (negative : Bool) : (scalar .decimal).order (signedDecimal negative lo n).spell
      (signedDecimal negative t 1).spell = if lo < 0 ∧ 0 ≤ t then .gt else .lt := by
    rw [order_decimal_of_not, order_spell (hx negative) (hz negative) hlt]
    · rfl
    · rintro ⟨x, z, hx', hz', hmeets⟩
      rw [ScaledInt.scaledInt?_spell (hx negative)] at hx'
      rw [ScaledInt.scaledInt?_spell (hz negative)] at hz'
      cases hx'
      cases hz'
      exact hfar ((signedDecimal_meets_iff negative hlt.le hn hn' one_pos hone).1 hmeets)
  by_cases hsigns : lo < 0 ∧ 0 ≤ t
  · obtain ⟨hpx, hpy, hpz⟩ := hp true
    have hle := h.trans _ _ _ hpx hpy hpz
      (order_spell_isLE (hx true) (hy true) (hxy true) (signedDecimal_value_le hls hn).2)
      (order_spell_isLE (hy true) (hz true) (hyz true) (signedDecimal_value_le hst le_rfl).2)
    rw [hxz true, if_pos hsigns] at hle
    cases hle
  · obtain ⟨hpx, hpy, hpz⟩ := hp false
    have hle := h.trans _ _ _ hpz hpy hpx
      (order_spell_isLE (hz false) (hy false) (hyz false).symm
        (signedDecimal_value_le hst le_rfl).1)
      (order_spell_isLE (hy false) (hx false) (hxy false).symm
        (signedDecimal_value_le hls hn).1)
    rw [order_swap, hxz false, if_neg hsigns] at hle
    cases hle

/-- Spelled decimals within the bounds are in the range. -/
theorem decimalsWithin_spell {d : ScaledInt} (h : d.IsStorable) (hlo : lo ≤ d.scale)
    (hhi : d.scale ≤ hi) (hsize : d.unscaled.natAbs ≤ bound) : DecimalsWithin lo hi bound d.spell :=
  .inr ⟨d, ScaledInt.scaledInt?_spell h, hlo, hhi, hsize⟩

/-- **A wide range is not preordered.** -/
theorem not_preorder_of_wide (hlower : -2 ^ 31 ≤ lo) (hupper : hi < 2 ^ 31) (hlohi : lo ≤ hi)
    (hbound : 0 < bound) (hbound' : bound < 2 ^ 127)
    (h : ¬10 ^ (hi - lo).toNat * bound < 2 ^ 127) :
    ¬PreorderOn (DecimalsWithin lo hi bound) (scalar .decimal).order := by
  have hwithin {negative : Bool} {scale : Int} {size : Nat} (hlo : lo ≤ scale) (hhi : scale ≤ hi)
      (hsize : size ≤ bound) : DecimalsWithin lo hi bound (signedDecimal negative scale size).spell :=
    decimalsWithin_spell (signedDecimal_isStorable negative (by omega) (by omega) (by omega)) hlo hhi
      (by rwa [natAbs_signedDecimal])
  have hlt : lo < hi := by
    refine lt_of_le_of_ne hlohi ?_
    rintro rfl
    rw [sub_self, Int.toNat_zero, pow_zero, one_mul] at h
    exact h hbound'
  by_cases hwidth : (hi - lo).toNat ≤ 38
  · -- One is near to the largest one, which has its scale, and to the smallest one.
    refine not_preorder_of_apart (s := lo) (t := hi) (n := bound) hlower le_rfl hlohi hlt hupper
      hbound hbound' ?_ ?_ h fun negative => ⟨hwithin le_rfl hlohi le_rfl,
        hwithin le_rfl hlohi hbound, hwithin hlohi le_rfl hbound⟩
    · rwa [sub_self, Int.toNat_zero, pow_zero, one_mul]
    · have hpow : 10 ^ (hi - lo).toNat ≤ 10 ^ 38 := Nat.pow_le_pow_right (by norm_num) hwidth
      rw [mul_one]
      exact lt_of_le_of_lt hpow (by norm_num)
  · -- One at the scales 0, 19 and 39 above the smallest scale.
    have hshift (k : Nat) (l : Int) : (l + k - l).toNat = k := by omega
    refine not_preorder_of_apart (s := lo + (19 : Nat)) (t := lo + (19 : Nat) + (20 : Nat))
      (n := 1) hlower (by omega) (by omega) (by omega) (by omega) one_pos (by norm_num) ?_ ?_ ?_
      fun negative => ⟨hwithin le_rfl hlohi hbound, hwithin (by omega) (by omega) hbound,
        hwithin (by omega) (by omega) hbound⟩
    · rw [hshift]
      norm_num
    · rw [hshift]
      norm_num
    · rw [show lo + (19 : Nat) + (20 : Nat) - lo = lo + (39 : Nat) - lo by omega, hshift]
      norm_num

/-! ### When decimals are preordered -/

/-- **When decimals are preordered.**  No two are told apart in one direction only.  Two decimals that
can be brought to one scale are compared as the numbers that they stand for, and three values of which
all pairs are compared so, or none, are compared transitively.  A range of scales and sizes is
preordered if and only if its largest integer can be brought from its smallest scale to its largest
one. -/
theorem decimals_preordered_iff (lo hi : Int) (bound : Nat) :
    (∀ a b, (scalar .decimal).order b a = ((scalar .decimal).order a b).swap) ∧
    (∀ a b x y, scaledInt? a = some x → scaledInt? b = some y → x.Meets y →
      (scalar .decimal).order a b = compare x.value y.value) ∧
    (∀ a b c, (ComparedAsNumbers a b ∧ ComparedAsNumbers b c ∧ ComparedAsNumbers a c) ∨
        (¬ComparedAsNumbers a b ∧ ¬ComparedAsNumbers b c ∧ ¬ComparedAsNumbers a c) →
      ((scalar .decimal).order a b).isLE = true → ((scalar .decimal).order b c).isLE = true →
      ((scalar .decimal).order a c).isLE = true) ∧
    (-2 ^ 31 ≤ lo → lo ≤ hi → hi < 2 ^ 31 → hi - lo < 2 ^ 31 → 0 < bound → bound < 2 ^ 127 →
      (PreorderOn (DecimalsWithin lo hi bound) (scalar .decimal).order ↔
        10 ^ (hi - lo).toNat * bound < 2 ^ 127)) := by
  refine ⟨order_swap _, fun a b x y => order_decimal_of_meets, fun a b c => order_decimal_trans, ?_⟩
  intro hlower hlohi hupper _ hbound hbound'
  refine ⟨fun h => ?_, decimals_preorder hbound⟩
  by_contra hwide
  exact not_preorder_of_wide hlower hupper hlohi hbound hbound' hwide h

/-- Prices with eighteen digits are preordered up to the scale 20, and no farther. -/
theorem decimals_preordered_prices :
    (scalar .decimal).order [0, 0, 0, 1, 15] [0, 0, 0, 2, 125] =
      compare (ScaledInt.value ⟨1, 15⟩) (ScaledInt.value ⟨2, 125⟩) ∧
    (scalar .decimal).order [0, 0, 0, 2, 125] [0, 0, 0, 1, 15] = .lt ∧
    ((scalar .decimal).order [0, 0, 0, 2, 125] [0, 0, 0, 0, 2]).isLE = true ∧
    PreorderOn (DecimalsWithin 0 20 (10 ^ 18)) (scalar .decimal).order ∧
    ¬PreorderOn (DecimalsWithin 0 21 (10 ^ 18)) (scalar .decimal).order := by
  obtain ⟨hswap, hnumbers, htrans, hnarrow⟩ := decimals_preordered_iff 0 20 (10 ^ 18)
  obtain ⟨-, -, -, hwide⟩ := decimals_preordered_iff 0 21 (10 ^ 18)
  have hfirst : scaledInt? [0, 0, 0, 1, 15] = some ⟨1, 15⟩ := by decide
  have hsecond : scaledInt? [0, 0, 0, 2, 125] = some ⟨2, 125⟩ := by decide
  have hthird : scaledInt? [0, 0, 0, 0, 2] = some ⟨0, 2⟩ := by decide
  have hgt : (scalar .decimal).order [0, 0, 0, 1, 15] [0, 0, 0, 2, 125] = .gt := by decide
  have hlt : (scalar .decimal).order [0, 0, 0, 2, 125] [0, 0, 0, 1, 15] = .lt := by
    rw [hswap, hgt]
    rfl
  have hle : ((scalar .decimal).order [0, 0, 0, 2, 125] [0, 0, 0, 0, 2]).isLE = true :=
    htrans _ [0, 0, 0, 1, 15] _ (.inl ⟨⟨_, _, hsecond, hfirst, by decide⟩,
      ⟨_, _, hfirst, hthird, by decide⟩, ⟨_, _, hsecond, hthird, by decide⟩⟩)
      (by rw [hlt]; rfl) (by decide)
  exact ⟨hnumbers _ _ _ _ hfirst hsecond (by decide), hlt, hle,
    (hnarrow (by norm_num) (by norm_num) (by norm_num) (by norm_num) (by norm_num)
      (by norm_num)).2 (by decide),
    fun h => absurd ((hwide (by norm_num) (by norm_num) (by norm_num) (by norm_num)
      (by norm_num) (by norm_num)).1 h) (by decide)⟩

/-- **Decimals run in a circle**: one at the scales 40, 20 and 0.  The first and the last one are too
far apart to be compared as numbers, and their bytes are in the wrong order. -/
theorem decimals_in_circle :
    ∃ a b c x y z, (∀ v ∈ [a, b, c], (scalar .decimal).validate v = .ok ()) ∧
      scaledInt? a = some x ∧ scaledInt? b = some y ∧ scaledInt? c = some z ∧
      (∀ d ∈ [x, y, z], ∀ e ∈ [x, y, z], |d.scale - e.scale| < 2 ^ 31) ∧
      (scalar .decimal).order a b = .lt ∧ (scalar .decimal).order b c = .lt ∧
      (scalar .decimal).order a c = .gt := by
  refine ⟨[0, 0, 0, 40, 1], [0, 0, 0, 20, 1], [0, 0, 0, 0, 1], ⟨40, 1⟩, ⟨20, 1⟩, ⟨0, 1⟩, by decide,
    by decide, by decide, by decide, ?_, by decide +kernel, by decide +kernel, by decide +kernel⟩
  decide

end ColumnType

end WideColumn
