import Std.Data.String.ToInt
import WideColumn.Proofs.Integers
import WideColumn.Value.Display
import WideColumn.Value.Order

/-!
# Integers of any width as values

The bytes of a varint denote an integer in two's complement.  Which bytes are written in front to
repeat the sign does not matter, neither for the order nor for the text.

* `Bytes.Denotes`, `Bytes.denotes_iff` — the integer that bytes denote is the one that `signed`
  reads;
* `Bytes.signExtend`, `Bytes.signed_signExtend` — the sign repeated in front does not change it;
* `Bytes.twosComplement`, `Bytes.signed_twosComplement` — the bytes of an integer at a width;
* `ColumnType.varints_ordered_as_integers` — **varints are ordered as the integers that they denote,
  and rendered as these** up to sixteen bytes.
-/

namespace WideColumn

namespace Bytes

/-! ### Denoted integers -/

/-- The bytes denote the integer in two's complement: it differs from the number that they spell
without sign by a multiple of the number of all byte strings of their length, and of these byte
strings one half denotes negative integers. -/
structure Denotes (bytes : Bytes) (n : Int) : Prop where
  congruent : (256 ^ bytes.length : Int) ∣ n - unsigned bytes
  lower : -(256 ^ bytes.length) ≤ 2 * n
  upper : 2 * n < 256 ^ bytes.length

theorem denotes_signed {bytes : Bytes} (h : bytes ≠ []) : Denotes bytes (signed bytes) := by
  obtain ⟨x, rest, rfl⟩ := List.exists_cons_of_ne_nil h
  obtain ⟨hlower, hupper⟩ := signed_bounds x rest
  have hpow : (256 : Int) ^ (x :: rest).length = 256 * 256 ^ rest.length := by
    rw [List.length_cons, pow_succ, mul_comm]
  refine ⟨?_, by rw [hpow]; linarith, by rw [hpow]; linarith⟩
  unfold signed
  split
  · refine ⟨-1, ?_⟩
    rw [Nat.pow_eq]
    push_cast
    ring
  · exact ⟨0, by ring⟩

/-- **Bytes denote one integer**, the one that `signed` reads. -/
theorem denotes_iff {bytes : Bytes} (h : bytes ≠ []) {n : Int} :
    Denotes bytes n ↔ n = signed bytes := by
  constructor
  · intro hn
    have hsigned := denotes_signed h
    have hdvd : (256 ^ bytes.length : Int) ∣ n - signed bytes := by
      have hdifference := dvd_sub hn.congruent hsigned.congruent
      rwa [sub_sub_sub_cancel_right] at hdifference
    have hnear : |n - signed bytes| < 256 ^ bytes.length := by
      rw [abs_lt]
      constructor
      · linarith [hn.lower, hsigned.upper]
      · linarith [hn.upper, hsigned.lower]
    have := Int.eq_zero_of_abs_lt_dvd hdvd hnear
    linarith
  · rintro rfl
    exact denotes_signed h

/-! ### Sign extension -/

/-- The bytes with their sign repeated some times in front. -/
def signExtend (times : Nat) (bytes : Bytes) : Bytes :=
  List.replicate times (if isNegative bytes then 255 else 0) ++ bytes

theorem signExtend_succ (times : Nat) (bytes : Bytes) :
    signExtend (times + 1) bytes =
      (if isNegative bytes then 255 else 0) :: signExtend times bytes := by
  unfold signExtend
  rw [List.replicate_succ, List.cons_append]

theorem signExtend_ne_nil {bytes : Bytes} (h : bytes ≠ []) (times : Nat) :
    signExtend times bytes ≠ [] := by
  unfold signExtend
  simp [h]

@[simp] theorem isNegative_signExtend (times : Nat) (bytes : Bytes) :
    isNegative (signExtend times bytes) = isNegative bytes := by
  cases times with
  | zero => rfl
  | succ times =>
    rw [signExtend_succ]
    cases hneg : isNegative bytes <;> rfl

/-- **The sign repeated in front does not change an integer.** -/
theorem signed_signExtend {bytes : Bytes} (h : bytes ≠ []) (times : Nat) :
    signed (signExtend times bytes) = signed bytes := by
  induction times with
  | zero => rfl
  | succ times ih =>
    rw [signExtend_succ, ← ih]
    obtain ⟨b, rest, hextended⟩ := List.exists_cons_of_ne_nil (signExtend_ne_nil h times)
    have hsign : decide (128 ≤ b.toNat) = isNegative bytes := by
      rw [← isNegative_signExtend times, hextended]
      rfl
    rw [hextended]
    exact Value.signed_cons_of_repeats rfl hsign rest

/-! ### Spelling -/

/-- The integer at a width. -/
def twosComplement (width : Nat) (n : Int) : Bytes :=
  bigEndian width (n % 256 ^ width).toNat

@[simp] theorem twosComplement_length (width : Nat) (n : Int) :
    (twosComplement width n).length = width :=
  bigEndian_length _ _

theorem unsigned_bigEndian {width n : Nat} (h : n < 256 ^ width) :
    unsigned (bigEndian width n) = n := by
  induction width generalizing n with
  | zero =>
    obtain rfl : n = 0 := by simpa using h
    rfl
  | succ width ih =>
    have hlast : bigEndian (width + 1) n = bigEndian width (n / 256) ++ [n.toUInt8] := by
      simp [bigEndian, littleEndian]
    have hfirst : n / 256 < 256 ^ width := Nat.div_lt_of_lt_mul (by rwa [← Nat.pow_succ'])
    rw [hlast, unsigned_append_singleton, ih hfirst]
    show n / 256 * 256 + n % 256 = n
    omega

theorem unsigned_twosComplement (width : Nat) (n : Int) :
    (unsigned (twosComplement width n) : Int) = n % 256 ^ width := by
  have hunit : (0 : Int) < 256 ^ width := by positivity
  have hnonneg := Int.emod_nonneg n hunit.ne'
  have hlt := Int.emod_lt_of_pos n hunit
  unfold twosComplement
  rw [unsigned_bigEndian (by zify; rwa [Int.toNat_of_nonneg hnonneg]),
    Int.toNat_of_nonneg hnonneg]

/-- **Every integer in the range of a width is spelled at it.** -/
theorem signed_twosComplement {width : Nat} (hwidth : width ≠ 0) {n : Int}
    (hlower : -(256 ^ width) ≤ 2 * n) (hupper : 2 * n < 256 ^ width) :
    signed (twosComplement width n) = n := by
  have hne : twosComplement width n ≠ [] :=
    List.ne_nil_of_length_pos (by rw [twosComplement_length]; omega)
  refine ((denotes_iff hne).1 ⟨?_, ?_, ?_⟩).symm
  · rw [twosComplement_length, unsigned_twosComplement]
    exact Int.dvd_self_sub_emod
  · rwa [twosComplement_length]
  · rwa [twosComplement_length]

end Bytes

namespace ColumnType

open Bytes

/-! ### Values -/

theorem order_varint {a b : Bytes} (ha : a ≠ []) (hb : b ≠ []) :
    (scalar .varint).order a b = compare (signed a) (signed b) := by
  obtain ⟨x, a, rfl⟩ := List.exists_cons_of_ne_nil ha
  obtain ⟨y, b, rfl⟩ := List.exists_cons_of_ne_nil hb
  exact Value.orderVarint_eq_compare_signed ha hb

theorem display_varint {a : Bytes} (ha : a ≠ []) (hlength : a.length ≤ 16) :
    (scalar .varint).display a = toString (signed a) := by
  have hread : Value.varint? a = some (signed a) :=
    if_neg (not_or.2 ⟨ha, Nat.not_lt.2 hlength⟩)
  show ScalarType.varint.display a = _
  unfold ScalarType.display
  rw [if_neg fun h => ha h.1]
  show ((Value.varint? a).map toString).getD _ = _
  rw [hread]
  rfl

/-- **Varints are ordered as the integers that they denote**, whatever their widths are and however
often the sign is repeated in front; and up to sixteen bytes the text of a varint is that of its
integer, and is read back as this integer. -/
theorem varints_ordered_as_integers {a b : Bytes} (ha : a ≠ []) (hb : b ≠ []) :
    (∃! x, a.Denotes x) ∧ (∃! y, b.Denotes y) ∧
    (∀ x y, a.Denotes x → b.Denotes y → (scalar .varint).order a b = compare x y) ∧
    (∀ m n, (scalar .varint).order (signExtend m a) (signExtend n b) =
      (scalar .varint).order a b) ∧
    (a.length ≤ 16 → ∀ x, a.Denotes x →
      (scalar .varint).display a = toString x ∧ ((scalar .varint).display a).toInt? = some x) := by
  refine ⟨⟨_, denotes_signed ha, fun _ => (denotes_iff ha).1⟩,
    ⟨_, denotes_signed hb, fun _ => (denotes_iff hb).1⟩, fun x y hx hy => ?_, fun m n => ?_,
    fun hlength x hx => ?_⟩
  · rw [(denotes_iff ha).1 hx, (denotes_iff hb).1 hy, order_varint ha hb]
  · rw [order_varint (signExtend_ne_nil ha m) (signExtend_ne_nil hb n), signed_signExtend ha,
      signed_signExtend hb, order_varint ha hb]
  · rw [(denotes_iff ha).1 hx, display_varint ha hlength]
    exact ⟨rfl, Int.toInt?_repr _⟩

/-- Minus 256 in two bytes, and minus one in eighteen. -/
theorem varints_ordered_as_integers_minus_one :
    Denotes [0xff, 0x00] (-256) ∧ Denotes (signExtend 17 [0xff]) (-1) ∧
      (scalar .varint).order [0xff, 0x00] (signExtend 17 [0xff]) = .lt ∧
      (scalar .varint).display [0xff, 0x00] = "-256" := by
  have hwide : (signExtend 17 [0xff]) ≠ [] := signExtend_ne_nil (by decide) 17
  have hleft : Bytes.Denotes [0xff, 0x00] (-256) := (denotes_iff (by decide)).2 (by decide)
  have hright : Bytes.Denotes (signExtend 17 [0xff]) (-1) := by
    rw [denotes_iff hwide, signed_signExtend (by decide)]
    decide
  obtain ⟨-, -, horder, -, htext⟩ := varints_ordered_as_integers (a := [0xff, 0x00]) (by decide) hwide
  exact ⟨hleft, hright, horder _ _ hleft hright, (htext (by decide) _ hleft).1⟩

end ColumnType

end WideColumn
