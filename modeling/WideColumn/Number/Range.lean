import WideColumn.Number.BinaryFloat

/-!
# The range of a floating-point format

A decimal can be too large for a format.  Whether it is, is decided on the number that the
format gives it: the digits and the power of ten are rounded by themselves, and then their
product.

* `nearest` rounds a whole number to the significant bits of a format;
* `limit` is the power of two that lies above all finite numbers of the format;
* `holds` says that a decimal rounds to a number below the limit.

In two cases nothing has to be worked out: short numbers are not rounded (`nearest_eq_self`),
and a power of ten above `topPower` is past the limit by itself.
-/

namespace WideColumn.Number.FloatFormat

/-- The whole number nearest to `n` among those with the significant bits of the format; of two
that are equally near, the one that ends in a zero bit. -/
def nearest (f : FloatFormat) (n : Nat) : Nat :=
  let unit := Nat.pow 2 (n.log2 - f.fractionBits)
  let lower := n / unit
  let rest := 2 * (n % unit)
  if unit < rest ∨ unit = rest ∧ lower % 2 = 1 then (lower + 1) * unit else lower * unit

/-- A number with no more bits than the format has is not rounded. -/
theorem nearest_eq_self {f : FloatFormat} {n : Nat} (h : n.log2 ≤ f.fractionBits) :
    f.nearest n = n := by
  simp [nearest, Nat.sub_eq_zero_of_le h, Nat.mod_one]

/-- The power of two above all finite numbers. -/
def limit (f : FloatFormat) : Nat := Nat.pow 2 (Nat.pow 2 (f.exponentBits - 1))

/-- The largest power of ten that has to be compared with the limit.  Higher ones are past it,
because ten is more than `2 ^ 3`. -/
def topPower (f : FloatFormat) : Nat := Nat.pow 2 (f.exponentBits - 1) / 3

/-- Is a decimal in the range of the format?  A negative power of ten does not lead out of the
range, so it is not applied. -/
def holds (f : FloatFormat) (d : Decimal) : Bool :=
  let power := d.exponent.toNat
  d.digits = 0 || power ≤ f.topPower &&
    f.nearest (f.nearest d.digits * f.nearest (Nat.pow 10 power)) < f.limit

end WideColumn.Number.FloatFormat
