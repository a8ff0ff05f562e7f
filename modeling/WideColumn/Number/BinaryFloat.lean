/-!
# Binary floating-point numbers and their shortest decimal

A floating-point number is given by its bits in one of the two interchange formats,
`binary32` and `binary64`.

* `orderKey` orders all bit patterns: the negative ones by falling magnitude, then the others
  by rising magnitude, so that minus zero comes before zero and the NaNs stand outside the
  infinities on the side of their sign;
* `shortest?` finds the decimal with the fewest digits among those that round to the number,
  and of these the nearest to it;
* `toText` writes that decimal with a point and without an exponent.

The search works on exact integers.  Grids of powers of ten are tried from coarse to fine,
and on each grid the two neighbours of the number.
-/

namespace WideColumn.Number

/-- The widths of the exponent and of the fraction of an interchange format. -/
structure FloatFormat where
  exponentBits : Nat
  fractionBits : Nat
deriving DecidableEq, Repr

/-- The format of four bytes. -/
def binary32 : FloatFormat := ⟨8, 23⟩

/-- The format of eight bytes. -/
def binary64 : FloatFormat := ⟨11, 52⟩

/-- The numbers `significand · 2 ^ exponent`. -/
structure Dyadic where
  significand : Nat
  exponent : Int
deriving DecidableEq, Repr

/-- The numbers `digits · 10 ^ exponent`. -/
structure Decimal where
  digits : Nat
  exponent : Int
deriving DecidableEq, Repr

namespace FloatFormat

/-! ### The fields of a bit pattern -/

/-- The largest biased exponent, which infinities and NaNs carry. -/
def topExponent (f : FloatFormat) : Nat := Nat.pow 2 f.exponentBits - 1

/-- The bits below the sign. -/
def magnitude (f : FloatFormat) (bits : Nat) : Nat :=
  bits % Nat.pow 2 (f.exponentBits + f.fractionBits)

/-- The sign bit. -/
def isNegative (f : FloatFormat) (bits : Nat) : Bool :=
  (bits / Nat.pow 2 (f.exponentBits + f.fractionBits)) % 2 = 1

/-- The biased exponent. -/
def biasedExponent (f : FloatFormat) (bits : Nat) : Nat :=
  f.magnitude bits / Nat.pow 2 f.fractionBits

/-- The fraction. -/
def fraction (f : FloatFormat) (bits : Nat) : Nat :=
  bits % Nat.pow 2 f.fractionBits

/-- A key whose integer order is the total order of the bit patterns. -/
def orderKey (f : FloatFormat) (bits : Nat) : Int :=
  if f.isNegative bits then -(f.magnitude bits : Int) - 1 else f.magnitude bits

/-- The magnitude of a finite pattern as significand and exponent. -/
def decode (f : FloatFormat) (bits : Nat) : Dyadic :=
  let bias : Int := (Nat.pow 2 (f.exponentBits - 1) : Nat) - 1
  match f.biasedExponent bits with
  | 0 => ⟨f.fraction bits, 1 - bias - f.fractionBits⟩
  | e + 1 => ⟨Nat.pow 2 f.fractionBits + f.fraction bits, e + 1 - bias - f.fractionBits⟩

end FloatFormat

/-! ### The shortest decimal -/

/-- The numbers that round to a given one.  All are counted in quarters of its last place;
below a power of two the spacing halves, so the lower end lies one quarter away and not
two.  The ends themselves belong to the interval when `closed`. -/
structure Rounding where
  value : Nat
  below : Nat
  above : Nat
  closed : Bool
deriving DecidableEq, Repr

/-- The rounding interval of a significand of a format with `fractionBits` fraction bits. -/
def Rounding.ofSignificand (fractionBits significand : Nat) : Rounding where
  value := 4 * significand
  below := if significand = Nat.pow 2 fractionBits then 1 else 2
  above := 2
  closed := significand % 2 = 0

/-- Does the interval hold the point `point / unit`? -/
def Rounding.contains (r : Rounding) (unit point : Nat) : Bool :=
  if r.closed then (r.value - r.below) * unit ≤ point && point ≤ (r.value + r.above) * unit
  else (r.value - r.below) * unit < point && point < (r.value + r.above) * unit

/-- The multiple of `step / unit` in the interval that lies next to the number: of two the
nearer one, and of two at the same distance the larger one. -/
def Rounding.nearestMultiple? (r : Rounding) (unit step : Nat) : Option Nat :=
  let lower := r.value * unit / step
  let upper := lower + 1
  let hasLower := 0 < lower && r.contains unit (lower * step)
  let hasUpper := r.contains unit (upper * step)
  if hasUpper && (!hasLower || upper * step - r.value * unit ≤ r.value * unit - lower * step) then
    some upper
  else if hasLower then some lower
  else none

/-- Tries the grid of multiples of `10 ^ exponent`, then each finer one, `tries` in all.
The interval is counted in units of `2 ^ power`. -/
def Rounding.search (r : Rounding) (power : Int) :
    (tries : Nat) → (exponent : Int) → Option Decimal
  | 0, _ => none
  | tries + 1, exponent =>
    -- One unit is `2 ^ power`; both it and the step are scaled to whole numbers.
    let unit := Nat.pow 2 power.toNat * Nat.pow 10 (-exponent).toNat
    let step := Nat.pow 10 exponent.toNat * Nat.pow 2 (-power).toNat
    match r.nearestMultiple? unit step with
    | some digits => some ⟨digits, exponent⟩
    | none => r.search power tries (exponent - 1)

/-- The decimal with the fewest digits that rounds to a finite number other than zero. -/
def FloatFormat.shortest? (f : FloatFormat) (bits : Nat) : Option Decimal :=
  let d := f.decode bits
  let r := Rounding.ofSignificand f.fractionBits d.significand
  let top := Nat.pow 2 (f.exponentBits - 1)
  -- A grid above `10 ^ (top / 3)` is coarser than every number, and one of `10 ^ -n` holds
  -- every multiple of `2 ^ -n`.
  r.search (d.exponent - 2) (top / 3 + top + f.fractionBits + 8) (top / 3)

/-! ### Text -/

/-- The digits with a point and no exponent. -/
def Decimal.toText (d : Decimal) : String :=
  let digits := (Nat.toDigits 10 d.digits)
  match d.exponent with
  | .ofNat n => String.ofList (digits ++ List.replicate n '0')
  | .negSucc n =>
    let places := n + 1
    let padded := List.replicate (places + 1 - digits.length) '0' ++ digits
    let whole := padded.length - places
    String.ofList (padded.take whole ++ '.' :: padded.drop whole)

/-- The text of a number: `NaN`, `inf`, or the shortest decimal; minus zero keeps its sign. -/
def FloatFormat.toText (f : FloatFormat) (bits : Nat) : String :=
  let sign := if f.isNegative bits then "-" else ""
  if f.biasedExponent bits = f.topExponent then
    if f.fraction bits = 0 then sign ++ "inf" else "NaN"
  else if f.magnitude bits = 0 then sign ++ "0"
  else
    match f.shortest? bits with
    | some d => sign ++ d.toText
    | none => sign ++ "0"

end WideColumn.Number
