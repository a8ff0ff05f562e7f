import WideColumn.Bytes.Basic

/-!
# Integers and decimals of any width

A varint is a big-endian integer in two's complement, as wide as it likes.  A decimal is a
four-byte scale followed by a varint, the unscaled value.  Their arithmetic is bounded: an
integer of more than sixteen bytes is not read, and a rescaled decimal that leaves the range
of sixteen bytes is given up.
-/

namespace WideColumn.Value

/-! ### Integers -/

/-- The integer without the leading bytes that only repeat its sign. -/
def stripSignExtension (negative : Bool) : Bytes → Bytes
  | a :: b :: rest =>
    if a = (if negative then 255 else 0) ∧ decide (128 ≤ b.toNat) = negative then
      stripSignExtension negative (b :: rest)
    else a :: b :: rest
  | bytes => bytes

/-- Compares two integers of any width: by sign, then by the length that is left without
sign extension, where the longer of two negative ones is the smaller, then byte by byte. -/
def orderVarint (a b : Bytes) : Ordering :=
  match Bytes.isNegative a, Bytes.isNegative b with
  | true, false => .lt
  | false, true => .gt
  | negative, _ =>
    let a := stripSignExtension negative a
    let b := stripSignExtension negative b
    let byLength := compare a.length b.length
    (if negative then byLength.swap else byLength).then (Bytes.order a b)

/-- The integer, if it has between one and sixteen bytes. -/
def varint? (bytes : Bytes) : Option Int :=
  if bytes = [] ∨ 16 < bytes.length then none else some (Bytes.signed bytes)

/-! ### Decimals -/

/-- The number `unscaled / 10 ^ scale`. -/
structure ScaledInt where
  scale : Int
  unscaled : Int
deriving DecidableEq, Repr

/-- Reads a decimal. -/
def scaledInt? (bytes : Bytes) : Option ScaledInt :=
  if bytes.length < 5 then none
  else (varint? (bytes.drop 4)).map fun unscaled => ⟨Bytes.signed (bytes.take 4), unscaled⟩

/-- Does the integer fit in sixteen bytes? -/
def fitsSixteenBytes (n : Int) : Bool :=
  -0x80000000000000000000000000000000 ≤ n && n < 0x80000000000000000000000000000000

/-- The unscaled value at the scale `target`, unless the power of ten or the product leaves
the range of sixteen bytes. -/
def ScaledInt.rescale? (target : Int) (d : ScaledInt) : Option Int :=
  let shift := (target - d.scale).toNat
  -- `10 ^ 38` is the largest power of ten below `2 ^ 127`.
  if 38 < shift then none
  else
    let product := ((Nat.pow 10 shift : Nat) : Int) * d.unscaled
    if fitsSixteenBytes product then some product else none

/-- Compares two decimals at the larger of their scales, or byte by byte where one of them
cannot be read or cannot be brought to that scale. -/
def orderDecimal (a b : Bytes) : Ordering :=
  match scaledInt? a, scaledInt? b with
  | some x, some y =>
    let target := max x.scale y.scale
    match x.rescale? target, y.rescale? target with
    | some m, some n => compare m n
    | _, _ => Bytes.order a b
  | _, _ => Bytes.order a b

end WideColumn.Value
