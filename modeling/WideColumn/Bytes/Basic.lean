/-!
# Byte strings and the integers they spell

Everything the engine stores is a byte string: values, keys, cell names.  A byte string is a
list of bytes, so that functions on it recurse on its structure; its order is the
lexicographic order that lists inherit from bytes.

* `unsigned` and `signed` read a byte string as a big-endian integer, the second one in
  two's complement;
* `bigEndian` and `littleEndian` write a number at a fixed width.
-/

namespace WideColumn

/-- A stored byte string. -/
abbrev Bytes := List UInt8

namespace Bytes

/-! ### Reading integers -/

/-- The number that the bytes spell, most significant byte first. -/
def unsigned (bytes : Bytes) : Nat :=
  bytes.foldl (fun n b => n * 256 + b.toNat) 0

/-- Is the most significant bit set? -/
def isNegative : Bytes → Bool
  | [] => false
  | b :: _ => 128 ≤ b.toNat

/-- The integer that the bytes spell in two's complement, most significant byte first. -/
def signed (bytes : Bytes) : Int :=
  if isNegative bytes then (unsigned bytes : Int) - (Nat.pow 256 bytes.length : Nat)
  else unsigned bytes

/-! ### Writing integers -/

/-- The lowest `width` bytes of `n`, least significant byte first. -/
def littleEndian : (width : Nat) → (n : Nat) → Bytes
  | 0, _ => []
  | width + 1, n => n.toUInt8 :: littleEndian width (n / 256)

/-- The lowest `width` bytes of `n`, most significant byte first. -/
def bigEndian (width n : Nat) : Bytes :=
  (littleEndian width n).reverse

theorem littleEndian_length (width n : Nat) : (littleEndian width n).length = width := by
  induction width generalizing n with
  | zero => rfl
  | succ w ih => simp [littleEndian, ih]

theorem bigEndian_length (width n : Nat) : (bigEndian width n).length = width := by
  simp [bigEndian, littleEndian_length]

/-! ### Order -/

/-- Compares byte strings byte by byte; a strict beginning sorts first. -/
def order (a b : Bytes) : Ordering := compare a b

end Bytes

end WideColumn
