import WideColumn.ColumnType.Basic
import WideColumn.Number.BinaryFloat
import WideColumn.Value.Numeric

/-!
# The order of values

`ColumnType.order` compares two values of one type.  The empty value sorts before all
others; a descending type turns everything round, the empty value included.  A value of the
wrong width for its type is compared byte by byte.
-/

namespace WideColumn

namespace Value

/-- Compares by a key where both values have the width of the type, else byte by byte. -/
def orderByKey (width : Nat) (key : Bytes → Int) (a b : Bytes) : Ordering :=
  if a.length = width ∧ b.length = width then compare (key a) (key b) else Bytes.order a b

/-- The place of a bit pattern in the total order of a floating-point format. -/
def floatKey (f : Number.FloatFormat) (bytes : Bytes) : Int :=
  f.orderKey (Bytes.unsigned bytes)

/-- The sixty bits of time in a time-based id, whose lowest part is stored first. -/
def uuidTime (bytes : Bytes) : Nat :=
  let low := Bytes.unsigned (bytes.take 4)
  let mid := Bytes.unsigned ((bytes.drop 4).take 2)
  let high := Bytes.unsigned ((bytes.drop 6).take 2) % 0x1000
  high * 0x1000000000000 + mid * 0x100000000 + low

/-- Compares time-based ids by their time, then byte by byte. -/
def orderTimeUuid (a b : Bytes) : Ordering :=
  if a.length = 16 ∧ b.length = 16 then
    (compare (uuidTime a) (uuidTime b)).then (Bytes.order a b)
  else Bytes.order a b

/-- Sorts the empty value first and leaves the comparison of two others to `other`. -/
def emptyFirst (a b : Bytes) (other : Ordering) : Ordering :=
  match a, b with
  | [], [] => .eq
  | [], _ :: _ => .lt
  | _ :: _, [] => .gt
  | _ :: _, _ :: _ => other

end Value

open Value in
/-- Compares two values of a scalar type, neither of them empty. -/
def ScalarType.order : ScalarType → Bytes → Bytes → Ordering
  | int => orderByKey 4 Bytes.signed
  | bigint | counter | timestamp => orderByKey 8 Bytes.signed
  | double => orderByKey 8 (floatKey Number.binary64)
  | float => orderByKey 4 (floatKey Number.binary32)
  | varint => orderVarint
  | decimal => orderDecimal
  | timeuuid => orderTimeUuid
  | ascii | text | blob | boolean | inet | uuid => Bytes.order

/-- Compares two values of a type. -/
def ColumnType.order : ColumnType → Bytes → Bytes → Ordering
  | descending t, a, b => t.order b a
  | scalar s, a, b => Value.emptyFirst a b (s.order a b)
  | list .., a, b | set .., a, b | map .., a, b => Bytes.order a b

end WideColumn
