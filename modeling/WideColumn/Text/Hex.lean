import WideColumn.Bytes.Basic

/-!
# Hexadecimal text

Two lower-case digits a byte, the form in which raw bytes are shown and exchanged.
-/

namespace WideColumn.Text.Hex

/-- The lower-case digit of a number below sixteen. -/
def digit (n : Nat) : Char :=
  if n < 10 then Char.ofNat (48 + n) else Char.ofNat (87 + n)

/-- The two digits of a byte. -/
def ofByte (b : UInt8) : List Char :=
  [digit (b.toNat / 16), digit (b.toNat % 16)]

/-- The digits of a byte string. -/
def ofBytes (bytes : Bytes) : String :=
  String.ofList (bytes.flatMap ofByte)

/-- The number of a digit, in either case. -/
def value? (c : Char) : Option Nat :=
  if '0' ≤ c ∧ c ≤ '9' then some (c.toNat - 48)
  else if 'a' ≤ c ∧ c ≤ 'f' then some (c.toNat - 87)
  else if 'A' ≤ c ∧ c ≤ 'F' then some (c.toNat - 55)
  else none

/-- Reads pairs of digits. -/
def bytesOf? : List Char → Option Bytes
  | [] => some []
  | [_] => none
  | hi :: lo :: rest => do
    let h ← value? hi
    let l ← value? lo
    let bytes ← bytesOf? rest
    return (h * 16 + l).toUInt8 :: bytes

/-- The digits of `n` without leading zeros; zero has one digit. -/
def ofNat (n : Nat) : String :=
  String.ofList (Nat.toDigits 16 n)

end WideColumn.Text.Hex
