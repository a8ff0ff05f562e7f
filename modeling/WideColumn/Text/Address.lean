import WideColumn.Bytes.Basic
import WideColumn.Text.Hex

/-!
# Internet addresses as text

Four bytes are written in dotted decimals.  Sixteen bytes are written as eight groups of
hexadecimal digits, with the first of the longest runs of two or more zero groups left out;
an address that maps a four-byte one ends in its dotted form.
-/

namespace WideColumn.Text.Address

/-- Four bytes as dotted decimals. -/
def dotted (bytes : Bytes) : String :=
  ".".intercalate (bytes.map fun b => toString b.toNat)

/-- The sixteen-bit groups of an address. -/
def groups : Bytes → List Nat
  | hi :: lo :: rest => (hi.toNat * 256 + lo.toNat) :: groups rest
  | _ => []

/-- A stretch of groups. -/
structure Run where
  start : Nat
  length : Nat
deriving DecidableEq, Repr

/-- The run of zero groups at the head of `segments`, which start at `position`. -/
def zeroRun (position : Nat) (segments : List Nat) : Run :=
  ⟨position, (segments.takeWhile (· = 0)).length⟩

/-- The first of the longest runs of zero groups; `best` is the one found so far. -/
def longestZeroRun (best : Run) (position : Nat) : List Nat → Run
  | [] => best
  | s :: rest =>
    let here := zeroRun position (s :: rest)
    longestZeroRun (if best.length < here.length then here else best) (position + 1) rest

/-- Groups in hexadecimal, with colons between them. -/
def colons (segments : List Nat) : String :=
  ":".intercalate (segments.map Hex.ofNat)

/-- Sixteen bytes as hexadecimal groups. -/
def grouped (bytes : Bytes) : String :=
  let segments := groups bytes
  if segments.take 6 = [0, 0, 0, 0, 0, 0xffff] then "::ffff:" ++ dotted (bytes.drop 12)
  else
    let run := longestZeroRun ⟨0, 0⟩ 0 segments
    if 1 < run.length then
      colons (segments.take run.start) ++ "::" ++ colons (segments.drop (run.start + run.length))
    else colons segments

end WideColumn.Text.Address
