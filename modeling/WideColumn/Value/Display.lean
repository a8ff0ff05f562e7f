import WideColumn.ColumnType.Basic
import WideColumn.Number.BinaryFloat
import WideColumn.Text.Address
import WideColumn.Text.Hex
import WideColumn.Text.Utf8
import WideColumn.Value.Numeric

/-!
# Values as text

`ColumnType.display` renders a value for a reader.  A value that its type cannot render (of
the wrong width, not well-formed text, too wide an integer) appears as its bytes in
hexadecimal, as do blobs and collections; an empty value of a type other than text is empty
text.
-/

namespace WideColumn

namespace Value

/-- The bytes in hexadecimal, after `0x`. -/
def displayHex (bytes : Bytes) : String :=
  "0x" ++ Text.Hex.ofBytes bytes

/-- Renders a value only if it has the given width. -/
def atWidth (width : Nat) (render : Bytes → String) (bytes : Bytes) : Option String :=
  if bytes.length = width then some (render bytes) else none

/-- An id as five groups of digits. -/
def displayUuid (bytes : Bytes) : String :=
  "-".intercalate
    [Text.Hex.ofBytes (bytes.take 4), Text.Hex.ofBytes ((bytes.drop 4).take 2),
      Text.Hex.ofBytes ((bytes.drop 6).take 2), Text.Hex.ofBytes ((bytes.drop 8).take 2),
      Text.Hex.ofBytes (bytes.drop 10)]

/-- The unscaled value, with the exponent that its scale stands for. -/
def ScaledInt.display (d : ScaledInt) : String :=
  if d.scale = 0 then toString d.unscaled else s!"{d.unscaled}E{-d.scale}"

/-- Renders a value that is not empty, if its type can. -/
def display? : ScalarType → Bytes → Option String
  | .ascii, bytes | .text, bytes => Text.Utf8.decode? bytes
  | .int, bytes => atWidth 4 (fun b => toString (Bytes.signed b)) bytes
  | .bigint, bytes | .counter, bytes | .timestamp, bytes =>
    atWidth 8 (fun b => toString (Bytes.signed b)) bytes
  | .double, bytes => atWidth 8 (fun b => Number.binary64.toText (Bytes.unsigned b)) bytes
  | .float, bytes => atWidth 4 (fun b => Number.binary32.toText (Bytes.unsigned b)) bytes
  | .boolean, bytes => some (if bytes.head? = some 0 then "false" else "true")
  | .uuid, bytes | .timeuuid, bytes => atWidth 16 displayUuid bytes
  | .inet, bytes => (atWidth 4 Text.Address.dotted bytes).or (atWidth 16 Text.Address.grouped bytes)
  | .varint, bytes => (varint? bytes).map toString
  | .decimal, bytes => (scaledInt? bytes).map ScaledInt.display
  | .blob, _ => none

end Value

/-- The text of a value of a scalar type. -/
def ScalarType.display (s : ScalarType) (bytes : Bytes) : String :=
  if bytes = [] ∧ s ≠ .text ∧ s ≠ .ascii then ""
  else (Value.display? s bytes).getD (Value.displayHex bytes)

/-- The text of a value. -/
def ColumnType.display (t : ColumnType) (bytes : Bytes) : String :=
  match t.base with
  | scalar s => s.display bytes
  | _ => Value.displayHex bytes

end WideColumn
