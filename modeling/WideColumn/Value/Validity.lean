import WideColumn.Bytes.Basic
import WideColumn.ColumnType.Notation
import WideColumn.Text.Utf8
import WideColumn.Value.Error

/-!
# Valid values

`ColumnType.validate` says which byte strings are values of a type, and why others are not.
A fixed-width type also admits the empty string; a blob, a varint and a collection admit
every string.
-/

namespace WideColumn.ColumnType

/-- Checks the width of a value of a fixed-width type. -/
def validateWidth (t : ColumnType) (width : Nat) (bytes : Bytes) : Except EncodingError Unit :=
  if bytes = [] ∨ bytes.length = width then .ok ()
  else .error (.invalidLength t.toText width bytes.length)

/-- The version field of a time-based id. -/
def uuidVersion (bytes : Bytes) : Nat :=
  ((bytes[6]?.map (·.toNat)).getD 0) / 16

/-- Checks that the bytes are a value of the type. -/
def validate (t : ColumnType) (bytes : Bytes) : Except EncodingError Unit :=
  match t.base with
  | scalar s =>
    match s with
    | .int | .float => t.validateWidth 4 bytes
    | .bigint | .counter | .timestamp | .double => t.validateWidth 8 bytes
    | .uuid => t.validateWidth 16 bytes
    | .timeuuid => do
      t.validateWidth 16 bytes
      if bytes ≠ [] ∧ uuidVersion bytes ≠ 1 then
        .error (.invalidValue "timeuuid must be a version 1 uuid")
    | .boolean => t.validateWidth 1 bytes
    | .inet =>
      if bytes.length = 0 ∨ bytes.length = 4 ∨ bytes.length = 16 then .ok ()
      else .error (.invalidValue s!"inet address must be 4 or 16 bytes, got {bytes.length}")
    | .ascii =>
      if bytes.all (· < 128) then .ok ()
      else .error (.invalidValue "non-ascii byte in ascii value")
    | .text =>
      if (Text.Utf8.decode? bytes).isSome then .ok ()
      else .error (.invalidValue "invalid utf-8")
    | .decimal =>
      if bytes = [] ∨ 4 < bytes.length then .ok ()
      else .error (.invalidValue "decimal needs a 4-byte scale and an unscaled value")
    | .blob | .varint => .ok ()
  | _ => .ok ()

end WideColumn.ColumnType
