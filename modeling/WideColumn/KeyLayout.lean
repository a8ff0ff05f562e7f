import WideColumn.Composite
import WideColumn.ColumnType.Notation
import WideColumn.Value.Validity

/-!
# Partition keys

A partition key of one column is that column's value as it stands; a key of several is a
composite of their values.  Keys are ordered by the types of their columns.
-/

namespace WideColumn

/-- How the values of the partition-key columns make up a key. -/
inductive KeyLayout where
  | single (type : ColumnType)
  | composite (types : List ColumnType)
deriving DecidableEq, Repr

namespace KeyLayout

/-- The layout for partition-key columns of these types. -/
def ofTypes : List ColumnType → KeyLayout
  | [t] => single t
  | ts => composite ts

/-- The types of the partition-key columns. -/
def types : KeyLayout → List ColumnType
  | single t => [t]
  | composite ts => ts

theorem types_ofTypes (ts : List ColumnType) : (ofTypes ts).types = ts := by
  unfold ofTypes
  split <;> rfl

/-- Is a key a composite? -/
def isComposite : KeyLayout → Bool
  | single _ => false
  | composite _ => true

/-- Checks each value against the type at its position. -/
def validateAll : List ColumnType → List Bytes → Except EncodingError Unit
  | t :: ts, v :: vs => do
    t.validate v
    validateAll ts vs
  | _, _ => .ok ()

/-- The key made up of one value for each column. -/
def encode (layout : KeyLayout) (parts : List Bytes) : Except EncodingError Bytes :=
  if parts.length ≠ layout.types.length then
    .error (.componentCount layout.types.length parts.length)
  else do
    validateAll layout.types parts
    match layout with
    | single _ => return parts.flatten
    | composite _ => Composite.encode ⟨parts, false⟩

/-- The values that make up a key. -/
def decode (layout : KeyLayout) (key : Bytes) : Except EncodingError (List Bytes) :=
  match layout with
  | single _ => .ok [key]
  | composite ts => do
    let c ← Composite.decode key
    if c.isStatic ∨ c.components.length ≠ ts.length then
      throw (.componentCount ts.length c.components.length)
    return c.components

/-- Compares keys. -/
def order (layout : KeyLayout) (a b : Bytes) : Ordering :=
  match layout with
  | single t => t.order a b
  | composite ts => Composite.order ts a b

/-- The layout in words. -/
def toText : KeyLayout → String
  | single t => t.toText
  | composite ts => "composite(" ++ ", ".intercalate (ts.map ColumnType.toText) ++ ")"

end KeyLayout

end WideColumn
