import WideColumn.Value.Order
import WideColumn.Value.Error

/-!
# Composites

A composite packs a list of components into one byte string: for each component its length
in two bytes, its bytes and a closing zero byte.  Two bytes `ff ff` in front mark a static
composite; no component is long enough to have that length.

Reading does not look at the value of the closing byte.
-/

namespace WideColumn

/-- The parts of a composite. -/
structure Composite where
  components : List Bytes
  isStatic : Bool := false
deriving DecidableEq, Repr

namespace Composite

/-- The longest component that can be packed. -/
def maxComponentSize : Nat := 0xfffe

/-- The two bytes in front of a static composite. -/
def staticMarker : Bytes := [0xff, 0xff]

/-! ### Packing -/

/-- One component with its length and its closing byte. -/
def encodeComponent (component : Bytes) : Except EncodingError Bytes :=
  if maxComponentSize < component.length then
    .error (.componentTooLarge maxComponentSize component.length)
  else .ok (Bytes.bigEndian 2 component.length ++ component ++ [0])

/-- The components, packed one after the other. -/
def encodeComponents : List Bytes → Except EncodingError Bytes
  | [] => .ok []
  | c :: cs => do
    let first ← encodeComponent c
    let rest ← encodeComponents cs
    return first ++ rest

/-- The packed form of a composite. -/
def encode (c : Composite) : Except EncodingError Bytes := do
  let packed ← encodeComponents c.components
  return if c.isStatic then staticMarker ++ packed else packed

/-! ### Unpacking -/

/-- Unpacks components until the bytes end. -/
def decodeComponents : Bytes → Except EncodingError (List Bytes)
  | [] => .ok []
  | [_] => .error .malformedComposite
  | hi :: lo :: rest =>
    let size := hi.toNat * 256 + lo.toNat
    if rest.length < size + 1 then .error .malformedComposite
    else do
      let components ← decodeComponents (rest.drop (size + 1))
      return rest.take size :: components
termination_by bytes => bytes.length
decreasing_by simp only [List.length_drop, List.length_cons]; omega

/-- The parts of a packed composite. -/
def decode (bytes : Bytes) : Except EncodingError Composite :=
  if staticMarker.isPrefixOf bytes then do
    return ⟨← decodeComponents (bytes.drop 2), true⟩
  else do
    return ⟨← decodeComponents bytes, false⟩

/-! ### Order -/

/-- Compares components in turn, each by its type, or byte by byte where the types end; a
strict beginning sorts first. -/
def orderComponents : List ColumnType → List Bytes → List Bytes → Ordering
  | _, [], [] => .eq
  | _, [], _ :: _ => .lt
  | _, _ :: _, [] => .gt
  | [], a :: as, b :: bs => (Bytes.order a b).then (orderComponents [] as bs)
  | t :: ts, a :: as, b :: bs => (t.order a b).then (orderComponents ts as bs)

/-- Sorts what is static first and leaves the rest to `other`. -/
def staticFirst (a b : Bool) (other : Ordering) : Ordering :=
  match a, b with
  | true, false => .lt
  | false, true => .gt
  | _, _ => other

/-- Compares packed composites: static ones first, then component by component.  Bytes that
are no composite are compared as they stand. -/
def order (types : List ColumnType) (a b : Bytes) : Ordering :=
  match decode a, decode b with
  | .ok x, .ok y =>
    staticFirst x.isStatic y.isStatic (orderComponents types x.components y.components)
  | _, _ => Bytes.order a b

end Composite

end WideColumn
