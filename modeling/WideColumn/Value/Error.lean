/-!
# What can be wrong with encoded data

One cause for each way in which a value, a key or a cell name is refused, and the wording of
each.
-/

namespace WideColumn

/-- Why encoded data, or the text of a type, was refused. -/
inductive EncodingError where
  /-- No type is written so. -/
  | unknownType (text : String)
  /-- A value of a fixed-width type has another width. -/
  | invalidLength (typeName : String) (expected actual : Nat)
  /-- A value breaks a rule of its type, or a name one of its layout. -/
  | invalidValue (reason : String)
  /-- A component is longer than its length field can say. -/
  | componentTooLarge (max actual : Nat)
  /-- The bytes are no composite. -/
  | malformedComposite
  /-- There are more or fewer components than the layout has. -/
  | componentCount (expected actual : Nat)
deriving DecidableEq, Repr

/-- The wording of an error. -/
def EncodingError.message : EncodingError → String
  | unknownType text => "unknown type: " ++ text
  | invalidLength typeName expected actual =>
    s!"expected {expected} bytes for {typeName}, got {actual}"
  | invalidValue reason => "invalid value: " ++ reason
  | componentTooLarge max actual =>
    s!"component exceeds maximum size of {max} bytes (got {actual})"
  | malformedComposite => "malformed composite"
  | componentCount expected actual => s!"expected {expected} components, got {actual}"

end WideColumn
