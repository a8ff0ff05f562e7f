/-!
# JSON values

The values that a JSON text can spell, and how the structures of this library are taken out of
them.

A structure may be written as an object, by the names of its fields, or as an array, by their
order.  `fields?` reads both: unknown names are passed over, a known name must not come twice,
and `Presence` says which fields may be left out.  A variant of a choice is written as a
word (`word?`), beside its content (`tagged?`) or among its fields (`variant?`).
-/

namespace WideColumn

/-- A JSON value. -/
inductive Json where
  | null
  | bool (b : Bool)
  /-- A number in digits alone. -/
  | integer (n : Int)
  /-- A number with a point or an exponent, or minus zero.  Nothing is measured in such
  numbers, so the value is not kept. -/
  | fractional
  | text (s : String)
  | array (items : List Json)
  | object (members : List (String × Json))
  /-- What follows the grammar and still spells no value: half of a surrogate pair in a text or
  a name, a number that is too large, or an array or object that is nested too deep. -/
  | unreadable
deriving Inhabited

namespace Json

/-! ### Scalars -/

/-- The text. -/
def text? : Json → Option String
  | text s => some s
  | _ => none

/-- The truth value. -/
def bool? : Json → Option Bool
  | bool b => some b
  | _ => none

/-- The number, if it is no less than zero and below `bound`. -/
def natBelow? (bound : Nat) : Json → Option Nat
  | integer n => if 0 ≤ n ∧ n < bound then some n.toNat else none
  | _ => none

/-- A number of 32 bits without sign. -/
def word32? : Json → Option Nat := natBelow? 0x100000000

/-- A number of 64 bits without sign. -/
def word64? : Json → Option Nat := natBelow? 0x10000000000000000

/-- Nothing for `null`, and else what `read` finds. -/
def optional? {α : Type} (read : Json → Option α) : Json → Option (Option α)
  | null => some none
  | j => (read j).map some

/-- All items of an array. -/
def list? {α : Type} (read : Json → Option α) : Json → Option (List α)
  | array items => items.mapM read
  | _ => none

/-- All members of an object. -/
def members? {α : Type} (read : Json → Option α) : Json → Option (List (String × α))
  | object members => members.mapM fun (name, j) => (read j).map (name, ·)
  | _ => none

/-! ### Structures -/

/-- May a field be left out? -/
inductive Presence where
  /-- Never. -/
  | required
  /-- Only where the fields are given by name. -/
  | optionalByName
  /-- Yes: it has a default. -/
  | defaulted
deriving DecidableEq, Repr

/-- The only value under a name; `none` for two of them. -/
def lookup? (name : String) (members : List (String × Json)) : Option (Option Json) :=
  match members.filter (·.1 = name) with
  | [] => some none
  | [(_, j)] => some (some j)
  | _ => none

/-- The fields of a structure that is written as an object. -/
def namedFields? (members : List (String × Json)) :
    List (String × Presence) → Option (List (Option Json))
  | [] => some []
  | (name, presence) :: rest => do
    let value ← lookup? name members
    if value.isNone ∧ presence = .required then none
    else return value :: (← namedFields? members rest)

/-- The fields of a structure that is written as an array. -/
def orderedFields? : List Json → List (String × Presence) → Option (List (Option Json))
  | [], [] => some []
  | _ :: _, [] => none
  | [], (_, presence) :: rest =>
    if presence = .defaulted then do return none :: (← orderedFields? [] rest) else none
  | j :: items, _ :: rest => do return some j :: (← orderedFields? items rest)

/-- The fields of a structure, in the order in which they are asked for. -/
def fields? (names : List (String × Presence)) : Json → Option (List (Option Json))
  | object members => namedFields? members names
  | array items => orderedFields? items names
  | _ => none

/-! ### Choices -/

/-- A variant without content: its name, or an object that gives it nothing. -/
def word? : Json → Option String
  | text s => some s
  | object [(s, null)] => some s
  | _ => none

/-- A variant whose name stands in one field and its content in another.  By order, the name
comes first, and it is a plain text. -/
def tagged? (tag content : String) (j : Json) : Option (String × Option Json) :=
  match j with
  | object members => do
    let name ← (← lookup? tag members)
    return (← name.word?, ← lookup? content members)
  | array [name, j] => do return (← name.text?, some j)
  | _ => none

mutual

/-- Does the value hold nothing unreadable? -/
def isReadable : Json → Bool
  | array items => areReadable items
  | object members => membersAreReadable members
  | unreadable => false
  | _ => true

/-- Are all items readable? -/
def areReadable : List Json → Bool
  | [] => true
  | j :: rest => j.isReadable && areReadable rest

/-- Are the values of all members readable? -/
def membersAreReadable : List (String × Json) → Bool
  | [] => true
  | (_, j) :: rest => j.isReadable && membersAreReadable rest

end

/-- A variant whose name stands among its fields; also the structure without it. -/
def variant? (tag : String) (j : Json) : Option (String × Json) :=
  if !j.isReadable then none
  else match j with
    | object members => do
      let name ← (← lookup? tag members)
      return (← name.text?, object (members.filter (·.1 ≠ tag)))
    | array (name :: items) => do return (← name.text?, array items)
    | _ => none

/-! ### Building -/

/-- The value or `null`. -/
def ofOption {α : Type} (write : α → Json) : Option α → Json
  | none => null
  | some a => write a

/-- An array of values. -/
def ofList {α : Type} (write : α → Json) (items : List α) : Json :=
  array (items.map write)

/-- A number. -/
def ofNat (n : Nat) : Json := integer n

end Json

end WideColumn
