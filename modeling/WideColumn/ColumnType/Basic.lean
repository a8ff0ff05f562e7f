/-!
# Column types

The types a column can be declared with: a scalar, a collection (list, set or map), or a
type in descending order.

* A collection is either frozen, one opaque value, or **multi-cell**: each of its elements is
  a cell of its own, whose name ends in a component of type `elementNameType?`.
* `descending` marks a clustering component whose order is turned round.  The questions
  about the kind of a type (`isCounter`, `isCollection`, `isMultiCell`, `elementNameType?`)
  look through it to the type below, `base`.
-/

namespace WideColumn

/-- The scalar types. -/
inductive ScalarType where
  | ascii | bigint | blob | boolean | counter | decimal | double | float | inet | int
  | text | timestamp | timeuuid | uuid | varint
deriving DecidableEq, Repr

/-- A declared column type. -/
inductive ColumnType where
  | scalar (s : ScalarType)
  | list (element : ColumnType) (frozen : Bool)
  | set (element : ColumnType) (frozen : Bool)
  | map (key value : ColumnType) (frozen : Bool)
  | descending (inner : ColumnType)
deriving DecidableEq, Repr

namespace ScalarType

/-- All scalar types, in the order of their names. -/
def all : List ScalarType :=
  [ascii, bigint, blob, boolean, counter, decimal, double, float, inet, int,
    text, timestamp, timeuuid, uuid, varint]

/-- The position of a scalar type in the list of all of them. -/
def index : ScalarType → Nat
  | ascii => 0 | bigint => 1 | blob => 2 | boolean => 3 | counter => 4 | decimal => 5
  | double => 6 | float => 7 | inet => 8 | int => 9 | text => 10 | timestamp => 11
  | timeuuid => 12 | uuid => 13 | varint => 14

theorem all_index (s : ScalarType) : all[s.index]? = some s := by
  cases s <;> rfl

end ScalarType

namespace ColumnType

/-- Well-formed text. -/
abbrev text : ColumnType := scalar .text

/-- Uninterpreted bytes, the type of values that have no better one. -/
abbrev blob : ColumnType := scalar .blob

/-- Distributed counters. -/
abbrev counter : ColumnType := scalar .counter

/-! ### Freezing and turning round -/

/-- The collection as one frozen value.  Only the outermost node changes; scalars and
descending types stay as they are. -/
def freeze : ColumnType → ColumnType
  | list e _ => list e true
  | set e _ => set e true
  | map k v _ => map k v true
  | t => t

/-- The type in descending order; a type that is already descending is left alone. -/
def descend : ColumnType → ColumnType
  | descending t => descending t
  | t => descending t

/-- The type below all descending marks. -/
def base : ColumnType → ColumnType
  | descending t => t.base
  | t => t

/-- Is the type marked descending? -/
def isDescending : ColumnType → Bool
  | descending _ => true
  | _ => false

@[simp] theorem isDescending_descend (t : ColumnType) : t.descend.isDescending = true := by
  cases t <;> rfl

/-! ### Kinds of type -/

/-- Does the column hold a counter? -/
def isCounter (t : ColumnType) : Bool :=
  t.base = counter

/-- Is it a collection, frozen or not? -/
def isCollection (t : ColumnType) : Bool :=
  match t.base with
  | list .. | set .. | map .. => true
  | _ => false

/-- Is it a collection whose elements are cells of their own? -/
def isMultiCell (t : ColumnType) : Bool :=
  match t.base with
  | list _ frozen | set _ frozen | map _ _ frozen => !frozen
  | _ => false

/-- The type of the name component that tells the elements of a multi-cell collection
apart: a time-based id for a list, the element for a set, the key for a map. -/
def elementNameType? (t : ColumnType) : Option ColumnType :=
  match t.base with
  | list _ false => some (scalar .timeuuid)
  | set element false => some element
  | map key _ false => some key
  | _ => none

theorem elementNameType?_isSome (t : ColumnType) : t.elementNameType?.isSome = t.isMultiCell := by
  unfold elementNameType? isMultiCell
  rcases t.base with _ | ⟨_, _ | _⟩ | ⟨_, _ | _⟩ | ⟨_, _, _ | _⟩ | _ <;> rfl

/-! ### Kinds of the type below -/

@[simp] theorem base_descend (t : ColumnType) : t.descend.base = t.base := by
  cases t <;> rfl

@[simp] theorem base_base (t : ColumnType) : t.base.base = t.base := by
  induction t with
  | descending t ih => exact ih
  | scalar | list | set | map => rfl

@[simp] theorem isMultiCell_descend (t : ColumnType) : t.descend.isMultiCell = t.isMultiCell := by
  simp [isMultiCell]

@[simp] theorem isCounter_descend (t : ColumnType) : t.descend.isCounter = t.isCounter := by
  simp [isCounter]

@[simp] theorem isMultiCell_base (t : ColumnType) : t.base.isMultiCell = t.isMultiCell := by
  simp [isMultiCell]

@[simp] theorem isCounter_base (t : ColumnType) : t.base.isCounter = t.isCounter := by
  simp [isCounter]

/-! ### Changing the type of a column -/

/-- Do values written under `previous` stay valid under `next`? -/
def acceptsValuesOf (next previous : ColumnType) : Bool :=
  next = previous ||
    match next, previous with
    | scalar .blob, _ => !previous.isMultiCell
    | scalar .text, scalar .ascii => true
    | scalar .varint, scalar .int | scalar .varint, scalar .bigint => true
    | scalar .uuid, scalar .timeuuid => true
    | _, _ => false

/-- Do values written under `previous` stay valid and keep their order under `next`?
Clustering components ask for this. -/
def keepsOrderOf (next previous : ColumnType) : Bool :=
  next = previous ||
    match next.base, previous.base with
    | scalar .text, scalar .ascii => true
    | scalar .blob, scalar .text | scalar .blob, scalar .ascii => true
    | scalar .varint, scalar .int | scalar .varint, scalar .bigint => true
    | a, b => a = b

end ColumnType

end WideColumn
