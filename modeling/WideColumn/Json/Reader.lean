import WideColumn.Json.Numeral
import WideColumn.Text.Hex

/-!
# Reading JSON texts

The grammar of JSON and nothing more: one value with blanks around it, no byte-order mark, no
trailing comma, no control character inside a text.

Some texts follow the grammar and still have an `unreadable` part:

* an escape `\uXXXX` names a code unit, and two of them can form a surrogate pair, which stands
  for one character; a surrogate may not be left alone;
* a number must be in the range of double precision;
* arrays and objects may stand in each other up to `maxNesting` deep.

The recursion runs on fuel.  Each step down reads a character or is followed by one that does,
so twice the length of the text is enough.
-/

namespace WideColumn.Json

/-! ### Blank space -/

/-- Blank space between tokens. -/
def isBlank (c : Char) : Bool :=
  c = ' ' || c = '\t' || c = '\n' || c = '\r'

/-- The characters from the first one that is not blank. -/
def skipBlank (s : List Char) : List Char := s.dropWhile isBlank

/-! ### Texts -/

/-- The code unit that four digits spell. -/
def unit? (a b c d : Char) : Option Nat := do
  let digits ← [a, b, c, d].mapM Text.Hex.value?
  return digits.foldl (fun n digit => n * 16 + digit) 0

/-- The character that a short escape stands for. -/
def shortEscape? : Char → Option Char
  | '"' => some '"'
  | '\\' => some '\\'
  | '/' => some '/'
  | 'b' => some '\x08'
  | 'f' => some '\x0c'
  | 'n' => some '\n'
  | 'r' => some '\r'
  | 't' => some '\t'
  | _ => none

/-- The code points of a text up to its closing quote, surrogates as they are written, and
what follows. -/
def points? : List Char → Option (List Nat × List Char)
  | [] => none
  | '"' :: rest => some ([], rest)
  | '\\' :: 'u' :: a :: b :: c :: d :: rest => do
    let point ← unit? a b c d
    let (points, rest) ← points? rest
    return (point :: points, rest)
  | '\\' :: c :: rest => do
    let point ← shortEscape? c
    let (points, rest) ← points? rest
    return (point.toNat :: points, rest)
  | c :: rest =>
    if c.toNat < 0x20 then none
    else do
      let (points, rest) ← points? rest
      return (c.toNat :: points, rest)

/-- Joins surrogate pairs; `none` if a surrogate stands alone. -/
def joinPairs? : List Nat → Option (List Char)
  | [] => some []
  | n :: rest =>
    if n < 0xD800 ∨ 0xDFFF < n then do return Char.ofNat n :: (← joinPairs? rest)
    else match rest with
      | m :: rest =>
        if n < 0xDC00 ∧ 0xDC00 ≤ m ∧ m ≤ 0xDFFF then do
          return Char.ofNat (0x10000 + (n - 0xD800) * 0x400 + (m - 0xDC00)) :: (← joinPairs? rest)
        else none
      | [] => none

/-- The text after an opening quote, if it can be read, and what follows. -/
def quoted? (s : List Char) : Option (Option String × List Char) := do
  let (points, rest) ← points? s
  return ((joinPairs? points).map String.ofList, rest)

/-! ### Values -/

/-- How deep arrays and objects may stand in each other. -/
def maxNesting : Nat := 127

/-- An array or an object for which there is room, in levels of nesting. -/
def within (room : Nat) (j : Json) : Json := if room = 0 then unreadable else j

/-- An object with the members that were found. -/
def ofMembers (members : List (Option String × Json)) : Json :=
  match members.mapM fun (name, j) => name.map (·, j) with
  | some members => object members
  | none => unreadable

mutual

/-- A value and what follows it. -/
def value? : (fuel room : Nat) → List Char → Option (Json × List Char)
  | 0, _, _ => none
  | fuel + 1, room, s =>
    match skipBlank s with
    | 'n' :: 'u' :: 'l' :: 'l' :: rest => some (null, rest)
    | 't' :: 'r' :: 'u' :: 'e' :: rest => some (bool true, rest)
    | 'f' :: 'a' :: 'l' :: 's' :: 'e' :: rest => some (bool false, rest)
    | '"' :: rest => do
      let (s, rest) ← quoted? rest
      return (s.elim unreadable text, rest)
    | '[' :: rest =>
      match skipBlank rest with
      | ']' :: rest => some (within room (array []), rest)
      | rest => do
        let (items, rest) ← items? fuel (room - 1) rest
        return (within room (array items), rest)
    | '\x7b' :: rest =>
      match skipBlank rest with
      | '\x7d' :: rest => some (within room (object []), rest)
      | rest => do
        let (members, rest) ← memberList? fuel (room - 1) rest
        return (within room (ofMembers members), rest)
    | rest => do
      let (x, rest) ← numeral? rest
      return (x.toJson, rest)

/-- The items up to the closing bracket; there is at least one. -/
def items? : (fuel room : Nat) → List Char → Option (List Json × List Char)
  | 0, _, _ => none
  | fuel + 1, room, s => do
    let (item, rest) ← value? fuel room s
    match skipBlank rest with
    | ',' :: rest =>
      let (items, rest) ← items? fuel room rest
      return (item :: items, rest)
    | ']' :: rest => return ([item], rest)
    | _ => none

/-- The members up to the closing brace; there is at least one. -/
def memberList? : (fuel room : Nat) → List Char →
    Option (List (Option String × Json) × List Char)
  | 0, _, _ => none
  | fuel + 1, room, s =>
    match skipBlank s with
    | '"' :: rest => do
      let (name, rest) ← quoted? rest
      match skipBlank rest with
      | ':' :: rest =>
        let (j, rest) ← value? fuel room rest
        match skipBlank rest with
        | ',' :: rest =>
          let (members, rest) ← memberList? fuel room rest
          return ((name, j) :: members, rest)
        | '\x7d' :: rest => return ([(name, j)], rest)
        | _ => none
      | _ => none
    | _ => none

end

/-- The value that a text spells. -/
def ofText? (s : String) : Option Json :=
  let chars := s.toList
  match value? (2 * chars.length + 2) maxNesting chars with
  | some (j, rest) => if (skipBlank rest).isEmpty then some j else none
  | none => none

end WideColumn.Json
