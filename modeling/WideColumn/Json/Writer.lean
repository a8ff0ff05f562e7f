import WideColumn.Json.Basic
import WideColumn.Text.Hex

/-!
# Writing JSON texts

Two written forms: `compact`, without any blank, and `pretty`, with two spaces a level and
every item on a line of its own.  Members keep their order; `sortMembers` puts them in the
order of their names.
-/

namespace WideColumn.Json

/-! ### Texts -/

/-- A control character as an escape of four digits. -/
def controlEscape (c : Char) : List Char :=
  ['\\', 'u', '0', '0', Text.Hex.digit (c.toNat / 16), Text.Hex.digit (c.toNat % 16)]

/-- A character inside a text. -/
def escaped (c : Char) : List Char :=
  match c with
  | '"' => ['\\', '"']
  | '\\' => ['\\', '\\']
  | '\x08' => ['\\', 'b']
  | '\x0c' => ['\\', 'f']
  | '\n' => ['\\', 'n']
  | '\r' => ['\\', 'r']
  | '\t' => ['\\', 't']
  | c => if c.toNat < 0x20 then controlEscape c else [c]

/-- A text between quotes. -/
def quote (s : String) : String :=
  String.ofList ('"' :: s.toList.flatMap escaped ++ ['"'])

/-! ### Values -/

/-- The written form of a value that holds no others. -/
def atom : Json → String
  | bool true => "true"
  | bool false => "false"
  | integer n => toString n
  | text s => quote s
  | _ => "null"

/-- Items between brackets, with commas between them. -/
def enclose (opening closing separator : String) (items : List String) : String :=
  opening ++ separator.intercalate items ++ closing

mutual

/-- The written form without blanks. -/
def compact : Json → String
  | array items => enclose "[" "]" "," (compactItems items)
  | object members => enclose "\x7b" "\x7d" "," (compactMembers members)
  | j => j.atom

/-- The written forms of items without blanks. -/
def compactItems : List Json → List String
  | [] => []
  | j :: rest => j.compact :: compactItems rest

/-- The written forms of members without blanks. -/
def compactMembers : List (String × Json) → List String
  | [] => []
  | (name, j) :: rest => (quote name ++ ":" ++ j.compact) :: compactMembers rest

end

/-- Items between brackets, each on a line of its own, one level below `level`. -/
def encloseLines (opening closing : String) (level : Nat) (items : List String) : String :=
  let line := "\n" ++ "".pushn ' ' (2 * level)
  enclose (opening ++ line ++ "  ") (line ++ closing) ("," ++ line ++ "  ") items

mutual

/-- The written form over several lines, inside `level` brackets. -/
def prettyAt (level : Nat) : Json → String
  | array [] => "[]"
  | object [] => "\x7b\x7d"
  | array items => encloseLines "[" "]" level (prettyItems (level + 1) items)
  | object members => encloseLines "\x7b" "\x7d" level (prettyMembers (level + 1) members)
  | j => j.atom

/-- The written forms of items over several lines. -/
def prettyItems (level : Nat) : List Json → List String
  | [] => []
  | j :: rest => prettyAt level j :: prettyItems level rest

/-- The written forms of members over several lines. -/
def prettyMembers (level : Nat) : List (String × Json) → List String
  | [] => []
  | (name, j) :: rest => (quote name ++ ": " ++ prettyAt level j) :: prettyMembers level rest

end

/-- The written form over several lines. -/
def pretty (j : Json) : String := prettyAt 0 j

/-! ### Order of members -/

mutual

/-- The value with the members of every object in the order of their names. -/
def sortMembers : Json → Json
  | array items => array (sortItems items)
  | object members => object ((sortValues members).mergeSort fun a b => compare a.1 b.1 != .gt)
  | j => j

/-- Sorts inside each item. -/
def sortItems : List Json → List Json
  | [] => []
  | j :: rest => j.sortMembers :: sortItems rest

/-- Sorts inside each member. -/
def sortValues : List (String × Json) → List (String × Json)
  | [] => []
  | (name, j) :: rest => (name, j.sortMembers) :: sortValues rest

end

end WideColumn.Json
