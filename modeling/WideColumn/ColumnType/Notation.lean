import WideColumn.ColumnType.Basic
import WideColumn.Text.WhiteSpace

/-!
# The written form of column types

Types are written `int`, `list<text>`, `map<text, int>`, `frozen<set<uuid>>`,
`reversed<timestamp>`.  `toText` writes a type; `ofText?` reads one, in any letter case and
with white space anywhere, and takes `varchar` for `text`.

Reading accepts `frozen<…>` around collections only, and `reversed<reversed<…>>` as one
mark.
-/

namespace WideColumn

namespace ScalarType

/-- The written name. -/
def name : ScalarType → String
  | ascii => "ascii"
  | bigint => "bigint"
  | blob => "blob"
  | boolean => "boolean"
  | counter => "counter"
  | decimal => "decimal"
  | double => "double"
  | float => "float"
  | inet => "inet"
  | int => "int"
  | text => "text"
  | timestamp => "timestamp"
  | timeuuid => "timeuuid"
  | uuid => "uuid"
  | varint => "varint"

/-- The scalar type of a name; `varchar` is another name of `text`. -/
def ofName? (s : List Char) : Option ScalarType :=
  if s = "varchar".toList then some text
  else all.find? fun t => t.name.toList = s

end ScalarType

namespace ColumnType

/-! ### Writing -/

/-- Puts `frozen<…>` around the text of a frozen collection. -/
def frozenText (frozen : Bool) (inner : String) : String :=
  if frozen then "frozen<" ++ inner ++ ">" else inner

/-- The written form of a type. -/
def toText : ColumnType → String
  | scalar s => s.name
  | list e frozen => frozenText frozen ("list<" ++ e.toText ++ ">")
  | set e frozen => frozenText frozen ("set<" ++ e.toText ++ ">")
  | map k v frozen => frozenText frozen ("map<" ++ k.toText ++ ", " ++ v.toText ++ ">")
  | descending t => "reversed<" ++ t.toText ++ ">"

instance : ToString ColumnType := ⟨toText⟩

/-! ### Reading -/

/-- Splits at the first comma that lies outside all angle brackets; `depth` is the number
of brackets that are open.  A bracket that closes nothing ends the search. -/
def splitAtComma? (depth : Nat) : List Char → Option (List Char × List Char)
  | [] => none
  | c :: rest =>
    if c = ',' ∧ depth = 0 then some ([], rest)
    else if c = '>' ∧ depth = 0 then none
    else
      let depth' := if c = '<' then depth + 1 else if c = '>' then depth - 1 else depth
      (splitAtComma? depth' rest).map fun (before, after) => (c :: before, after)

/-- Splits `head<arguments>` into its head and its arguments. -/
def splitHead? (s : List Char) : Option (List Char × List Char) :=
  match s.dropWhile (· ≠ '<') with
  | [] => none
  | _ :: inside =>
    if inside.getLast? = some '>' then some (s.takeWhile (· ≠ '<'), inside.dropLast) else none

theorem splitAtComma?_length {depth : Nat} {s before after : List Char}
    (h : splitAtComma? depth s = some (before, after)) :
    before.length + after.length < s.length := by
  induction s generalizing depth before with
  | nil => simp [splitAtComma?] at h
  | cons c rest ih =>
    unfold splitAtComma? at h
    split at h
    · cases h; simp
    · split at h
      · cases h
      · simp only [Option.map_eq_some_iff, Prod.mk.injEq, Prod.exists] at h
        obtain ⟨b, a, hs, rfl, rfl⟩ := h
        have := ih hs
        simp only [List.length_cons]; omega

theorem splitHead?_length {s head arguments : List Char}
    (h : splitHead? s = some (head, arguments)) : arguments.length < s.length := by
  unfold splitHead? at h
  split at h
  · cases h
  · next c inside hs =>
    split at h
    · cases h
      have : (s.dropWhile (· ≠ '<')).length ≤ s.length := (List.dropWhile_sublist _).length_le
      rw [hs] at this
      simp only [List.length_cons] at this
      simp only [List.length_dropLast]; omega
    · cases h

/-- Reads a type from lower-case text without white space. -/
def parse? (s : List Char) : Option ColumnType :=
  match ScalarType.ofName? s with
  | some t => some (scalar t)
  | none =>
    match h : splitHead? s with
    | none => none
    | some (head, arguments) =>
      have := splitHead?_length h
      if head = "frozen".toList then
        (parse? arguments).bind fun t => if t.isCollection then some t.freeze else none
      else if head = "reversed".toList then
        (parse? arguments).map descend
      else if head = "list".toList then
        (parse? arguments).map (list · false)
      else if head = "set".toList then
        (parse? arguments).map (set · false)
      else if head = "map".toList then
        match hc : splitAtComma? 0 arguments with
        | none => none
        | some (key, value) =>
          have := splitAtComma?_length hc
          (parse? key).bind fun k => (parse? value).map fun v => map k v false
      else none
termination_by s.length

/-- Reads a type. -/
def ofText? (s : String) : Option ColumnType :=
  parse? (Text.lowerAscii (Text.withoutWhiteSpace s.toList))

end ColumnType

end WideColumn
