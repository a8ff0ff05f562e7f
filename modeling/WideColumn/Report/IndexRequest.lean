import WideColumn.Text.WhiteSpace

/-!
# Index requests

An index is asked for as `<column>` or `<column>=<name>`, with white space around either part.
-/

namespace WideColumn

/-- An index that was asked for. -/
structure IndexRequest where
  column : String
  name : Option String := none
deriving DecidableEq, Repr

namespace IndexRequest

/-- The text before the first equals sign, and what follows it if there is one. -/
def splitAtSign : List Char → List Char × Option (List Char)
  | [] => ([], none)
  | '=' :: rest => ([], some rest)
  | c :: rest =>
    let (column, name) := splitAtSign rest
    (c :: column, name)

/-- The index that a text asks for; neither part may be empty. -/
def ofText? (s : String) : Option IndexRequest :=
  let (column, name) := splitAtSign s.toList
  let column := Text.trim column
  let name := name.map Text.trim
  if column.isEmpty || name.any List.isEmpty then none
  else some ⟨String.ofList column, name.map String.ofList⟩

end IndexRequest

end WideColumn
