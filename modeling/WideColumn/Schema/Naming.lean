import WideColumn.Composite
import WideColumn.Schema.Error
import WideColumn.Text.Alphanumeric

/-!
# Valid names

Names hold letters, digits and underscores of any script.  Keyspaces, tables and indexes have
names of at most 48 characters; a column's name is only bounded by what fits into a component
of a cell name.
-/

namespace WideColumn.Naming

/-- The greatest number of characters in the name of a keyspace, a table or an index. -/
def maxLength : Nat := 48

/-- May the character stand in a name? -/
def isWord (c : Char) : Bool := Text.isAlphanumeric c || c = '_'

/-- Is the text nonempty and made of word characters? -/
def isWordText (name : String) : Bool := !name.isEmpty && name.toList.all isWord

/-- Checks the name of a keyspace, a table or an index. -/
def checkName (name : String) : Except SchemaError Unit :=
  if !isWordText name then .error (.invalidName name)
  else if maxLength < name.length then .error (.nameTooLong name maxLength)
  else .ok ()

/-- Checks the name of a column. -/
def checkColumnName (name : String) : Except SchemaError Unit :=
  if !isWordText name || Composite.maxComponentSize < name.utf8ByteSize then
    .error (.invalidName name)
  else .ok ()

end WideColumn.Naming
