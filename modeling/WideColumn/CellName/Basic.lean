import WideColumn.Bytes.Basic

/-!
# Cell names

The logical parts of a cell's name within its partition: the clustering values of its row, the
name of its column, and for an element of a collection the part that tells it from the others.
A static cell belongs to the partition as a whole and has no row.
-/

namespace WideColumn

/-- The parts of a cell name. -/
structure CellName where
  clustering : List Bytes := []
  column : Option String := none
  element : Option Bytes := none
  isStatic : Bool := false
deriving DecidableEq, Repr

namespace CellName

/-- A cell of a table whose names carry clustering values only. -/
def dense (clustering : List Bytes) : CellName := ⟨clustering, none, none, false⟩

/-- A cell of a column in a row. -/
def regular (clustering : List Bytes) (column : String) : CellName :=
  ⟨clustering, some column, none, false⟩

/-- A cell of a static column. -/
def ofStatic (column : String) : CellName := ⟨[], some column, none, true⟩

end CellName

end WideColumn
