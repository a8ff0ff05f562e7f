import WideColumn.Schema.Error

/-!
# Table properties

What can be set on a table without a bearing on its layout.
-/

namespace WideColumn

/-- The properties of a table; times are in seconds. -/
structure TableProperties where
  comment : String := ""
  /-- The expiry of cells written without one; zero for none. -/
  defaultTimeToLive : UInt32 := 0
  /-- How long tombstones are kept; ten days unless said otherwise. -/
  gcGraceSeconds : UInt32 := 864000
deriving DecidableEq, Repr, Inhabited

namespace TableProperties

/-- The longest default expiry: twenty years. -/
def maxTimeToLive : UInt32 := 20 * 365 * 24 * 60 * 60

/-- Checks the range of each property. -/
def check (p : TableProperties) : Except SchemaError Unit :=
  if maxTimeToLive < p.defaultTimeToLive then
    .error (.timeToLiveTooLong maxTimeToLive.toNat p.defaultTimeToLive.toNat)
  else .ok ()

end TableProperties

end WideColumn
