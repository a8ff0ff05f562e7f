import WideColumn.Bytes.Basic

/-!
# Cells

A cell is a named value with the time of its writing.  It may expire, and a tombstone stands for
a deletion.  Of two cells with one name, `supersedes` says which one counts; the rule looks at
the cells alone, so that every copy of a table picks the same one.
-/

namespace WideColumn

/-- How long a cell counts. -/
inductive CellKind where
  | live
  /-- Until the clock reaches a time. -/
  | expiring (ttl : UInt32) (expiresAt : Int)
  /-- Never: it marks a deletion. -/
  | tombstone (deletedAt : Int)
deriving DecidableEq, Repr

/-- One value of a partition. -/
structure Cell where
  name : Bytes
  value : Bytes
  timestamp : Int
  kind : CellKind
deriving DecidableEq, Repr

namespace Cell

/-- A cell that counts for good. -/
def ofValue (name value : Bytes) (timestamp : Int) : Cell := ⟨name, value, timestamp, .live⟩

/-- A cell that expires `ttl` seconds after `now`. -/
def expiring (name value : Bytes) (timestamp : Int) (ttl : UInt32) (now : Int) : Cell :=
  ⟨name, value, timestamp, .expiring ttl (now + ttl.toNat)⟩

/-- A mark of a deletion at `now`. -/
def tombstone (name : Bytes) (timestamp now : Int) : Cell :=
  ⟨name, [], timestamp, .tombstone now⟩

/-- Does the cell hold a value at `now`? -/
def isLive (c : Cell) (now : Int) : Bool :=
  match c.kind with
  | .live => true
  | .expiring _ expiresAt => now < expiresAt
  | .tombstone _ => false

/-- Does the cell mark a deletion? -/
def isTombstone (c : Cell) : Bool :=
  match c.kind with
  | .tombstone _ => true
  | _ => false

/-- Does a cell replace another one of its name?  The later one does; of two written at one time
a tombstone does, and else the one with the greater value. -/
def supersedes (c other : Cell) : Bool :=
  if c.timestamp ≠ other.timestamp then other.timestamp < c.timestamp
  else match c.isTombstone, other.isTombstone with
    | true, false => true
    | false, true => false
    | _, _ => Bytes.order c.value other.value == .gt

/-! ### What readers see of a write -/

/-- A change that readers can see. -/
inductive Change where
  /-- A live cell where there was none. -/
  | insert (new : Cell)
  /-- A live cell in place of another cell. -/
  | update (old new : Cell)
  /-- No live cell any more. -/
  | delete (old : Cell)
deriving DecidableEq, Repr

/-- What comes of writing a cell. -/
inductive Effect where
  /-- Nothing: the stored cell counts. -/
  | superseded
  /-- It is stored, but nobody can see a difference. -/
  | unseen
  | visible (change : Change)
deriving DecidableEq, Repr

/-- What comes of writing a cell where another one may be stored. -/
def effect (new : Cell) (now : Int) : Option Cell → Effect
  | none => if new.isLive now then .visible (.insert new) else .unseen
  | some old =>
    if !new.supersedes old then .superseded
    else if new.isLive now then .visible (.update old new)
    else if old.isLive now then .visible (.delete old)
    else .unseen

end Cell

end WideColumn
