import WideColumn.Error
import WideColumn.Store.WriteOrder

/-!
# Flushes under way

A flush is issued at one time and finished at a later one, when the writes before its barrier
have ended.  `FlushTicket` says which flush it is, and `FlushStatus` is what its issuer waits on.
-/

namespace WideColumn

/-- A flush that was issued. -/
structure FlushTicket where
  generation : Nat
  barrier : WriteBarrier
deriving DecidableEq, Repr

/-- The state of a flush for those who wait for it. -/
structure FlushStatus where
  table : String
  /-- How the flush ended, if it has: well, or for a reason in words. -/
  outcome : Option (Except String Unit) := none

namespace FlushStatus

/-- A flush under way. -/
def pending (table : String) : FlushStatus := { table }

/-- Settles how the flush ended. -/
def complete (f : FlushStatus) (result : Except StorageError Unit) : FlushStatus :=
  { f with outcome := some (result.mapError StorageError.message) }

/-- Gives up on the flush, as when its worker is gone. -/
def abandon (f : FlushStatus) : FlushStatus :=
  { f with outcome := some (.error "flusher went away") }

/-- A flush that had nothing to do. -/
def completed (table : String) : FlushStatus := (pending table).complete (.ok ())

/-- Has the flush ended? -/
def isDone (f : FlushStatus) : Bool := f.outcome.isSome

/-- What waiting for the flush gives; nothing as long as it is under way. -/
def wait? (f : FlushStatus) : Option (Except StorageError Unit) :=
  f.outcome.map (·.mapError (.flushAborted f.table))

end FlushStatus

end WideColumn
