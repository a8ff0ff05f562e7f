import WideColumn.Bindings

/-!
# The order of writes and flushes

Writes run in epochs.  A write holds a token of the epoch in which it started; a flush sets a
barrier, which ends the epoch.  A barrier is complete as soon as no token of an earlier epoch is
held, whatever happens in later ones.  One `WriteOrder` is shared by a table and its indexes, so
that they agree on the writes that come before a flush.

`HeldTokens` keeps tokens by name, for writes that take several steps.
-/

namespace WideColumn

/-- The current epoch, and how many tokens of each epoch are held. -/
structure WriteOrder where
  epoch : Nat := 0
  active : Bindings Nat Nat := []
deriving DecidableEq, Repr

/-- The mark of a running write: the epoch in which it started. -/
structure WriteToken where
  epoch : Nat
deriving DecidableEq, Repr

/-- The boundary that a flush sets: the first epoch after it. -/
structure WriteBarrier where
  epoch : Nat
deriving DecidableEq, Repr

/-- Did the write start before the barrier was set? -/
def WriteToken.isBefore (t : WriteToken) (b : WriteBarrier) : Bool := t.epoch < b.epoch

namespace WriteOrder

/-- Starts a write. -/
def start (o : WriteOrder) : WriteToken × WriteOrder :=
  let count := (o.active.find? o.epoch).getD 0
  (⟨o.epoch⟩, { o with active := o.active.insert o.epoch (count + 1) })

/-- Ends a write. -/
def release (o : WriteOrder) (t : WriteToken) : WriteOrder :=
  match o.active.find? t.epoch with
  | none => o
  | some count =>
    { o with
      active :=
        if count ≤ 1 then o.active.erase t.epoch else o.active.insert t.epoch (count - 1) }

/-- Ends the epoch. -/
def barrier (o : WriteOrder) : WriteBarrier × WriteOrder :=
  (⟨o.epoch + 1⟩, { o with epoch := o.epoch + 1 })

/-- Has every write ended that started before the barrier? -/
def isComplete (o : WriteOrder) (b : WriteBarrier) : Bool :=
  o.active.keys.all (b.epoch ≤ ·)

/-- Is no write running? -/
def isIdle (o : WriteOrder) : Bool := o.active.isEmpty

end WriteOrder

/-! ### The lock under which flushes are issued -/

/-- The lock that orders the flushes of a table and its indexes. -/
structure FlushLock where
  isLocked : Bool := false
deriving DecidableEq, Repr

/-- What work gives under the lock, and the lock afterwards. -/
def FlushLock.issue {α : Type} (lock : FlushLock) (work : FlushLock → α) : α × FlushLock :=
  (work { lock with isLocked := true }, lock)

/-! ### Named tokens -/

/-- A write order and the tokens that are held by name. -/
structure HeldTokens where
  order : WriteOrder := {}
  tokens : Bindings String WriteToken := []
deriving DecidableEq, Repr

namespace HeldTokens

/-- Ends a write, if it is given. -/
def releaseToken (h : HeldTokens) : Option WriteToken → HeldTokens
  | none => h
  | some t => { h with order := h.order.release t }

/-- Starts a write under a name.  A write that had the name ends after the new one has
started. -/
def hold (h : HeldTokens) (name : String) : WriteToken × HeldTokens :=
  let (t, order) := h.order.start
  let next : HeldTokens := { order, tokens := h.tokens.insert name t }
  (t, next.releaseToken (h.tokens.find? name))

/-- Ends the write of a name; also whether there was one. -/
def release (h : HeldTokens) (name : String) : Bool × HeldTokens :=
  let t := h.tokens.find? name
  (t.isSome, { h with tokens := h.tokens.erase name }.releaseToken t)

end HeldTokens

end WideColumn
