import WideColumn.Proofs.RetiredFlushes
import WideColumn.Proofs.WriteEpochs

/-!
# Flushes that wait

A flush takes the memtable away when it is called, and the flusher makes a segment of it at some
later time, when no write from before the call is running.  In the meantime the table is written to,
flushed again, truncated and perhaps retired.

* `ServedTable.step` — one step of a table with its flushes, those of the flusher included;
* `FlushQueue`, `FlushingLayers`, `FlushBarriers` — each flush waits or has ended once; the
  memtables that are being flushed are those of the waiting ones; and their barriers are after the
  tokens from before them;
* `ServedTable.Sound`, `Sound.step`, `Sound.run` — **so it is after every run**;
* `Sound.finish_eq` — **what the flusher does**: it makes a segment of the memtable, without the
  cells that were truncated meanwhile, or reports that the table was retired.
-/

namespace WideColumn

open Effects

/-! ### Taking a member out of a list -/

section Lists

variable {α : Type} {q : α → Bool} {before after : List α} {a : α}

theorem find?_middle (hbefore : ∀ b ∈ before, q b = false) (ha : q a = true) :
    (before ++ a :: after).find? q = some a := by
  refine List.find?_eq_some_iff_append.2 ⟨ha, before, after, rfl, fun b hb => ?_⟩
  rw [hbefore b hb]
  rfl

theorem eraseP_middle (hbefore : ∀ b ∈ before, q b = false) (ha : q a = true) :
    (before ++ a :: after).eraseP q = before ++ after := by
  have hnone : ∀ b ∈ before, ¬ q b = true := fun b hb => by simp [hbefore b hb]
  rw [List.eraseP_append_right _ hnone, List.eraseP_cons_of_pos ha]

end Lists

/-! ### Tables with their flushes -/

/-- A flush for those who wait for it. -/
structure IssuedFlush where
  status : FlushStatus
  /-- The results that it was completed with, in order. -/
  results : List (Except StorageError Unit) := []

namespace IssuedFlush

/-- A flush under way. -/
def pending (table : String) : IssuedFlush := { status := .pending table }

/-- Completes a flush. -/
def complete (f : IssuedFlush) (result : Except StorageError Unit) : IssuedFlush :=
  { status := f.status.complete result, results := f.results ++ [result] }

end IssuedFlush

/-- A flush that the flusher has to finish. -/
structure PendingFlush where
  /-- Its place among the flushes that were issued. -/
  number : Nat
  ticket : FlushTicket
  /-- How many tokens had been taken before the call. -/
  tokensBefore : Nat
  /-- The memtable at the call. -/
  taken : Partitions
  /-- The truncations since the call, in order. -/
  truncations : List Int := []

namespace PendingFlush

/-- What is left of the memtable. -/
def kept (p : PendingFlush) : Partitions := p.truncations.foldl Partitions.discard p.taken

/-- The layer in which it lies. -/
def layer (p : PendingFlush) : Nat × Partitions := (p.ticket.generation, p.kept)

/-- The flush after one more truncation. -/
def truncate (timestamp : Int) (p : PendingFlush) : PendingFlush :=
  { p with truncations := p.truncations ++ [timestamp] }

theorem kept_truncate (timestamp : Int) (p : PendingFlush) :
    (p.truncate timestamp).kept = p.kept.discard timestamp := by
  unfold kept truncate
  exact List.foldl_append

/-- **What is left are the cells that are newer than all truncations.** -/
theorem cell?_kept {p : PendingFlush} (h : p.taken.WellFormed) (key name : Bytes) :
    p.kept.cell? key name =
      (p.taken.cell? key name).filter fun c => p.truncations.all (· < c.timestamp) := by
  unfold kept
  generalize p.taken = ps at h
  induction p.truncations generalizing ps with
  | nil =>
    show ps.cell? key name = _
    cases ps.cell? key name <;> rfl
  | cons timestamp rest ih =>
    rw [List.foldl_cons, ih _ (h.discard timestamp), Partitions.cell?_discard h,
      Option.filter_filter]
    simp only [List.all_cons]

end PendingFlush

/-- A table whose flushes wait for the flusher. -/
structure ServedTable where
  store : TableStore
  log : TokenLog := {}
  /-- The flushes that wait, in the order of their calls. -/
  pending : List PendingFlush := []
  /-- All flushes that were issued, in the order of their calls. -/
  flushes : List IssuedFlush := []

/-- What can happen to such a table.  The hooks of its writes work on states of a type.  Tokens and
barriers may be those of other tables that share the order of writes. -/
inductive ServedStep (σ : Type) where
  | start
  | release (token : Nat)
  | barrier
  | apply (now : Int) (hook : WriteHook σ) (state : σ) (key : Bytes) (mutation : List Cell)
  | reload (schema : TableSchema)
  /-- Calls a flush. -/
  | flush
  | discard (timestamp : Int)
  | invalidate
  /-- The flusher finishes the flush of a number. -/
  | finish (number : Nat)

namespace ServedTable

/-- An empty table. -/
def ofSchema (schema : TableSchema) : ServedTable := { store := .ofSchema schema }

/-- The table after a write; one that fails changes nothing. -/
def apply {σ : Type} (t : ServedTable) (now : Int) (hook : WriteHook σ) (state : σ) (key : Bytes)
    (mutation : List Cell) : ServedTable :=
  match runFrom (t.store.apply now hook key mutation) state with
  | (.ok store, _) => { t with store }
  | (.error _, _) => t

/-- The table after the call of a flush; one that is refused changes nothing.  If the memtable is
empty, the flush has ended at once. -/
def flush (t : ServedTable) : ServedTable :=
  match t.store.issueFlush t.log.order with
  | .error _ => t
  | .ok (none, store, order) =>
    { t with
      store
      log := { t.log with order }
      flushes := t.flushes ++ [(IssuedFlush.pending t.store.id).complete (.ok ())] }
  | .ok (some ticket, store, order) =>
    let p : PendingFlush :=
      { number := t.flushes.length
        ticket
        tokensBefore := t.log.tokens.length
        taken := t.store.layers.memtable }
    { store
      log := { t.log with order }
      pending := t.pending ++ [p]
      flushes := t.flushes ++ [.pending t.store.id] }

/-- The table after a truncation; one that is refused changes nothing. -/
def discard (t : ServedTable) (timestamp : Int) : ServedTable :=
  match t.store.discard timestamp with
  | .ok store => { t with store, pending := t.pending.map (·.truncate timestamp) }
  | .error _ => t

/-- The table after the flusher has finished a flush; it waits for the barrier. -/
def finish? (t : ServedTable) (number : Nat) : Option ServedTable :=
  match t.pending.find? (·.number = number) with
  | none => none
  | some p =>
    if t.log.order.isComplete p.ticket.barrier then
      let (result, store) := t.store.finishFlush p.ticket
      some { t with
        store
        pending := t.pending.eraseP (·.number = number)
        flushes := t.flushes.modify number (·.complete result) }
    else none

/-- One step, unless it is impossible. -/
def step {σ : Type} (t : ServedTable) : ServedStep σ → Option ServedTable
  | .start => some { t with log := t.log.start }
  | .release token => (t.log.release? token).map fun log => { t with log }
  | .barrier => some { t with log := t.log.setBarrier }
  | .apply now hook state key mutation => some (t.apply now hook state key mutation)
  | .reload schema => some { t with store := { t.store with schema } }
  | .flush => some t.flush
  | .discard timestamp => some (t.discard timestamp)
  | .invalidate => some { t with store := t.store.invalidate }
  | .finish number => t.finish? number

/-- Steps in turn, all of which are possible. -/
def run {σ : Type} (t : ServedTable) (steps : List (ServedStep σ)) : Option ServedTable :=
  steps.foldlM step t

end ServedTable

/-! ### Each flush waits or has ended -/

/-- **Each flush that was issued waits, or it has ended and was completed once.** -/
structure FlushQueue (table : String) (pending : List PendingFlush) (flushes : List IssuedFlush) :
    Prop where
  numbers : (pending.map (·.number)).Nodup
  waiting : ∀ p ∈ pending, flushes[p.number]? = some (.pending table)
  ended : ∀ (n : Nat) f, flushes[n]? = some f → (∀ p ∈ pending, p.number ≠ n) →
    ∃ result, f = (IssuedFlush.pending table).complete result

namespace FlushQueue

variable {table : String} {pending before after : List PendingFlush} {flushes : List IssuedFlush}

theorem empty (table : String) : FlushQueue table [] [] := ⟨List.nodup_nil, nofun, nofun⟩

theorem number_lt (h : FlushQueue table pending flushes) {p : PendingFlush} (hp : p ∈ pending) :
    p.number < flushes.length :=
  (List.getElem?_eq_some_iff.1 (h.waiting p hp)).1

/-- What was issued last is last. -/
theorem getElem?_snoc {f g : IssuedFlush} {n : Nat} (h : (flushes ++ [f])[n]? = some g) :
    flushes[n]? = some g ∨ n = flushes.length ∧ g = f := by
  rw [List.getElem?_append] at h
  split at h
  · exact .inl h
  · obtain ⟨hlt, hg⟩ := List.getElem?_eq_some_iff.1 h
    simp only [List.length_singleton] at hlt
    refine .inr ⟨by omega, ?_⟩
    simpa using hg.symm

theorem waiting_snoc (h : FlushQueue table pending flushes) (f : IssuedFlush) {p : PendingFlush}
    (hp : p ∈ pending) : (flushes ++ [f])[p.number]? = some (.pending table) := by
  rw [List.getElem?_append_left (h.number_lt hp)]
  exact h.waiting p hp

/-- A flush that ends at once does not wait. -/
theorem completed (h : FlushQueue table pending flushes) (result : Except StorageError Unit) :
    FlushQueue table pending (flushes ++ [(IssuedFlush.pending table).complete result]) := by
  refine ⟨h.numbers, fun p hp => h.waiting_snoc _ hp, fun n f hf hother => ?_⟩
  rcases getElem?_snoc hf with hf | ⟨-, rfl⟩
  · exact h.ended n f hf hother
  · exact ⟨result, rfl⟩

/-- A flush that was just called waits. -/
theorem issued (h : FlushQueue table pending flushes) {p : PendingFlush}
    (hp : p.number = flushes.length) :
    FlushQueue table (pending ++ [p]) (flushes ++ [.pending table]) := by
  refine ⟨?_, fun q hq => ?_, fun n f hf hother => ?_⟩
  · rw [List.map_append, List.nodup_append]
    refine ⟨h.numbers, List.nodup_singleton _, fun n hn m hm heq => ?_⟩
    obtain ⟨q, hq, rfl⟩ := List.mem_map.1 hn
    rw [List.map_singleton, List.mem_singleton, hp] at hm
    have := h.number_lt hq
    omega
  · rcases List.mem_append.1 hq with hq | hq
    · exact h.waiting_snoc _ hq
    · rw [List.mem_singleton.1 hq, hp, List.getElem?_append_right (Nat.le_refl _), Nat.sub_self]
      rfl
  · rcases getElem?_snoc hf with hf | ⟨rfl, -⟩
    · exact h.ended n f hf fun q hq => hother q (List.mem_append_left _ hq)
    · exact absurd hp (hother p (List.mem_append_right _ List.mem_cons_self))

theorem truncated (h : FlushQueue table pending flushes) (timestamp : Int) :
    FlushQueue table (pending.map (·.truncate timestamp)) flushes := by
  refine ⟨?_, fun p hp => ?_, fun n f hf hother => h.ended n f hf fun p hp => ?_⟩
  · rw [List.map_map]
    exact h.numbers
  · obtain ⟨q, hq, rfl⟩ := List.mem_map.1 hp
    exact h.waiting q hq
  · exact hother (p.truncate timestamp) (List.mem_map_of_mem hp)

/-- The others have other numbers. -/
theorem number_ne {p q : PendingFlush}
    (h : FlushQueue table (before ++ p :: after) flushes) (hq : q ∈ before ++ after) :
    q.number ≠ p.number := by
  have hnodup := (List.perm_middle.map PendingFlush.number).nodup_iff.1 h.numbers
  rw [List.map_cons, List.nodup_cons] at hnodup
  exact fun heq => hnodup.1 (heq ▸ List.mem_map_of_mem hq)

/-- A flush that is finished has ended, and does not wait any more. -/
theorem finished {p : PendingFlush} (h : FlushQueue table (before ++ p :: after) flushes)
    (result : Except StorageError Unit) :
    FlushQueue table (before ++ after) (flushes.modify p.number (·.complete result)) := by
  have hsub : (before ++ after).Sublist (before ++ p :: after) := (List.Sublist.refl _).middle p
  refine ⟨h.numbers.sublist (hsub.map _), fun q hq => ?_, fun n f hf hother => ?_⟩
  · rw [List.getElem?_modify_ne _ _ (Ne.symm (h.number_ne hq))]
    exact h.waiting q (hsub.subset hq)
  · by_cases hn : n = p.number
    · subst hn
      have hp := h.waiting p (List.mem_append_right _ List.mem_cons_self)
      rw [List.getElem?_modify_eq, hp] at hf
      exact ⟨result, (Option.some.inj hf).symm⟩
    · rw [List.getElem?_modify_ne _ _ (Ne.symm hn)] at hf
      refine h.ended n f hf fun q hq => ?_
      rcases List.mem_append.1 hq with hq | hq
      · exact hother q (List.mem_append_left _ hq)
      · rcases List.mem_cons.1 hq with rfl | hq
        · exact Ne.symm hn
        · exact hother q (List.mem_append_right _ hq)

end FlushQueue

/-! ### The memtables that are being flushed -/

/-- **The memtables that are being flushed are those of the flushes that wait**, without what was
truncated.  A table that was retired has none, and no cells at all. -/
structure FlushingLayers (s : TableStore) (pending : List PendingFlush) : Prop where
  layers : s.layers.WellFormed
  emptied : s.isInvalidated = true → s.layers = {}
  taken : ∀ p ∈ pending, p.taken.WellFormed
  flushing : s.isInvalidated = false → s.layers.flushing = pending.map PendingFlush.layer
  generations : (pending.map (·.ticket.generation)).Nodup
  past : s.isInvalidated = false →
    ∀ p ∈ pending, p.ticket.generation < s.layers.nextGeneration

namespace FlushingLayers

variable {s : TableStore} {pending before after : List PendingFlush}

theorem ofSchema (schema : TableSchema) : FlushingLayers (.ofSchema schema) [] :=
  ⟨Layers.WellFormed.empty, nofun, nofun, fun _ => rfl, List.nodup_nil, fun _ => nofun⟩

/-- A write goes to the memtable. -/
theorem apply {σ : Type} (h : FlushingLayers s pending) {s' : TableStore} {now : Int}
    {hook : WriteHook σ} {key : Bytes} {mutation : List Cell} {st st' : σ}
    (hrun : runFrom (s.apply now hook key mutation) st = (.ok s', st')) :
    FlushingLayers s' pending := by
  obtain ⟨hcheck, rfl, -⟩ := TableStore.apply_ok hrun
  have hopen : s.isInvalidated = false := (TableStore.checkWrite_eq_ok.1 hcheck).1
  have hnext : (s.written now key mutation).layers.nextGeneration = s.layers.nextGeneration :=
    Layers.nextGeneration_store _ _ _
  refine ⟨TableStore.written_wellFormed h.layers now key mutation, fun hretired => ?_, h.taken,
    fun _ => ?_, h.generations, fun _ => ?_⟩
  · cases hopen.symm.trans hretired
  · exact (Layers.flushing_store _ _ _).trans (h.flushing hopen)
  · rw [hnext]
    exact h.past hopen

/-- The schema has nothing to do with it. -/
theorem reload (h : FlushingLayers s pending) (schema : TableSchema) :
    FlushingLayers { s with schema } pending :=
  ⟨h.layers, h.emptied, h.taken, h.flushing, h.generations, h.past⟩

/-- A flush takes the memtable away. -/
theorem issued (h : FlushingLayers s pending) (hopen : s.isInvalidated = false) {p : PendingFlush}
    (hgeneration : p.ticket.generation = s.layers.nextGeneration)
    (htaken : p.taken = s.layers.memtable) (hnone : p.truncations = []) :
    FlushingLayers { s with layers := s.layers.takeMemtable.2 } (pending ++ [p]) := by
  have hlayer : p.layer = (s.layers.nextGeneration, s.layers.memtable) := by
    unfold PendingFlush.layer PendingFlush.kept
    rw [hgeneration, htaken, hnone]
    rfl
  refine ⟨h.layers.takeMemtable, fun hretired => ?_, fun q hq => ?_, fun _ => ?_, ?_,
    fun _ q hq => ?_⟩
  · cases hopen.symm.trans hretired
  · rcases List.mem_append.1 hq with hq | hq
    · exact h.taken q hq
    · rw [List.mem_singleton.1 hq, htaken]
      exact h.layers.memtable
  · show s.layers.flushing ++ [(s.layers.nextGeneration, s.layers.memtable)] = _
    rw [h.flushing hopen, List.map_append, List.map_singleton, hlayer]
  · rw [List.map_append, List.nodup_append]
    refine ⟨h.generations, List.nodup_singleton _, fun g hg g' hg' heq => ?_⟩
    obtain ⟨q, hq, rfl⟩ := List.mem_map.1 hg
    rw [List.map_singleton, List.mem_singleton, hgeneration] at hg'
    have := h.past hopen q hq
    omega
  · show q.ticket.generation < s.layers.nextGeneration + 1
    rcases List.mem_append.1 hq with hq | hq
    · exact Nat.lt_succ_of_lt (h.past hopen q hq)
    · rw [List.mem_singleton.1 hq, hgeneration]
      exact Nat.lt_succ_self _

/-- A truncation reaches the memtables that are being flushed. -/
theorem discard (h : FlushingLayers s pending) (hopen : s.isInvalidated = false) (timestamp : Int) :
    FlushingLayers { s with layers := s.layers.discard timestamp }
      (pending.map (·.truncate timestamp)) := by
  refine ⟨h.layers.discard timestamp, fun hretired => ?_, fun p hp => ?_, fun _ => ?_, ?_,
    fun _ p hp => ?_⟩
  · cases hopen.symm.trans hretired
  · obtain ⟨q, hq, rfl⟩ := List.mem_map.1 hp
    exact h.taken q hq
  · show s.layers.flushing.map _ = _
    rw [h.flushing hopen, List.map_map, List.map_map]
    refine List.map_congr_left fun p _ => ?_
    show (p.ticket.generation, p.kept.discard timestamp) = (p.truncate timestamp).layer
    rw [← p.kept_truncate]
    rfl
  · rw [List.map_map]
    exact h.generations
  · obtain ⟨q, hq, rfl⟩ := List.mem_map.1 hp
    exact h.past hopen q hq

theorem invalidate (h : FlushingLayers s pending) : FlushingLayers s.invalidate pending := by
  unfold TableStore.invalidate
  split
  · exact h
  · exact ⟨Layers.WellFormed.empty, fun _ => rfl, h.taken, nofun, h.generations, nofun⟩

/-- **The flusher finds the memtable of a flush that waits**, as it is by then. -/
theorem finishFlush_open {p : PendingFlush} (h : FlushingLayers s (before ++ p :: after))
    (hopen : s.isInvalidated = false) :
    s.finishFlush p.ticket = (.ok (), { s with
      layers := { s.layers with
        flushing := (before ++ after).map PendingFlush.layer
        segments := s.layers.segments ++ [p.kept] } }) := by
  have hbefore : ∀ b ∈ before.map PendingFlush.layer,
      decide (b.1 = p.ticket.generation) = false := by
    intro b hb
    obtain ⟨q, hq, rfl⟩ := List.mem_map.1 hb
    have hnodup := (List.perm_middle.map fun p : PendingFlush => p.ticket.generation).nodup_iff.1
      h.generations
    rw [List.map_cons, List.nodup_cons] at hnodup
    exact decide_eq_false fun heq =>
      hnodup.1 (heq ▸ List.mem_map_of_mem (List.mem_append_left _ hq))
  have hself : decide (p.layer.1 = p.ticket.generation) = true := decide_eq_true rfl
  have hflushing : s.layers.flushing =
      before.map PendingFlush.layer ++ p.layer :: after.map PendingFlush.layer := by
    rw [h.flushing hopen, List.map_append, List.map_cons]
  have hfind : s.layers.flushing.find? (·.1 = p.ticket.generation) = some p.layer := by
    rw [hflushing]
    exact find?_middle hbefore hself
  have herase : s.layers.flushing.eraseP (·.1 = p.ticket.generation) =
      (before ++ after).map PendingFlush.layer := by
    rw [hflushing, List.map_append]
    exact eraseP_middle hbefore hself
  unfold TableStore.finishFlush Layers.finishFlush?
  rw [hfind]
  simp only [PendingFlush.layer, herase]

/-- In a retired table the flusher finds nothing. -/
theorem finishFlush_retired (h : FlushingLayers s pending) (hretired : s.isInvalidated = true)
    (ticket : FlushTicket) : s.finishFlush ticket = (.error (.invalidated s.id), s) := by
  unfold TableStore.finishFlush
  rw [h.emptied hretired]
  rfl

/-- The other memtables are being flushed still. -/
theorem finished {p : PendingFlush} (h : FlushingLayers s (before ++ p :: after)) :
    FlushingLayers (s.finishFlush p.ticket).2 (before ++ after) := by
  have hsub : (before ++ after).Sublist (before ++ p :: after) := (List.Sublist.refl _).middle p
  have hsame := TableStore.finishFlush_rearranged h.layers p.ticket
  have htaken : ∀ q ∈ before ++ after, q.taken.WellFormed := fun q hq => h.taken q (hsub.subset hq)
  have hgenerations := h.generations.sublist (hsub.map _)
  cases hs : s.isInvalidated with
  | true =>
    rw [h.finishFlush_retired hs]
    exact ⟨h.layers, h.emptied, htaken, fun hopen => (nomatch hs.symm.trans hopen), hgenerations,
      fun hopen => (nomatch hs.symm.trans hopen)⟩
  | false =>
    rw [h.finishFlush_open hs] at hsame ⊢
    exact ⟨hsame.layers, fun hretired => (nomatch hs.symm.trans hretired), htaken, fun _ => rfl,
      hgenerations, fun _ q hq => h.past hs q (hsub.subset hq)⟩

end FlushingLayers

/-! ### Barriers -/

/-- **The barrier of each flush that waits is after the tokens from before its call**, and after no
other. -/
structure FlushBarriers (log : TokenLog) (pending : List PendingFlush) : Prop where
  sound : log.Sound
  separates : ∀ p ∈ pending, log.Separates p.ticket.barrier p.tokensBefore

namespace FlushBarriers

variable {log log' : TokenLog} {pending : List PendingFlush}

theorem start (h : FlushBarriers log pending) : FlushBarriers log.start pending :=
  ⟨h.sound.start, fun p hp => (h.separates p hp).start⟩

theorem release (h : FlushBarriers log pending) {token : Nat}
    (hl : log.release? token = some log') : FlushBarriers log' pending :=
  ⟨h.sound.release hl, fun p hp => (h.separates p hp).release hl⟩

theorem setBarrier (h : FlushBarriers log pending) : FlushBarriers log.setBarrier pending :=
  ⟨h.sound.setBarrier, fun p hp => (h.separates p hp).setBarrier⟩

theorem issued (h : FlushBarriers log pending) {p : PendingFlush}
    (hbarrier : p.ticket.barrier = log.order.barrier.1)
    (htokens : p.tokensBefore = log.tokens.length) :
    FlushBarriers log.setBarrier (pending ++ [p]) := by
  refine ⟨h.sound.setBarrier, fun q hq => ?_⟩
  rcases List.mem_append.1 hq with hq | hq
  · exact (h.separates q hq).setBarrier
  · rw [List.mem_singleton.1 hq, hbarrier, htokens]
    exact h.sound.separates

theorem of_subset {others : List PendingFlush} (h : FlushBarriers log pending)
    (hothers : ∀ q ∈ others, ∃ p ∈ pending, q.ticket = p.ticket ∧ q.tokensBefore = p.tokensBefore) :
    FlushBarriers log others := by
  refine ⟨h.sound, fun q hq => ?_⟩
  obtain ⟨p, hp, hticket, htokens⟩ := hothers q hq
  rw [hticket, htokens]
  exact h.separates p hp

/-- The barrier of a flush is complete as soon as no token from before its call is held. -/
theorem isComplete_iff (h : FlushBarriers log pending) {p : PendingFlush} (hp : p ∈ pending) :
    log.order.isComplete p.ticket.barrier = true ↔ ∀ n ∈ log.held, p.tokensBefore ≤ n :=
  (h.separates p hp).isComplete_iff h.sound

end FlushBarriers

/-! ### Runs -/

namespace ServedTable

/-- **What holds of a table with its flushes.** -/
structure Sound (t : ServedTable) : Prop where
  queue : FlushQueue t.store.id t.pending t.flushes
  kept : FlushingLayers t.store t.pending
  barred : FlushBarriers t.log t.pending

variable {t t' : ServedTable}

theorem Sound.ofSchema (schema : TableSchema) : (ofSchema schema).Sound :=
  ⟨.empty _, .ofSchema schema, ⟨TokenLog.Sound.empty, nofun⟩⟩

theorem Sound.apply {σ : Type} (h : t.Sound) (now : Int) (hook : WriteHook σ) (state : σ)
    (key : Bytes) (mutation : List Cell) : (t.apply now hook state key mutation).Sound := by
  unfold ServedTable.apply
  rcases hrun : runFrom (t.store.apply now hook key mutation) state with ⟨e | store, state'⟩
  · exact h
  · have hid : store.id = t.store.id := by
      obtain ⟨-, rfl, -⟩ := TableStore.apply_ok hrun
      rfl
    exact ⟨hid ▸ h.queue, h.kept.apply hrun, h.barred⟩

theorem Sound.flush (h : t.Sound) : t.flush.Sound := by
  unfold ServedTable.flush
  rcases hissue : t.store.issueFlush t.log.order with e | ⟨ticket, store, order⟩
  · exact h
  · rcases TableStore.issueFlush_parts hissue with
      ⟨hopen, rfl, ⟨-, rfl, rfl⟩ | ⟨-, rfl, rfl⟩⟩
    · exact ⟨h.queue.completed (.ok ()), h.kept, h.barred.setBarrier⟩
    · exact ⟨h.queue.issued rfl, h.kept.issued hopen rfl rfl rfl, h.barred.issued rfl rfl⟩

theorem Sound.discard (h : t.Sound) (timestamp : Int) : (t.discard timestamp).Sound := by
  unfold ServedTable.discard
  cases hdiscard : t.store.discard timestamp with
  | error e => exact h
  | ok store =>
    obtain ⟨hopen, rfl⟩ := TableStore.discard_eq_ok.1 hdiscard
    refine ⟨h.queue.truncated timestamp, h.kept.discard hopen timestamp,
      h.barred.of_subset fun q hq => ?_⟩
    obtain ⟨p, hp, rfl⟩ := List.mem_map.1 hq
    exact ⟨p, hp, rfl, rfl⟩

/-- The flusher takes one flush out of those that wait, once its barrier is complete. -/
theorem finish?_eq_some {number : Nat} (h : t.finish? number = some t') :
    ∃ before p after, t.pending = before ++ p :: after ∧ p.number = number ∧
      t.log.order.isComplete p.ticket.barrier = true ∧
      t' = { t with
        store := (t.store.finishFlush p.ticket).2
        pending := before ++ after
        flushes := t.flushes.modify number (·.complete (t.store.finishFlush p.ticket).1) } := by
  unfold finish? at h
  cases hfind : t.pending.find? (·.number = number) with
  | none => simp [hfind] at h
  | some p =>
    obtain ⟨hp, before, after, hsplit, hbefore⟩ := List.find?_eq_some_iff_append.1 hfind
    have herase : t.pending.eraseP (·.number = number) = before ++ after := by
      rw [hsplit]
      exact eraseP_middle (fun b hb => by simpa using hbefore b hb) hp
    simp only [hfind, herase] at h
    split at h
    · exact ⟨before, p, after, hsplit, of_decide_eq_true hp, ‹_›, (Option.some.inj h).symm⟩
    · cases h

theorem Sound.finish (h : t.Sound) {number : Nat} (hstep : t.finish? number = some t') :
    t'.Sound := by
  obtain ⟨before, p, after, hsplit, rfl, -, rfl⟩ := finish?_eq_some hstep
  have hqueue := h.queue
  have hkept := h.kept
  rw [hsplit] at hqueue hkept
  have hid : (t.store.finishFlush p.ticket).2.id = t.store.id :=
    (TableStore.finishFlush_rearranged h.kept.layers p.ticket).id
  refine ⟨hid ▸ hqueue.finished _, hkept.finished, h.barred.of_subset fun q hq => ?_⟩
  refine ⟨q, ?_, rfl, rfl⟩
  rw [hsplit]
  exact ((List.Sublist.refl _).middle p).subset hq

/-- **What every step keeps.** -/
theorem Sound.step {σ : Type} (h : t.Sound) {a : ServedStep σ} (hstep : t.step a = some t') :
    t'.Sound := by
  cases a with
  | start =>
    cases hstep
    exact ⟨h.queue, h.kept, h.barred.start⟩
  | release token =>
    obtain ⟨log, hl, rfl⟩ := Option.map_eq_some_iff.1 hstep
    exact ⟨h.queue, h.kept, h.barred.release hl⟩
  | barrier =>
    cases hstep
    exact ⟨h.queue, h.kept, h.barred.setBarrier⟩
  | apply now hook state key mutation =>
    cases hstep
    exact h.apply now hook state key mutation
  | reload schema =>
    cases hstep
    exact ⟨h.queue, h.kept.reload schema, h.barred⟩
  | flush =>
    cases hstep
    exact h.flush
  | discard timestamp =>
    cases hstep
    exact h.discard timestamp
  | invalidate =>
    cases hstep
    have hid := t.store.invalidate_id
    exact ⟨hid.symm ▸ h.queue, h.kept.invalidate, h.barred⟩
  | finish number => exact h.finish hstep

/-- **What holds after every run.** -/
theorem Sound.run {σ : Type} {steps : List (ServedStep σ)} (h : t.Sound)
    (hrun : t.run steps = some t') : t'.Sound :=
  foldlM_some_keeps (P := Sound) (fun _ _ _ h hstep => h.step hstep) hrun h

/-! ### What the flusher does -/

/-- The table after a flush has become a segment. -/
def flushed (t : ServedTable) (p : PendingFlush) : ServedTable :=
  let others := t.pending.eraseP (·.number = p.number)
  { t with
    store := { t.store with
      layers := { t.store.layers with
        flushing := others.map PendingFlush.layer
        segments := t.store.layers.segments ++ [p.kept] } }
    pending := others
    flushes := t.flushes.modify p.number (·.complete (.ok ())) }

/-- The table after it was found out that a flush has nothing to do any more. -/
def aborted (t : ServedTable) (p : PendingFlush) : ServedTable :=
  { t with
    pending := t.pending.eraseP (·.number = p.number)
    flushes := t.flushes.modify p.number (·.complete (.error (.invalidated t.store.id))) }

/-- A flush that waits is the only one of its number. -/
theorem Sound.find?_pending (h : t.Sound) {p : PendingFlush} (hp : p ∈ t.pending) :
    ∃ before after, t.pending = before ++ p :: after ∧
      t.pending.find? (·.number = p.number) = some p ∧
      t.pending.eraseP (·.number = p.number) = before ++ after := by
  obtain ⟨before, after, hsplit⟩ := List.append_of_mem hp
  have hqueue := h.queue
  rw [hsplit] at hqueue
  have hbefore : ∀ q ∈ before, decide (q.number = p.number) = false := fun q hq =>
    decide_eq_false (hqueue.number_ne (List.mem_append_left _ hq))
  have hself : decide (p.number = p.number) = true := decide_eq_true rfl
  refine ⟨before, after, hsplit, ?_, ?_⟩
  · rw [hsplit]
    exact find?_middle hbefore hself
  · rw [hsplit]
    exact eraseP_middle hbefore hself

/-- **What the flusher does** with a flush that waits, as soon as no token from before its call is
held: its memtable becomes the last segment, or it ends with the error of a retired table. -/
theorem Sound.finish_eq (h : t.Sound) {p : PendingFlush} (hp : p ∈ t.pending) :
    t.finish? p.number =
      if ∀ n ∈ t.log.held, p.tokensBefore ≤ n then
        some (if t.store.isInvalidated then t.aborted p else t.flushed p)
      else none := by
  obtain ⟨before, after, hsplit, hfind, herase⟩ := h.find?_pending hp
  have hkept := h.kept
  rw [hsplit] at hkept
  unfold finish?
  rw [hfind]
  simp only [h.barred.isComplete_iff hp]
  congr 1
  cases hs : t.store.isInvalidated with
  | true =>
    simp only [hkept.finishFlush_retired hs, if_true]
    rfl
  | false =>
    simp only [hkept.finishFlush_open hs, Bool.false_eq_true, if_false, flushed, herase]

end ServedTable

end WideColumn
