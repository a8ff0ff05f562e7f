import WideColumn.Proofs.RetiredIndexes

/-!
# Flushes of indexes that are retired in the middle

A flush of an index takes the memtable of its table away and waits until the memtable has become a
segment.  If the table is retired before that, the memtable is gone.  Whoever waits is told of it in
words, and not by the error of a retired table; so the flush does not look away from it.

* `Awaits` — the memtable that a flush waits for is there unless the table was retired;
  `Awaits.after` — **whatever happens in the meantime**;
* `endFlush_result` — **how a flush ends**: well, or with an error if the table was retired;
* `flush_of_retired_index` — what that means for flushes of all indexes that can be reached;
* `retired_flush_aborts` — a flush that fails because its index was retired.
-/

namespace WideColumn

open Effects

namespace KeptIndex

variable {k : KeptIndex} {generation : Nat}

/-! ### What a flush waits for -/

/-- The memtable that a flush waits for is there, unless the table was retired. -/
def Awaits (generation : Nat) (k : KeptIndex) : Prop :=
  k.store.isInvalidated = true ∨ ∃ ps, (generation, ps) ∈ k.store.layers.flushing

/-- A change of the table that leaves the flag and the memtable alone. -/
theorem Awaits.setStore (h : Awaits generation k) {s : TableStore}
    (hs : s.isInvalidated = k.store.isInvalidated)
    (hflushing : ∀ ps, (generation, ps) ∈ k.store.layers.flushing →
      ∃ ps', (generation, ps') ∈ s.layers.flushing) : Awaits generation { k with store := s } := by
  rcases h with hinvalidated | ⟨ps, hps⟩
  · exact .inl (hs.trans hinvalidated)
  · exact .inr (hflushing ps hps)

/-- A write goes to the new memtable. -/
theorem Awaits.written (h : Awaits generation k) {now : Int} {key : Bytes} {c : Cell}
    {store : TableStore} (hwrite : k.tableWrite now key c = .ok store) :
    Awaits generation { k with store } := by
  have hrun : runFrom (k.store.apply now (WriteHook.none (σ := Unit)) key [c]) () =
      (.ok store, ()) := Prod.ext (write_of_tableWrite hwrite) rfl
  obtain ⟨-, rfl, -⟩ := TableStore.apply_ok hrun
  refine h.setStore rfl fun ps hps => ⟨ps, ?_⟩
  show (generation, ps) ∈ (k.store.layers.store key _).flushing
  rw [Layers.flushing_store]
  exact hps

/-- A truncation keeps the memtable, without some of its cells. -/
theorem Awaits.discarded (h : Awaits generation k) {timestamp : Int} {store : TableStore}
    (hdiscard : k.store.discard timestamp = .ok store) : Awaits generation { k with store } := by
  obtain ⟨-, rfl⟩ := TableStore.discard_eq_ok.1 hdiscard
  exact h.setStore rfl fun ps hps => ⟨ps.discard timestamp, List.mem_map_of_mem
    (f := fun b : Nat × Partitions => (b.1, b.2.discard timestamp)) hps⟩

/-- Another flush takes another memtable away. -/
theorem Awaits.issued (h : Awaits generation k) {order order' : WriteOrder}
    {ticket : Option FlushTicket} {store : TableStore}
    (hissue : k.store.issueFlush order = .ok (ticket, store, order')) :
    Awaits generation { k with store } := by
  rcases TableStore.issueFlush_parts hissue with ⟨-, -, ⟨-, -, rfl⟩ | ⟨-, -, rfl⟩⟩
  · exact h
  · exact h.setStore rfl fun ps hps => ⟨ps, List.mem_append_left _ hps⟩

/-- Another flush that ends has another memtable become a segment. -/
theorem Awaits.finished (h : Awaits generation k) {ticket : FlushTicket}
    (hother : ticket.generation ≠ generation) :
    Awaits generation { k with store := (k.store.finishFlush ticket).2 } := by
  rcases k.store.finishFlush_cases ticket with ⟨layers, hlayers, hfinish⟩ | ⟨-, hfinish⟩ <;>
    rw [hfinish]
  · refine h.setStore rfl fun ps hps => ⟨ps, ?_⟩
    unfold Layers.finishFlush? at hlayers
    split at hlayers
    · cases hlayers
    · cases hlayers
      refine (List.mem_eraseP_of_neg ?_).2 hps
      simpa using Ne.symm hother
  · exact h

/-- **What a flush waits for outlasts single accesses**, those of other flushes included. -/
theorem awaits_keptByEvents (generation : Nat) : KeptByEvents (Awaits generation) where
  upkeep :=
    { access := fun now =>
        { disturbed := fun _ _ h => disturb_induction (P := Awaits generation) (fun _ _ h => h) id
            (fun _ _ => .inl (TableStore.invalidate_isInvalidated _)) h
          accepted := fun _ _ _ _ h hwrite => h.written hwrite
          refused := fun _ _ _ h => h }
      activated := fun h => by
        split
        · exact h
        · exact h
      discarded := fun h hdiscard => h.discarded hdiscard
      noted := fun _ h => h
      issued := fun h hissue => h.issued hissue }
  planned := fun _ _ h => h
  begun := id
  ended := fun _ _ => .inl (TableStore.invalidate_isInvalidated _)
  forgotten := id

/-- What a flush waits for is there until the flush is finished, unless the table is retired. -/
theorem Awaits.after (h : Awaits generation k) {events : List IndexEvent}
    (hevents : ∀ ticket, .endFlush (some ticket) ∈ events → ticket.generation ≠ generation) :
    Awaits generation (k.after events) := by
  induction events generalizing k with
  | nil => exact h
  | cons e rest ih =>
    refine ih ?_ fun ticket hticket => hevents ticket (List.mem_cons_of_mem _ hticket)
    exact (awaits_keptByEvents generation).step
      (fun base _ => (awaits_keptByEvents generation).reload (fun _ _ h => h) base)
      (fun ticket hticket _ hk => hk.finished (hevents ticket (hticket ▸ List.mem_cons_self))) h

/-! ### How a flush begins and ends -/

/-- A flush is issued and leaves a memtable to be waited for, unless there is nothing to flush; or
it is refused because the table was retired. -/
theorem issueFlush_result {x : SecondaryIndex} (h : Ready x k) (lock : FlushLock)
    (order : WriteOrder) :
    (∃ ticket order' k', k.issueFlush lock order = (.ok ticket, order', k') ∧
      ∀ t, ticket = some t → Awaits t.generation k') ∨
    ∃ id order' k', k.issueFlush lock order = (.error (.invalidated id), order', k') ∧
      k'.state = .invalidated ∧ Ready x k' := by
  have hflush := h.disturb .flush
  unfold issueFlush
  simp only [record]
  cases hissue : (k.disturb .flush).store.issueFlush order with
  | ok issued =>
    obtain ⟨ticket, store, order'⟩ := issued
    refine .inl ⟨ticket, order', _, rfl, fun t ht => ?_⟩
    rcases TableStore.issueFlush_parts hissue with ⟨-, -, ⟨-, hnone, -⟩ | ⟨-, hsome, hstore⟩⟩
    · rw [ht] at hnone
      cases hnone
    · rw [ht] at hsome
      cases hsome
      refine .inr ⟨(k.disturb .flush).store.layers.memtable, ?_⟩
      show _ ∈ store.layers.flushing
      rw [hstore]
      exact List.mem_append_right _ (List.mem_singleton.2 rfl)
  | error e =>
    unfold TableStore.issueFlush TableStore.checkValid at hissue
    cases hinvalidated : (k.disturb .flush).store.isInvalidated with
    | true =>
      rw [hinvalidated] at hissue
      cases hissue
      exact .inr ⟨_, order, _, rfl, hflush.retired hinvalidated, hflush.setJournal _⟩
    | false =>
      rw [hinvalidated] at hissue
      simp only [Bool.false_eq_true, if_false, except_ok_bind] at hissue
      split at hissue <;> cases hissue

/-- **How a flush begins**: it succeeds, and leaves a memtable to be waited for unless there was
nothing to flush. -/
theorem beginFlush_result {x : SecondaryIndex} (h : Ready x k) (lock : FlushLock)
    (order : WriteOrder) : ∃ ticket order' k', k.beginFlush lock order = (.ok ticket, order', k') ∧
      ∀ t, ticket = some t → Awaits t.generation k' := by
  unfold beginFlush
  simp only [run_eq_runFrom]
  rw [runFrom_isRetired]
  by_cases hstate : (k.disturb .check).state = .invalidated
  · rw [decide_eq_true hstate]
    exact ⟨none, order, _, rfl, nofun⟩
  · rw [decide_eq_false hstate]
    simp only
    rcases issueFlush_result (h.disturb .check) lock order with
      ⟨ticket, order', k', hissue, hawaits⟩ | ⟨id, order', k', hissue, hretired, hready⟩ <;>
      rw [hissue]
    · exact ⟨ticket, order', k', rfl, hawaits⟩
    · obtain ⟨k'', hquiet, -⟩ := unlessRetired_quiet hready hretired id
      simp only
      rw [hquiet]
      exact ⟨none, order', k'', rfl, nofun⟩

/-- The error of those who wait for a flush when the table was retired. -/
def flushAborted (id : String) : EngineError :=
  .storage (.flushAborted id (StorageError.invalidated id).message)

/-- A flush is finished if its memtable is there. -/
theorem finishFlush?_ne_none {l : Layers} {ps : Partitions}
    (h : (generation, ps) ∈ l.flushing) : l.finishFlush? generation ≠ none := by
  unfold Layers.finishFlush?
  cases hfind : l.flushing.find? (·.1 = generation) with
  | none =>
    have hall := List.find?_eq_none.1 hfind _ h
    simp at hall
  | some b => nofun

/-- **How a flush ends**: well if the memtable is still there, and with an error if the table was
retired, though the index was retired with it. -/
theorem endFlush_result {first : KeptIndex} {ticket : FlushTicket}
    (h : Awaits ticket.generation k) (hstays : StaysRetired first k) :
    (k.endFlush (some ticket)).1 =
      if (k.disturb .finish).store.isInvalidated then .error (flushAborted k.store.id)
      else .ok () := by
  have hawaits := (awaits_keptByEvents ticket.generation).upkeep.disturbed h .finish
  have hemptied := ((staysRetired_keptByEvents first).upkeep.disturbed hstays .finish).emptied
  unfold endFlush finishFlush
  rcases (k.disturb .finish).store.finishFlush_cases ticket with
    ⟨layers, hlayers, hfinish⟩ | ⟨hlayers, hfinish⟩
  · have hopen : ¬ (k.disturb .finish).store.isInvalidated = true := by
      intro hinvalidated
      rw [(hemptied hinvalidated).2] at hlayers
      cases hlayers
    simp only [hfinish]
    rw [if_neg hopen]
    rfl
  · have hinvalidated : (k.disturb .finish).store.isInvalidated = true := by
      rcases hawaits with hinvalidated | ⟨ps, hps⟩
      · exact hinvalidated
      · exact absurd hlayers (finishFlush?_ne_none hps)
    simp only [hfinish]
    rw [if_pos hinvalidated, ← k.disturb_id .finish]
    rfl

/-! ### Flushes of retired indexes -/

/-- **What becomes of the flush of an index that is retired.**  The flush of an index that can be
reached always begins well, whenever the index was retired before.  What it waits for, if anything,
is finished at some later time, and by this flush only; the index may be marked as retired and its
table be retired at any time before.  The flush ends well as long as the table is open just before
it is finished, and else with the error of an aborted flush. -/
theorem flush_of_retired_index {k : KeptIndex} (hk : k.Reached) (lock : FlushLock)
    (order : WriteOrder) : ∃ ticket order' begun,
    k.beginFlush lock order = (.ok ticket, order', begun) ∧
    (ticket = none → (k.flush lock order).1 = .ok ()) ∧
    ∀ t, ticket = some t → ∀ later : List IndexEvent,
      (∀ other, .endFlush (some other) ∈ later → other.generation ≠ t.generation) →
      ((begun.after later).endFlush (some t)).1 =
        if ((begun.after later).disturb .finish).store.isInvalidated then
          .error (flushAborted (begun.after later).store.id)
        else .ok () := by
  have hupright := hk.upright
  obtain ⟨ticket, order', begun, hbegin, hawaits⟩ := beginFlush_result hupright.ready lock order
  refine ⟨ticket, order', begun, hbegin, ?_, fun t ht later hlater => ?_⟩
  · rintro rfl
    unfold flush
    rw [hbegin]
    rfl
  · have hbegun : begun = k.step (.beginFlush lock order) := (congrArg (·.2.2) hbegin).symm
    have hstays : StaysRetired k begun := hbegun ▸ hupright.staysRetired.step _
    exact endFlush_result ((hawaits t ht).after hlater) (hstays.after later)

/-! ### Levels of river 65 -/

/-- The index of the levels when one was recorded. -/
def recordedLevels : KeptIndex :=
  (ofIndex readingsByLevel).after
    [.follow ⟨0, dropsOldWhenMoved⟩ [65] (.insert (reading "level" 97 1))]

theorem recordedLevels_reached : recordedLevels.Reached :=
  (Reached.new readingsByLevel_ofColumn).after (by simp)

/-- The flush of the levels. -/
def levelFlush : FlushTicket := ⟨0, ⟨1⟩⟩

/-- The index of the levels once this flush has begun. -/
def flushedLevels : KeptIndex := recordedLevels.step (.beginFlush {} {})

theorem beginFlush_recordedLevels :
    recordedLevels.beginFlush {} {} = (.ok (some levelFlush), { epoch := 1 }, flushedLevels) := by
  decide +kernel

/-- A flush that has begun ends well if the index is only marked as retired in the meantime. -/
theorem flush_of_marked_levels : recordedLevels.Reached ∧
    recordedLevels.beginFlush {} {} = (.ok (some levelFlush), { epoch := 1 }, flushedLevels) ∧
    ((flushedLevels.after [.beginRetirement]).endFlush (some levelFlush)).1 = .ok () := by
  refine ⟨recordedLevels_reached, beginFlush_recordedLevels, ?_⟩
  obtain ⟨ticket, order, begun, hbegin, -, hends⟩ :=
    flush_of_retired_index recordedLevels_reached {} {}
  rw [beginFlush_recordedLevels] at hbegin
  cases hbegin
  rw [hends levelFlush rfl [.beginRetirement] (by simp), if_neg (by decide +kernel)]

/-- **A flush that fails because its index was retired.**  It has begun, and waits; then the index
is retired, and the flush ends with an error.  It does too if it waits for nothing else, and the
index is retired just before it is finished. -/
theorem retired_flush_aborts : recordedLevels.Reached ∧
    recordedLevels.beginFlush {} {} = (.ok (some levelFlush), { epoch := 1 }, flushedLevels) ∧
    ((flushedLevels.after [.retire]).endFlush (some levelFlush)).1 =
      .error (.storage (.flushAborted "rivers.readings.level"
        "table rivers.readings.level has been invalidated")) ∧
    ((recordedLevels.planned (some (.finish, 0)) none).flush {} {}).1 =
      .error (.storage (.flushAborted "rivers.readings.level"
        "table rivers.readings.level has been invalidated")) := by
  refine ⟨recordedLevels_reached, beginFlush_recordedLevels, ?_, ?_⟩ <;> decide +kernel

end KeptIndex

end WideColumn
