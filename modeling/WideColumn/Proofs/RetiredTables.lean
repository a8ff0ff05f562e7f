import WideColumn.Proofs.PendingFlushes

/-!
# Tables that are retired

A table is retired for good.  Its cells go at once, those of the flushes that wait included, and it
refuses all work from then on; the flusher still completes each of these flushes, with an error.

* `TableStore.Gone` — what is left of a retired table;
* `ServedTable.isInvalidated_step`, `ServedTable.isInvalidated_run` — a table is retired from the
  moment it was retired, and not before;
* `ServedTable.Ended.run` — a flush that has ended stays as it is;
* `ServedTable.Sound.drain` — with no write running, all flushes that wait can be finished;
* `retirement_is_terminal` — **what becomes of a table and its flushes**, before it is retired and
  afterwards.
-/

namespace WideColumn

open Effects

/-! ### What is left of a retired table -/

/-- There is nothing in the table, and it refuses all work without a change. -/
structure TableStore.Gone (s : TableStore) : Prop where
  get? : ∀ key name, s.get? key name = none
  read : ∀ key, s.read key = []
  scan : s.scan = []
  segmentCount : s.segmentCount = 0
  apply : ∀ {σ : Type} (now : Int) (hook : WriteHook σ) key mutation st,
    runFrom (s.apply now hook key mutation) st = (.error (.storage (.invalidated s.id)), st)
  issueFlush : ∀ order, s.issueFlush order = .error (.invalidated s.id)
  discard : ∀ timestamp, s.discard timestamp = .error (.invalidated s.id)

namespace TableStore

variable {s : TableStore}

theorem checkValid_retired (h : s.isInvalidated = true) :
    s.checkValid = .error (.invalidated s.id) :=
  if_pos h

theorem gone_of_emptied (h : s.isInvalidated = true) (hlayers : s.layers = {}) : s.Gone where
  get? := fun key name => by
    unfold get?
    rw [hlayers]
    rfl
  read := fun key => by
    unfold read
    rw [hlayers]
    rfl
  scan := by
    unfold scan
    rw [hlayers]
    rfl
  segmentCount := by
    unfold segmentCount
    rw [hlayers]
    rfl
  apply := fun now hook key mutation st => by
    have hcheck : s.checkWrite key mutation = .error (.storage (.invalidated s.id)) := by
      unfold checkWrite
      rw [checkValid_retired h]
      rfl
    rw [apply_eq_plan, hcheck]
    rfl
  issueFlush := fun order => by
    unfold issueFlush
    rw [checkValid_retired h]
    rfl
  discard := fun timestamp => by
    unfold discard
    rw [checkValid_retired h]
    rfl

end TableStore

namespace ServedTable

variable {σ : Type} {t t' : ServedTable}

/-- Work on a retired table changes nothing. -/
theorem unchanged_of_gone (h : t.store.Gone) :
    (∀ now (hook : WriteHook σ) state key mutation, t.apply now hook state key mutation = t) ∧
      t.flush = t ∧ ∀ timestamp, t.discard timestamp = t := by
  refine ⟨fun now hook state key mutation => ?_, ?_, fun timestamp => ?_⟩
  · unfold apply
    rw [h.apply]
  · unfold flush
    rw [h.issueFlush]
  · unfold discard
    rw [h.discard]

/-! ### When a table is retired -/

theorem isInvalidated_apply (t : ServedTable) (now : Int) (hook : WriteHook σ) (state : σ)
    (key : Bytes) (mutation : List Cell) :
    (t.apply now hook state key mutation).store.isInvalidated = t.store.isInvalidated := by
  unfold apply
  rcases hrun : runFrom (t.store.apply now hook key mutation) state with ⟨e | store, state'⟩
  · rfl
  · obtain ⟨-, rfl, -⟩ := TableStore.apply_ok hrun
    rfl

theorem isInvalidated_flush (t : ServedTable) :
    t.flush.store.isInvalidated = t.store.isInvalidated := by
  unfold flush
  rcases hissue : t.store.issueFlush t.log.order with e | ⟨ticket, store, order⟩
  · rfl
  · rcases TableStore.issueFlush_parts hissue with ⟨-, -, ⟨-, rfl, rfl⟩ | ⟨-, rfl, rfl⟩⟩ <;> rfl

theorem isInvalidated_discard (t : ServedTable) (timestamp : Int) :
    (t.discard timestamp).store.isInvalidated = t.store.isInvalidated := by
  unfold discard
  cases hdiscard : t.store.discard timestamp with
  | error e => rfl
  | ok store =>
    obtain ⟨-, rfl⟩ := TableStore.discard_eq_ok.1 hdiscard
    rfl

/-- **Nothing but a retirement retires a table**, and nothing takes that back. -/
theorem isInvalidated_step {a : ServedStep σ} (h : t.Sound) (hstep : t.step a = some t') :
    t'.store.isInvalidated = true ↔ t.store.isInvalidated = true ∨ a = .invalidate := by
  have hsame : t'.store.isInvalidated = t.store.isInvalidated → a ≠ .invalidate →
      (t'.store.isInvalidated = true ↔ t.store.isInvalidated = true ∨ a = .invalidate) :=
    fun heq hne => by rw [heq, or_iff_left hne]
  cases a with
  | start =>
    cases hstep
    exact hsame rfl nofun
  | release token =>
    obtain ⟨log, -, rfl⟩ := Option.map_eq_some_iff.1 hstep
    exact hsame rfl nofun
  | barrier =>
    cases hstep
    exact hsame rfl nofun
  | apply now hook state key mutation =>
    cases hstep
    exact hsame (t.isInvalidated_apply now hook state key mutation) nofun
  | reload schema =>
    cases hstep
    exact hsame rfl nofun
  | flush =>
    cases hstep
    exact hsame t.isInvalidated_flush nofun
  | discard timestamp =>
    cases hstep
    exact hsame (t.isInvalidated_discard timestamp) nofun
  | invalidate =>
    cases hstep
    exact iff_of_true t.store.invalidate_isInvalidated (.inr rfl)
  | finish number =>
    obtain ⟨before, p, after, -, -, -, rfl⟩ := finish?_eq_some hstep
    exact hsame (TableStore.finishFlush_rearranged h.kept.layers p.ticket).isInvalidated nofun

theorem isInvalidated_run {steps : List (ServedStep σ)} (h : t.Sound)
    (hrun : t.run steps = some t') :
    t'.store.isInvalidated = true ↔ t.store.isInvalidated = true ∨ .invalidate ∈ steps := by
  induction steps generalizing t with
  | nil =>
    cases hrun
    simp
  | cons a rest ih =>
    obtain ⟨t₁, hfirst, hrest⟩ := Option.bind_eq_some_iff.1 hrun
    rw [ih (h.step hfirst) hrest, isInvalidated_step h hfirst, List.mem_cons, or_assoc,
      @eq_comm _ a]

/-! ### Flushes that have ended -/

/-- The flush of a number was issued and does not wait. -/
def Ended (t : ServedTable) (n : Nat) (f : IssuedFlush) : Prop :=
  t.flushes[n]? = some f ∧ ∀ p ∈ t.pending, p.number ≠ n

variable {n : Nat} {f : IssuedFlush}

theorem Ended.snoc (h : t.Ended n f) (g : IssuedFlush) : (t.flushes ++ [g])[n]? = some f := by
  rw [List.getElem?_append_left (List.getElem?_eq_some_iff.1 h.1).1]
  exact h.1

theorem Ended.flush (h : t.Ended n f) : t.flush.Ended n f := by
  unfold ServedTable.flush
  rcases hissue : t.store.issueFlush t.log.order with e | ⟨_ | ticket, store, order⟩
  · exact h
  · exact ⟨h.snoc _, h.2⟩
  · refine ⟨h.snoc _, fun p hp => ?_⟩
    rcases List.mem_append.1 hp with hp | hp
    · exact h.2 p hp
    · rw [List.mem_singleton.1 hp]
      exact Nat.ne_of_gt (List.getElem?_eq_some_iff.1 h.1).1

theorem Ended.step {a : ServedStep σ} (h : t.Ended n f) (hstep : t.step a = some t') :
    t'.Ended n f := by
  cases a with
  | start | barrier | reload | invalidate =>
    cases hstep
    exact h
  | release token =>
    obtain ⟨log, -, rfl⟩ := Option.map_eq_some_iff.1 hstep
    exact h
  | apply now hook state key mutation =>
    cases hstep
    unfold ServedTable.apply
    split <;> exact h
  | flush =>
    cases hstep
    exact h.flush
  | discard timestamp =>
    cases hstep
    unfold ServedTable.discard
    split
    · refine ⟨h.1, fun p hp => ?_⟩
      obtain ⟨q, hq, rfl⟩ := List.mem_map.1 hp
      exact h.2 q hq
    · exact h
  | finish number =>
    obtain ⟨before, p, after, hsplit, rfl, -, rfl⟩ := finish?_eq_some hstep
    have hp : p.number ≠ n := h.2 p (by simp [hsplit])
    refine ⟨(List.getElem?_modify_ne _ _ hp).trans h.1, fun q hq => h.2 q ?_⟩
    rw [hsplit]
    exact ((List.Sublist.refl _).middle p).subset hq

/-- **A flush that has ended stays as it is.** -/
theorem Ended.run {steps : List (ServedStep σ)} (h : t.Ended n f) (hrun : t.run steps = some t') :
    t'.Ended n f :=
  foldlM_some_keeps (P := fun t => t.Ended n f) (fun _ _ _ h hstep => h.step hstep) hrun h

/-- With no write running, all flushes that wait can be finished in turn. -/
theorem Sound.drain (h : t.Sound) (hheld : t.log.held = []) :
    ∃ t', t.run (t.pending.map fun p => (.finish p.number : ServedStep σ)) = some t' ∧
      t'.pending = [] := by
  generalize hpending : t.pending = pending
  induction pending generalizing t with
  | nil => exact ⟨t, rfl, hpending⟩
  | cons p rest ih =>
    have hp : p ∈ t.pending := hpending ▸ List.mem_cons_self
    have hready : ∀ n ∈ t.log.held, p.tokensBefore ≤ n := by
      rw [hheld]
      exact nofun
    have hrest : t.pending.eraseP (·.number = p.number) = rest := by
      rw [hpending]
      exact List.eraseP_cons_of_pos (decide_eq_true rfl)
    obtain ⟨t₁, hfinish, hlog, hpending₁⟩ : ∃ t₁, t.finish? p.number = some t₁ ∧
        t₁.log = t.log ∧ t₁.pending = t.pending.eraseP (·.number = p.number) := by
      rw [h.finish_eq hp, if_pos hready]
      refine ⟨_, rfl, ?_⟩
      split
      · exact ⟨rfl, rfl⟩
      · exact ⟨rfl, rfl⟩
    obtain ⟨t', hrun, hnone⟩ := ih (h.finish hfinish) (by rw [hlog, hheld])
      (hpending₁.trans hrest)
    exact ⟨t', Option.bind_eq_some_iff.2 ⟨t₁, hfinish, hrun⟩, hnone⟩

end ServedTable

open ServedTable

/-- **A table is retired for good, and each of its flushes ends once.**  From its retirement on
there is nothing in the table, and it refuses all work without a change.  At all times each flush
waits or has ended, and one that has ended stays as it is.  One that waits can be finished as soon
as no token from before its call is held: then its memtable becomes the last segment, without the
cells that were truncated meanwhile, and it ends well; or it ends with an error, if the table is
retired by then, and leaves the table alone. -/
theorem retirement_is_terminal {σ : Type} {schema : TableSchema} {steps : List (ServedStep σ)}
    {t : ServedTable} (hrun : (ServedTable.ofSchema schema).run steps = some t) :
    (t.store.isInvalidated = true ↔ .invalidate ∈ steps) ∧
    (.invalidate ∈ steps → t.store.Gone ∧
      (∀ now (hook : WriteHook σ) state key mutation, t.apply now hook state key mutation = t) ∧
      t.flush = t ∧ ∀ timestamp, t.discard timestamp = t) ∧
    FlushQueue t.store.id t.pending t.flushes ∧
    (∀ (more : List (ServedStep σ)) t', t.run more = some t' →
      ∀ n f, t.Ended n f → t'.Ended n f) ∧
    (∀ p ∈ t.pending, t.finish? p.number =
      if ∀ n ∈ t.log.held, p.tokensBefore ≤ n then
        some (if t.store.isInvalidated then t.aborted p else t.flushed p)
      else none) ∧
    (∀ p ∈ t.pending, ∀ key name, p.kept.cell? key name =
      (p.taken.cell? key name).filter fun c => p.truncations.all (· < c.timestamp)) ∧
    (t.log.held = [] →
      ∃ t', t.run (t.pending.map fun p => (.finish p.number : ServedStep σ)) = some t' ∧
        t'.pending = []) := by
  have h := (Sound.ofSchema schema).run hrun
  have hretired : t.store.isInvalidated = true ↔ .invalidate ∈ steps := by
    rw [isInvalidated_run (Sound.ofSchema schema) hrun]
    exact or_iff_right nofun
  refine ⟨hretired, fun hmem => ?_, h.queue, fun more t' hmore n f hf => hf.run hmore,
    fun p hp => h.finish_eq hp, fun p hp => PendingFlush.cell?_kept (h.kept.taken p hp), h.drain⟩
  have hgone := TableStore.gone_of_emptied (hretired.2 hmem) (h.kept.emptied (hretired.2 hmem))
  exact ⟨hgone, unchanged_of_gone hgone⟩

/-- A level and a note of river 65, each flushed; a write that was running by then has ended, and
the level was truncated. -/
def flushedReadings : List (ServedStep Unit) :=
  [.start, .apply 0 .none () [65] [reading "level" 97 1], .flush,
    .apply 0 .none () [65] [reading "note" 97 2], .flush, .discard 1, .release 0]

/-- Both flushes can be finished, in an open table and in a retired one. -/
theorem flushedReadings_finish :
    (∃ t, (ServedTable.ofSchema readings).run flushedReadings = some t ∧
      t.pending.map (·.number) = [0, 1] ∧
      ∀ p ∈ t.pending, t.finish? p.number = some (t.flushed p)) ∧
    ∃ t, (ServedTable.ofSchema readings).run (flushedReadings ++ [.invalidate]) = some t ∧
      t.pending.map (·.number) = [0, 1] ∧ t.store.Gone ∧
      ∀ p ∈ t.pending, t.finish? p.number = some (t.aborted p) := by
  have hends : ∀ steps retired, ((ServedTable.ofSchema readings).run steps).map
        (fun t => (t.pending.map (·.number), t.log.held, t.store.isInvalidated)) =
          some ([0, 1], [], retired) →
      ∃ t, (ServedTable.ofSchema readings).run (steps : List (ServedStep Unit)) = some t ∧
        t.pending.map (·.number) = [0, 1] ∧
        ∀ p ∈ t.pending, t.finish? p.number =
          some (if retired then t.aborted p else t.flushed p) := by
    intro steps retired hview
    obtain ⟨t, ht, hparts⟩ := Option.map_eq_some_iff.1 hview
    obtain ⟨hnumbers, hheld, hretired⟩ : _ ∧ _ ∧ _ := by
      simpa only [Prod.mk.injEq] using hparts
    obtain ⟨-, -, -, -, hfinish, -⟩ := retirement_is_terminal ht
    refine ⟨t, ht, hnumbers, fun p hp => ?_⟩
    have hready : ∀ n ∈ t.log.held, p.tokensBefore ≤ n := by
      rw [hheld]
      exact nofun
    rw [hfinish p hp, if_pos hready, hretired]
  obtain ⟨t, ht, hnumbers, hflushed⟩ := hends flushedReadings false (by decide +kernel)
  obtain ⟨t', ht', hnumbers', haborted⟩ :=
    hends (flushedReadings ++ [.invalidate]) true (by decide +kernel)
  obtain ⟨-, hgone, -⟩ := retirement_is_terminal ht'
  exact ⟨⟨t, ht, hnumbers, hflushed⟩,
    t', ht', hnumbers', (hgone (List.mem_append_right _ List.mem_cons_self)).1, haborted⟩

end WideColumn
