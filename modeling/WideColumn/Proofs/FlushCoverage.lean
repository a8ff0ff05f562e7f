import WideColumn.Proofs.Deployments
import WideColumn.Proofs.WriteEpochs

/-!
# Which writes a flush covers

A table whose writes run under tokens.  A flush takes the memtable away when it is called, and
finishes when no token from before the call is held.  A write stores its cells when it is applied,
whatever its token; so a flush covers the writes that were applied before its call, and not those
that were only started before it.

* `FlushedTable.step` — one step of such a table, with a record of what was written and flushed;
* `FlushedTable.Sound` — **which cells the memtable holds, and which lie below it**, by step
  (`Sound.step`) and for all runs (`Sound.run`);
* `flush_covers_iff` — when nothing written under a token from before the call is in the memtable;
* `flush_misses_late_write` — a write that a finished flush does not cover.
-/

namespace WideColumn

open Effects

/-! ### Runs -/

/-- What a write has stored. -/
structure StoredWrite where
  /-- The number of the write's token. -/
  token : Nat
  key : Bytes
  cells : Partition

/-- A flush that was called. -/
structure FlushCall where
  ticket : Option FlushTicket
  status : FlushStatus
  /-- How many tokens had been taken before the call. -/
  tokensBefore : Nat
  /-- How many writes had been applied before the call. -/
  writesBefore : Nat

/-- A table whose writes run under tokens, with all that was written and flushed. -/
structure FlushedTable where
  store : TableStore
  log : TokenLog := {}
  /-- The writes that succeeded, in the order in which they were applied. -/
  written : List StoredWrite := []
  /-- The flushes, in the order of their calls. -/
  flushes : List FlushCall := []

/-- What can happen to such a table.  The hooks of its writes work on states of a type. -/
inductive FlushedStep (σ : Type) where
  /-- Takes a token. -/
  | start
  /-- A write under a token that is held, with a hook and the state that it works on. -/
  | apply (token : Nat) (now : Int) (hook : WriteHook σ) (state : σ) (key : Bytes)
    (mutation : List Cell)
  | release (token : Nat)
  /-- Calls a flush. -/
  | flush
  /-- Finishes the flush of a number. -/
  | finish (number : Nat)

namespace FlushedTable

/-- An empty table. -/
def ofSchema (schema : TableSchema) : FlushedTable := { store := .ofSchema schema }

/-- The table after a write under a token; a write that fails changes nothing. -/
def apply {σ : Type} (t : FlushedTable) (token : Nat) (now : Int) (hook : WriteHook σ) (state : σ)
    (key : Bytes) (mutation : List Cell) : FlushedTable :=
  match runFrom (t.store.apply now hook key mutation) state with
  | (.ok store, _) =>
    let stored : StoredWrite := ⟨token, key, t.store.winners now key mutation⟩
    { t with store, written := t.written ++ [stored] }
  | (.error _, _) => t

/-- Calls a flush, unless the table is retired. -/
def flush? (t : FlushedTable) : Option FlushedTable :=
  match t.store.issueFlush t.log.order with
  | .ok (ticket, store, order) =>
    let id := t.store.id
    let call : FlushCall :=
      { ticket
        status := if ticket.isSome then .pending id else .completed id
        tokensBefore := t.log.tokens.length
        writesBefore := t.written.length }
    some { t with store, log := { t.log with order }, flushes := t.flushes ++ [call] }
  | .error _ => none

/-- Finishes a flush that is under way and whose barrier is complete. -/
def finish? (t : FlushedTable) (number : Nat) : Option FlushedTable :=
  match t.flushes[number]? with
  | none => none
  | some f =>
    match f.ticket with
    | none => none
    | some ticket =>
      if f.status.isDone || !t.log.order.isComplete ticket.barrier then none
      else
        let (result, store) := t.store.finishFlush ticket
        some { t with
          store
          flushes := t.flushes.set number { f with status := f.status.complete result } }

/-- One step, unless it is impossible. -/
def step {σ : Type} (t : FlushedTable) : FlushedStep σ → Option FlushedTable
  | .start => some { t with log := t.log.start }
  | .apply token now hook state key mutation =>
    if token ∈ t.log.held then some (t.apply token now hook state key mutation) else none
  | .release token => (t.log.release? token).map fun log => { t with log }
  | .flush => t.flush?
  | .finish number => t.finish? number

/-- Steps in turn, all of which are possible. -/
def run {σ : Type} (t : FlushedTable) (steps : List (FlushedStep σ)) : Option FlushedTable :=
  steps.foldlM step t

end FlushedTable

/-! ### What layers hold -/

namespace Layers

/-- One of the layers holds the cell, or one that supersedes it. -/
def Hold (layers : List Partitions) (key name : Bytes) (c : Cell) : Prop :=
  ∃ ps ∈ layers, ∃ d, ps.cell? key name = some d ∧ (d = c ∨ d.supersedes c = true)

/-- Every cell of the memtable supersedes those of its name below it. -/
def MemtableAbove (l : Layers) : Prop :=
  ∀ key name c, l.memtable.cell? key name = some c →
    ∀ ps ∈ l.below, ∀ d, ps.cell? key name = some d → c.supersedes d = true

variable {l l' : Layers} {key name : Bytes} {c d : Cell} {cells : Partition}

theorem Supersede.of_mem_sources (h : l.Supersede key cells) (hc : cells.find? name = some c)
    {ps : Partitions} (hps : ps ∈ l.sources) (hd : ps.cell? key name = some d) :
    c.supersedes d = true :=
  supersedes_of_supersedes_newest (fun e he => h name c e hc (by rw [lookup_eq_newest, he]))
    (mem_cellsOf.2 ⟨ps, hps, hd⟩)

/-- A cell that is above all that lie below it was not there before. -/
theorem MemtableAbove.not_hold (h : l.MemtableAbove) (hc : l.memtable.cell? key name = some c) :
    ¬ Hold l.below key name c := by
  rintro ⟨ps, hps, d, hd, hdc⟩
  have hcd := h key name c hc ps hps d hd
  rcases hdc with rfl | hdc
  · rw [Cell.supersedes_irrefl] at hcd
    cases hcd
  · rw [Cell.supersedes_asymm hcd] at hdc
    cases hdc

theorem MemtableAbove.store (h : l.MemtableAbove) (hcells : cells.WellFormed)
    (hsup : l.Supersede key cells) : (l.store key cells).MemtableAbove := by
  intro k name c hc ps hps d hd
  rw [below_store] at hps
  rw [cell?_memtable_store l key hcells] at hc
  split at hc
  · rename_i hk
    subst hk
    rcases Option.or_eq_some_iff.1 hc with hc | ⟨-, hc⟩
    · exact hsup.of_mem_sources hc (List.mem_append_left _ hps) hd
    · exact h k name c hc ps hps d hd
  · exact h k name c hc ps hps d hd

/-- A cell that is stored is held. -/
theorem hold_store_self (hcells : cells.WellFormed) (hc : cells.find? name = some c) :
    Hold (l.store key cells).sources key name c := by
  refine ⟨(l.store key cells).memtable, by simp [sources], c, ?_, .inl rfl⟩
  rw [cell?_memtable_store l key hcells, if_pos rfl, hc]
  rfl

/-- What was held stays so, or is superseded by the cell that takes its place. -/
theorem Hold.store (h : Hold l.sources key name c) {key' : Bytes} (hcells : cells.WellFormed)
    (hsup : l.Supersede key' cells) : Hold (l.store key' cells).sources key name c := by
  obtain ⟨ps, hps, d, hd, hdc⟩ := h
  rcases List.mem_append.1 hps with hbelow | hmem
  · rw [← below, ← below_store l key' cells] at hbelow
    exact ⟨ps, List.mem_append_left _ hbelow, d, hd, hdc⟩
  · rw [List.mem_singleton.1 hmem] at hd
    have hcell := cell?_memtable_store l key' hcells key name
    by_cases hk : key = key'
    · subst hk
      cases hnew : cells.find? name with
      | none =>
        refine ⟨_, List.mem_append_right _ (List.mem_singleton.2 rfl), d, ?_, hdc⟩
        rw [hcell, if_pos rfl, hnew, Option.none_or, hd]
      | some e =>
        have hed : e.supersedes d = true :=
          hsup.of_mem_sources hnew (List.mem_append_right _ (List.mem_singleton.2 rfl)) hd
        refine ⟨_, List.mem_append_right _ (List.mem_singleton.2 rfl), e, ?_, .inr ?_⟩
        · rw [hcell, if_pos rfl, hnew]
          rfl
        · rcases hdc with rfl | hdc
          · exact hed
          · exact Cell.supersedes_trans hed hdc
    · refine ⟨_, List.mem_append_right _ (List.mem_singleton.2 rfl), d, ?_, hdc⟩
      rw [hcell, if_neg hk, hd]

/-- A flush that is finished leaves the memtable, and what lies below it stays there. -/
theorem finishFlush?_below {generation : Nat} (h : l.finishFlush? generation = some l') :
    l'.memtable = l.memtable ∧ l'.below.Perm l.below := by
  have hmemtable : l'.memtable = l.memtable := by
    unfold finishFlush? at h
    split at h
    · cases h
    · cases h
      rfl
  refine ⟨hmemtable, (List.perm_append_right_iff [l.memtable]).1 ?_⟩
  have hsources : (l'.below ++ [l'.memtable]).Perm (l.below ++ [l.memtable]) :=
    sources_finishFlush h
  rwa [hmemtable] at hsources

theorem Hold.perm {layers layers' : List Partitions} (h : Hold layers key name c)
    (hp : layers'.Perm layers) : Hold layers' key name c := by
  obtain ⟨ps, hps, d, hd⟩ := h
  exact ⟨ps, hp.mem_iff.2 hps, d, hd⟩

end Layers

/-! ### A flush that is called, and one that is finished -/

namespace TableStore

variable {s s' : TableStore}

/-- A flush that is called leaves no memtable, and what was there lies below it. -/
structure MemtableTaken (s s' : TableStore) : Prop where
  memtable : s'.layers.memtable = []
  layers : s.layers.WellFormed → s'.layers.WellFormed
  hold : ∀ key name c, Layers.Hold s.layers.sources key name c →
    Layers.Hold s'.layers.below key name c

theorem issueFlush_ok {order order' : WriteOrder} {ticket : Option FlushTicket}
    (h : s.issueFlush order = .ok (ticket, s', order')) :
    order' = order.barrier.2 ∧ (∀ t, ticket = some t → t.barrier = order.barrier.1) ∧
      MemtableTaken s s' := by
  rcases issueFlush_parts h with ⟨-, rfl, ⟨hempty, rfl, rfl⟩ | ⟨-, rfl, rfl⟩⟩
  · refine ⟨rfl, nofun, hempty, fun hwf => hwf, ?_⟩
    rintro key name c ⟨ps, hps, d, hd, hdc⟩
    rcases List.mem_append.1 hps with hps | hps
    · exact ⟨ps, hps, d, hd, hdc⟩
    · rw [List.mem_singleton.1 hps, hempty] at hd
      cases hd
  · refine ⟨rfl, fun t ht => ?_, rfl, fun hwf => hwf.takeMemtable, fun key name c hc => ?_⟩
    · cases ht
      rfl
    · have hbelow : s.layers.takeMemtable.2.below = s.layers.sources := by
        simp [Layers.takeMemtable, Layers.below, Layers.sources]
      exact hbelow.symm ▸ hc

/-- A flush that is finished leaves the memtable, and what lies below it stays there. -/
theorem finishFlush_below (s : TableStore) (ticket : FlushTicket) :
    (s.finishFlush ticket).2.layers.memtable = s.layers.memtable ∧
      (s.finishFlush ticket).2.layers.below.Perm s.layers.below := by
  unfold finishFlush
  cases h : s.layers.finishFlush? ticket.generation with
  | none => exact ⟨rfl, .refl _⟩
  | some layers => exact Layers.finishFlush?_below h

end TableStore

/-! ### What every step keeps -/

namespace FlushedTable

/-- The write stored a cell that counts in the memtable. -/
def InMemtableAs (t : FlushedTable) (w : StoredWrite) (c : Cell) : Prop :=
  w.cells.find? c.name = some c ∧ t.store.layers.memtable.cell? w.key c.name = some c

instance (t : FlushedTable) (w : StoredWrite) (c : Cell) : Decidable (t.InMemtableAs w c) :=
  inferInstanceAs (Decidable (_ ∧ _))

/-- Some cell that the write stored counts in the memtable. -/
def InMemtable (t : FlushedTable) (w : StoredWrite) : Prop := ∃ c, t.InMemtableAs w c

/-- The layers below the memtable, flushed or being flushed, hold all cells of the write, or cells
that supersede them. -/
def BelowMemtable (t : FlushedTable) (w : StoredWrite) : Prop :=
  ∀ name c, w.cells.find? name = some c → Layers.Hold t.store.layers.below w.key name c

/-- **What is known of a flush from its call on.** -/
structure CallSound (t : FlushedTable) (f : FlushCall) : Prop where
  written : f.writesBefore ≤ t.written.length
  taken : f.tokensBefore ≤ t.log.tokens.length
  memtable : ∀ key name c, t.store.layers.memtable.cell? key name = some c →
    ∃ w ∈ t.written.drop f.writesBefore, w.key = key ∧ w.cells.find? name = some c
  below : ∀ w ∈ t.written.take f.writesBefore, t.BelowMemtable w
  barrier : ∀ ticket, f.ticket = some ticket → ticket.barrier.epoch ≤ t.log.order.epoch ∧
    ∀ n token, t.log.tokens[n]? = some token →
      (token.isBefore ticket.barrier = true ↔ n < f.tokensBefore)
  waited : f.ticket.isSome → f.status.isDone → ∀ n ∈ t.log.held, f.tokensBefore ≤ n

/-- **Which cells the memtable holds, and which lie below it.** -/
structure Sound (t : FlushedTable) : Prop where
  layers : t.store.layers.WellFormed
  log : t.log.Sound
  above : t.store.layers.MemtableAbove
  held : ∀ w ∈ t.written, ∀ name c, w.cells.find? name = some c →
    Layers.Hold t.store.layers.sources w.key name c
  calls : ∀ f ∈ t.flushes, t.CallSound f

theorem Sound.ofSchema (schema : TableSchema) : (ofSchema schema).Sound where
  layers := Layers.WellFormed.empty
  log := TokenLog.Sound.empty
  above := fun _ _ _ h => by cases h
  held := nofun
  calls := nofun

variable {t t' : FlushedTable}

/-- The barrier of a call is after the tokens that were taken before the call. -/
theorem CallSound.separates {f : FlushCall} (hf : t.CallSound f) {ticket : FlushTicket}
    (hticket : f.ticket = some ticket) : t.log.Separates ticket.barrier f.tokensBefore :=
  ⟨(hf.barrier ticket hticket).1, hf.taken, (hf.barrier ticket hticket).2⟩

theorem CallSound.start {f : FlushCall} (hf : t.CallSound f) :
    CallSound { t with log := t.log.start } f where
  written := hf.written
  taken := by
    have := hf.taken
    show f.tokensBefore ≤ t.log.start.tokens.length
    rw [TokenLog.length_start]
    omega
  memtable := hf.memtable
  below := hf.below
  barrier := fun ticket hticket =>
    have hnext := (hf.separates hticket).start
    ⟨hnext.set, hnext.isBefore_iff⟩
  waited := fun hticket hdone n hn => by
    rcases List.mem_append.1 hn with hn | hn
    · exact hf.waited hticket hdone n hn
    · rw [List.mem_singleton.1 hn]
      exact hf.taken

theorem Sound.start (h : t.Sound) : Sound { t with log := t.log.start } :=
  ⟨h.layers, h.log.start, h.above, h.held, fun f hf => (h.calls f hf).start⟩

theorem Sound.release (h : t.Sound) {n : Nat} {log : TokenLog} (hl : t.log.release? n = some log) :
    Sound { t with log } := by
  refine ⟨h.layers, h.log.release hl, h.above, h.held, fun f hf => ?_⟩
  have hcall := h.calls f hf
  have hbarrier : ∀ ticket, f.ticket = some ticket → log.Separates ticket.barrier f.tokensBefore :=
    fun ticket hticket => (hcall.separates hticket).release hl
  obtain ⟨token, -, -, rfl⟩ := TokenLog.release?_eq_some hl
  exact ⟨hcall.written, hcall.taken, hcall.memtable, hcall.below,
    fun ticket hticket => ⟨(hbarrier ticket hticket).set, (hbarrier ticket hticket).isBefore_iff⟩,
    fun hticket hdone m hm => hcall.waited hticket hdone m (List.mem_of_mem_erase hm)⟩

/-- A write puts its cells into the memtable only, and is itself applied after the call. -/
theorem CallSound.append {f : FlushCall} (hf : t.CallSound f) {w : StoredWrite}
    (hcells : w.cells.WellFormed) {store : TableStore}
    (hlayers : store.layers = t.store.layers.store w.key w.cells) :
    CallSound { t with store, written := t.written ++ [w] } f where
  written := by
    have := hf.written
    show f.writesBefore ≤ (t.written ++ [w]).length
    rw [List.length_append]
    omega
  taken := hf.taken
  memtable := fun key name c hc => by
    have hold : t.store.layers.memtable.cell? key name = some c →
        ∃ v ∈ t.written.drop f.writesBefore ++ [w], v.key = key ∧ v.cells.find? name = some c := by
      intro hc
      obtain ⟨v, hv, hkey, hfind⟩ := hf.memtable key name c hc
      exact ⟨v, List.mem_append_left _ hv, hkey, hfind⟩
    have hcell : store.layers.memtable.cell? key name = some c := hc
    rw [hlayers, Layers.cell?_memtable_store _ w.key hcells] at hcell
    show ∃ v ∈ List.drop f.writesBefore (t.written ++ [w]), _
    rw [List.drop_append_of_le_length hf.written]
    split at hcell
    · rename_i hk
      subst hk
      rcases Option.or_eq_some_iff.1 hcell with hnew | ⟨-, hc⟩
      · exact ⟨w, List.mem_append_right _ (List.mem_singleton.2 rfl), rfl, hnew⟩
      · exact hold hc
    · exact hold hcell
  below := fun v hv name c hc => by
    have hv : v ∈ List.take f.writesBefore (t.written ++ [w]) := hv
    rw [List.take_append_of_le_length hf.written] at hv
    show Layers.Hold store.layers.below v.key name c
    rw [hlayers, Layers.below_store]
    exact hf.below v hv name c hc
  barrier := hf.barrier
  waited := hf.waited

theorem Sound.apply {σ : Type} (h : t.Sound) (token : Nat) (now : Int) (hook : WriteHook σ)
    (state : σ) (key : Bytes) (mutation : List Cell) :
    (t.apply token now hook state key mutation).Sound := by
  unfold FlushedTable.apply
  rcases hrun : runFrom (t.store.apply now hook key mutation) state with ⟨e | store, state'⟩
  · exact h
  · obtain ⟨-, rfl, -⟩ := TableStore.apply_ok hrun
    have hwf := t.store.winners_wellFormed now key mutation
    have hsup := t.store.winners_supersede now key mutation
    refine ⟨TableStore.written_wellFormed h.layers now key mutation, h.log, h.above.store hwf hsup,
      fun w hw name c hc => ?_, fun f hf => (h.calls f hf).append hwf rfl⟩
    rcases List.mem_append.1 hw with hw | hw
    · exact (h.held w hw name c hc).store hwf hsup
    · cases List.mem_singleton.1 hw
      exact Layers.hold_store_self hwf hc

theorem Sound.flush (h : t.Sound) (hstep : t.flush? = some t') : t'.Sound := by
  unfold flush? at hstep
  rcases hissue : t.store.issueFlush t.log.order with e | ⟨ticket, store, order⟩
  · simp [hissue] at hstep
  · simp only [hissue, Option.some.injEq] at hstep
    subst hstep
    obtain ⟨rfl, hticket, htaken⟩ := TableStore.issueFlush_ok hissue
    have hempty : ∀ key name c, store.layers.memtable.cell? key name ≠ some c := by
      intro key name c hc
      rw [htaken.memtable] at hc
      cases hc
    have hbelow : ∀ w ∈ t.written, ∀ name c, w.cells.find? name = some c →
        Layers.Hold store.layers.below w.key name c :=
      fun w hw name c hc => htaken.hold w.key name c (h.held w hw name c hc)
    refine ⟨htaken.layers h.layers, h.log.setBarrier, fun key name c hc => ?_,
      fun w hw name c hc => ?_, fun f hf => ?_⟩
    · exact absurd hc (hempty key name c)
    · obtain ⟨ps, hps, hd⟩ := hbelow w hw name c hc
      exact ⟨ps, List.mem_append_left _ hps, hd⟩
    · rcases List.mem_append.1 hf with hf | hf
      · have hcall := h.calls f hf
        refine ⟨hcall.written, hcall.taken, fun key name c hc => absurd hc (hempty key name c),
          fun w hw => hbelow w (List.mem_of_mem_take hw), fun ticket hticket => ?_, hcall.waited⟩
        obtain ⟨hepoch, hbefore⟩ := hcall.barrier ticket hticket
        exact ⟨Nat.le_succ_of_le hepoch, hbefore⟩
      · cases List.mem_singleton.1 hf
        refine ⟨Nat.le_refl _, Nat.le_refl _, fun key name c hc => absurd hc (hempty key name c),
          fun w hw => hbelow w (List.mem_of_mem_take hw), fun u hu => ?_, fun hsome hdone => ?_⟩
        · rw [hticket u hu]
          exact ⟨h.log.separates.set, h.log.separates.isBefore_iff⟩
        · have hdone : (if ticket.isSome then FlushStatus.pending t.store.id
              else FlushStatus.completed t.store.id).isDone = true := hdone
          rw [if_pos hsome] at hdone
          cases hdone

/-- What is known of a call is kept when a flush is finished, its own if no earlier token is
held. -/
theorem CallSound.settle {f : FlushCall} (hf : t.CallSound f) (ticket : FlushTicket)
    {status : FlushStatus}
    (hwaited : f.ticket.isSome → status.isDone → ∀ n ∈ t.log.held, f.tokensBefore ≤ n)
    (flushes : List FlushCall) :
    CallSound { t with store := (t.store.finishFlush ticket).2, flushes } { f with status } := by
  obtain ⟨hmemtable, hperm⟩ := t.store.finishFlush_below ticket
  refine ⟨hf.written, hf.taken, fun key name c hc => ?_, fun w hw name c hc => ?_, hf.barrier,
    hwaited⟩
  · rw [hmemtable] at hc
    exact hf.memtable key name c hc
  · exact (hf.below w hw name c hc).perm hperm

/-- If the barrier of a call is complete, no token from before it is held. -/
theorem Sound.released (h : t.Sound) {f : FlushCall} (hf : t.CallSound f) {ticket : FlushTicket}
    (hticket : f.ticket = some ticket) (hcomplete : t.log.order.isComplete ticket.barrier = true) :
    ∀ n ∈ t.log.held, f.tokensBefore ≤ n :=
  ((hf.separates hticket).isComplete_iff h.log).1 hcomplete

theorem Sound.finish (h : t.Sound) {number : Nat} (hstep : t.finish? number = some t') :
    t'.Sound := by
  unfold finish? at hstep
  cases hnumber : t.flushes[number]? with
  | none => simp [hnumber] at hstep
  | some f =>
    obtain ⟨ticket?, status, tokensBefore, writesBefore⟩ := f
    cases ticket? with
    | none => simp [hnumber] at hstep
    | some ticket =>
      simp only [hnumber] at hstep
      split at hstep
      · cases hstep
      · rename_i hready
        simp only [Bool.or_eq_true, Bool.not_eq_true', not_or, Bool.not_eq_false] at hready
        simp only [Option.some.injEq] at hstep
        subst hstep
        obtain ⟨hmemtable, hperm⟩ := t.store.finishFlush_below ticket
        have hsame := TableStore.finishFlush_rearranged h.layers ticket
        have hsources :
            (t.store.finishFlush ticket).2.layers.sources.Perm t.store.layers.sources := by
          show (Layers.below _ ++ [Layers.memtable _]).Perm (Layers.below _ ++ [Layers.memtable _])
          rw [hmemtable]
          exact hperm.append_right _
        refine ⟨hsame.layers, h.log, fun key name c hc ps hps d hd => ?_,
          fun w hw name c hc => (h.held w hw name c hc).perm hsources, fun g hg => ?_⟩
        · rw [hmemtable] at hc
          exact h.above key name c hc ps (hperm.mem_iff.1 hps) d hd
        · have hcall := h.calls _ (List.mem_of_getElem? hnumber)
          rcases List.mem_or_eq_of_mem_set hg with hg | rfl
          · exact (h.calls g hg).settle ticket (h.calls g hg).waited _
          · exact hcall.settle ticket (fun _ _ => h.released hcall rfl hready.2) _

/-- **What every step keeps.** -/
theorem Sound.step {σ : Type} (h : t.Sound) {a : FlushedStep σ} (hstep : t.step a = some t') :
    t'.Sound := by
  cases a with
  | start =>
    cases hstep
    exact h.start
  | apply token now hook state key mutation =>
    simp only [FlushedTable.step] at hstep
    split at hstep
    · cases hstep
      exact h.apply token now hook state key mutation
    · cases hstep
  | release token =>
    obtain ⟨log, hl, rfl⟩ := Option.map_eq_some_iff.1 hstep
    exact h.release hl
  | flush => exact h.flush hstep
  | finish number => exact h.finish hstep

/-- **What holds after every run.** -/
theorem Sound.run {σ : Type} {steps : List (FlushedStep σ)} (h : t.Sound)
    (hrun : t.run steps = some t') : t'.Sound :=
  foldlM_some_keeps (P := Sound) (fun _ _ _ h hstep => h.step hstep) hrun h

/-- A write that was applied before the call of a flush has no cell in the memtable. -/
theorem Sound.not_inMemtable (h : t.Sound) {f : FlushCall} (hf : t.CallSound f) {w : StoredWrite}
    (hw : w ∈ t.written.take f.writesBefore) : ¬ t.InMemtable w := by
  rintro ⟨c, hfind, hcell⟩
  exact h.above.not_hold hcell (hf.below w hw c.name c hfind)

/-! ### What a flush covers -/

/-- No write whose token was taken before the call has a cell in the memtable. -/
def Covers (t : FlushedTable) (f : FlushCall) : Prop :=
  ∀ w ∈ t.written, w.token < f.tokensBefore → ¬ t.InMemtable w

end FlushedTable

open FlushedTable

/-- **What a flush covers**, at any time after its call.  All that the memtable holds was stored by
writes that were applied after the call; what was applied before lies below it.  So the flush
covers every write whose token was taken before the call, unless one of them was applied after it
and still counts in the memtable.  That no such token is held when the flush has finished does not
rule this out. -/
theorem flush_covers_iff {σ : Type} {schema : TableSchema} {steps : List (FlushedStep σ)}
    {t : FlushedTable} (hrun : (FlushedTable.ofSchema schema).run steps = some t) {f : FlushCall}
    (hf : f ∈ t.flushes) :
    (∀ key name c, t.store.layers.memtable.cell? key name = some c →
      ∃ w ∈ t.written.drop f.writesBefore, w.key = key ∧ w.cells.find? name = some c) ∧
    (∀ w ∈ t.written.take f.writesBefore, t.BelowMemtable w ∧ ¬ t.InMemtable w) ∧
    (t.Covers f ↔
      ∀ w ∈ t.written.drop f.writesBefore, w.token < f.tokensBefore → ¬ t.InMemtable w) ∧
    (∀ ticket, f.ticket = some ticket →
      (∀ n token, t.log.tokens[n]? = some token →
        (token.isBefore ticket.barrier = true ↔ n < f.tokensBefore)) ∧
      (f.status.isDone → ∀ n ∈ t.log.held, f.tokensBefore ≤ n)) := by
  have h := (Sound.ofSchema schema).run hrun
  have hcall := h.calls f hf
  refine ⟨hcall.memtable, fun w hw => ⟨hcall.below w hw, h.not_inMemtable hcall hw⟩,
    ⟨fun hcovers w hw => hcovers w (List.mem_of_mem_drop hw), fun hlate w hw htoken => ?_⟩,
    fun ticket hticket => ⟨(hcall.barrier ticket hticket).2, hcall.waited (by simp [hticket])⟩⟩
  rw [← List.take_append_drop f.writesBefore t.written] at hw
  rcases List.mem_append.1 hw with hw | hw
  · exact h.not_inMemtable hcall hw
  · exact hlate w hw htoken

/-! ### A level and a note of river 65 -/

/-- A write of one reading under a token. -/
def writeReading (token : Nat) (column : String) : FlushedStep Unit :=
  .apply token 0 WriteHook.none () [65] [reading column 97 1]

/-- The level is written under a token from before the flush, and the note under a later one. -/
def noteAfterFlush : List (FlushedStep Unit) :=
  [.start, writeReading 0 "level", .flush, .start, writeReading 1 "note", .release 0, .finish 0]

/-- Both are written under tokens from before the flush, but the note is written after it. -/
def lateNote : List (FlushedStep Unit) :=
  [.start, .start, writeReading 1 "level", .flush, writeReading 0 "note", .release 0, .release 1,
    .finish 0]

/-- A flush covers the level that was written before it. -/
theorem flush_covers_level : ∃ t f, (FlushedTable.ofSchema readings).run noteAfterFlush = some t ∧
    f ∈ t.flushes ∧ f.status.wait? = some (.ok ()) ∧ t.Covers f := by
  obtain ⟨t, ht⟩ : ∃ t, (FlushedTable.ofSchema readings).run noteAfterFlush = some t :=
    Option.isSome_iff_exists.1 (by decide +kernel)
  have hview : ((FlushedTable.ofSchema readings).run noteAfterFlush).map (fun t =>
      (t.written.map (·.token),
        t.flushes.map fun f =>
          (f.tokensBefore, f.writesBefore, decide (f.status.wait? = some (.ok ()))))) =
      some ([0, 1], [(1, 1, true)]) := by decide +kernel
  rw [ht] at hview
  simp only [Option.map_some, Option.some.injEq, Prod.mk.injEq] at hview
  obtain ⟨htokens, hflushes⟩ := hview
  obtain ⟨f, hf, hcall⟩ := List.map_eq_singleton_iff.1 hflushes
  have hmem : f ∈ t.flushes := by simp [hf]
  simp only [Prod.mk.injEq] at hcall
  obtain ⟨hbefore, hwrites, hwait⟩ := hcall
  obtain ⟨-, -, hcovers, -⟩ := flush_covers_iff ht hmem
  refine ⟨t, f, ht, hmem, of_decide_eq_true hwait, hcovers.2 fun w hw htoken => ?_⟩
  have hlater : w.token ∈ (t.written.map (·.token)).drop 1 := by
    rw [← List.map_drop, ← hwrites]
    exact List.mem_map_of_mem hw
  rw [htokens] at hlater
  have hone : w.token = 1 := by simpa using hlater
  omega

/-- **A write that a finished flush does not cover.**  The flush has ended well and both tokens
have been given back, but the note is still in the memtable. -/
theorem flush_misses_late_write : ∃ t f, (FlushedTable.ofSchema readings).run lateNote = some t ∧
    f ∈ t.flushes ∧ f.status.wait? = some (.ok ()) ∧ t.log.held = [] ∧ ¬ t.Covers f := by
  obtain ⟨t, ht⟩ : ∃ t, (FlushedTable.ofSchema readings).run lateNote = some t :=
    Option.isSome_iff_exists.1 (by decide +kernel)
  have hview : ((FlushedTable.ofSchema readings).run lateNote).map (fun t =>
      (t.written.map fun w => (w.token, decide (InMemtableAs t w (reading "note" 97 1))),
        t.flushes.map fun f => (f.tokensBefore, decide (f.status.wait? = some (.ok ()))),
        t.log.held)) =
      some ([(1, false), (0, true)], [(2, true)], []) := by decide +kernel
  rw [ht] at hview
  simp only [Option.map_some, Option.some.injEq, Prod.mk.injEq] at hview
  obtain ⟨hwritten, hflushes, hheld⟩ := hview
  obtain ⟨f, hf, hcall⟩ := List.map_eq_singleton_iff.1 hflushes
  obtain ⟨hbefore, hwait⟩ := Prod.mk.inj hcall
  obtain ⟨w, hw, hnote⟩ : ∃ w ∈ t.written,
      (w.token, decide (InMemtableAs t w (reading "note" 97 1))) = (0, true) := by
    refine List.mem_map.1 ?_
    rw [hwritten]
    simp
  obtain ⟨htoken, hcell⟩ := Prod.mk.inj hnote
  refine ⟨t, f, ht, by simp [hf], of_decide_eq_true hwait, hheld, fun hcovers => ?_⟩
  exact hcovers w hw (by omega) ⟨_, of_decide_eq_true hcell⟩

end WideColumn
