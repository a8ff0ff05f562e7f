import WideColumn.Proofs.FlatStore
import WideColumn.Proofs.UnhinderedWrites

/-!
# Indexes that are retired in the middle of work

An index is retired by two accesses: first it is marked as retired, and then its table is retired.
Either of them can come between any two accesses of other work to the state or to the table of the
index.  Work sees the mark at its next look at the state, and the retired table by an error, which
it looks away from.

* `IndexEvent`, `KeptIndex.after` — what happens to an index, in single accesses or as a whole;
* `KeptByEvents` — what is kept whatever happens, from what single accesses keep;
* `Reached`, `Reached.upright` — **what holds of every index that can be reached**;
* `truncate_completes`, `build_result` — how work on the whole table ends;
* `retirement_never_fails_upkeep` — **no work fails because the index is retired meanwhile**, and
  what was retired stays so.
-/

namespace WideColumn

open Effects

/-! ### Events -/

/-- What can happen to an index: single accesses, work as a whole, and the steps by which it is
retired. -/
inductive IndexEvent where
  /-- What is planned for just before an access. -/
  | access (kind : AccessKind)
  /-- A write to the index table. -/
  | write (now : Int) (key : Bytes) (c : Cell)
  | follow (env : Environment) (key : Bytes) (change : Cell.Change)
  | build (env : Environment) (base : TableStore)
  | truncate (timestamp : Int)
  | reload (base : TableSchema)
  | beginFlush (lock : FlushLock) (order : WriteOrder)
  | endFlush (ticket : Option FlushTicket)
  /-- Plans when the index is marked as retired, and when its table is retired. -/
  | plan (index table : Option (AccessKind × Nat))
  | beginRetirement
  /-- Retires the table of an index that is marked. -/
  | endRetirement
  | retire
  /-- Forgets what reached the table. -/
  | forget

namespace KeptIndex

/-- Plans when the index is marked as retired, and when its table is retired. -/
def planned (index table : Option (AccessKind × Nat)) (k : KeptIndex) : KeptIndex :=
  { k with disturbance := { k.disturbance with retirement := index, tableRetirement := table } }

/-- Retires the table of an index that is marked as retired. -/
def endRetirement (k : KeptIndex) : KeptIndex :=
  if k.state = .invalidated then k.retireTable else k

/-- The index after something has happened; work may have failed. -/
def step (k : KeptIndex) : IndexEvent → KeptIndex
  | .access kind => k.disturb kind
  | .write now key c => (runFrom (writeTable now key c) k).2
  | .follow env key change => (runFrom (follow env key change) k).2
  | .build env base => (runFrom (build env base) k).2
  | .truncate timestamp => (runFrom (truncate timestamp) k).2
  | .reload base => (runFrom (reload base) k).2
  | .beginFlush lock order => (k.beginFlush lock order).2.2
  | .endFlush ticket => (k.endFlush ticket).2
  | .plan index table => k.planned index table
  | .beginRetirement => k.beginRetirement
  | .endRetirement => k.endRetirement
  | .retire => k.retire
  | .forget => { k with journal := [] }

/-- The index after several events. -/
def after (k : KeptIndex) (events : List IndexEvent) : KeptIndex := events.foldl step k

/-! ### What all events keep -/

/-- A property of an index that every single event keeps; flushes that are finished and schemas
that are changed aside. -/
structure KeptByEvents (P : KeptIndex → Prop) : Prop where
  upkeep : KeptByUpkeep P
  planned : ∀ {k} index table, P k → P (k.planned index table)
  begun : ∀ {k}, P k → P k.beginRetirement
  ended : ∀ {k}, k.state = .invalidated → P k → P k.retireTable
  forgotten : ∀ {k}, P k → P { k with journal := [] }

variable {P : KeptIndex → Prop} {k : KeptIndex}

/-- What a new schema of the base table does to an index: nothing if the index is retired or cannot
be made over the schema; else there is a new index. -/
theorem reload_cases (k : KeptIndex) (base : TableSchema) :
    (runFrom (reload base) k).2 = k.disturb .check ∨
    ∃ x, (k.disturb .check).index.rebased base = .ok x ∧
      (runFrom (reload base) k).2 = (k.disturb .check).takeIndex x := by
  rw [runFrom_reload]
  split
  · exact .inl rfl
  · cases (k.disturb .check).index.rebased base with
    | error e => exact .inl rfl
    | ok x => exact .inr ⟨x, rfl, rfl⟩

/-- A property that depends neither on the index nor on the schema of its table outlasts a new
schema. -/
theorem KeptByEvents.reload (h : KeptByEvents P)
    (hschema : ∀ {k} index schema, P k → P { k with index, store := { k.store with schema } })
    (base : TableSchema) : Keeps P (reload base) := by
  intro k hk
  have hchecked := h.upkeep.disturbed hk .check
  rcases k.reload_cases base with hsame | ⟨x, -, hnew⟩
  · rw [hsame]
    exact hchecked
  · rw [hnew]
    rcases (k.disturb .check).takeIndex_cases x with ⟨-, htaken⟩ | htaken <;> rw [htaken]
    · exact hschema x _ hchecked
    · exact h.upkeep.noted _ (hschema x _ hchecked)

/-- **What single accesses keep is kept whatever happens.** -/
theorem KeptByEvents.step (h : KeptByEvents P) {e : IndexEvent}
    (hreload : ∀ base, e = .reload base → Keeps P (KeptIndex.reload base))
    (hfinished : ∀ ticket, e = .endFlush (some ticket) →
      ∀ {k}, P k → P { k with store := (k.store.finishFlush ticket).2 }) (hk : P k) :
    P (k.step e) := by
  cases e with
  | access kind => exact h.upkeep.disturbed hk kind
  | write now key c => exact (h.upkeep.access now).writeTable key c k hk
  | follow env key change => exact (h.upkeep.access env.now).follow rfl key change k hk
  | build env base => exact h.upkeep.build env base k hk
  | truncate timestamp => exact h.upkeep.truncate timestamp k hk
  | reload base => exact hreload base rfl k hk
  | beginFlush lock order => exact h.upkeep.beginFlush hk lock order
  | endFlush ticket => exact h.upkeep.endFlush (fun t ht => hfinished t (by rw [ht])) hk
  | plan index table => exact h.planned index table hk
  | beginRetirement => exact h.begun hk
  | endRetirement =>
    show P k.endRetirement
    unfold endRetirement
    split
    · exact h.ended ‹_› hk
    · exact hk
  | retire =>
    show P k.retire
    unfold retire
    split
    · exact hk
    · exact h.ended rfl (h.begun hk)
  | forget => exact h.forgotten hk

/-- What every event keeps holds after all of them. -/
theorem after_induction (hstep : ∀ {k} e, P k → P (k.step e)) (hk : P k)
    (events : List IndexEvent) : P (k.after events) := by
  induction events generalizing k with
  | nil => exact hk
  | cons e rest ih => exact ih (hstep e hk)

/-! ### What was retired stays so -/

end KeptIndex

namespace TableStore

theorem invalidate_isInvalidated (s : TableStore) : s.invalidate.isInvalidated = true := by
  unfold invalidate
  split
  · assumption
  · rfl

theorem invalidate_id (s : TableStore) : s.invalidate.id = s.id := by
  unfold invalidate
  split <;> rfl

/-- Only a retired table refuses to be truncated. -/
theorem discard_eq_error {s : TableStore} {timestamp : Int} {e : StorageError}
    (h : s.discard timestamp = .error e) : s.isInvalidated = true ∧ e = .invalidated s.id := by
  unfold discard checkValid at h
  cases hs : s.isInvalidated with
  | true =>
    rw [hs] at h
    exact ⟨rfl, (Except.error.inj h).symm⟩
  | false =>
    rw [hs] at h
    cases h

/-- Only an open table is truncated, and it stays open. -/
theorem open_of_discard {s s' : TableStore} {timestamp : Int} (h : s.discard timestamp = .ok s') :
    s.isInvalidated = false ∧ s'.isInvalidated = false := by
  obtain ⟨hopen, rfl⟩ := discard_eq_ok.1 h
  exact ⟨hopen, hopen⟩

/-- Only of an open table a flush is issued, and it stays open. -/
theorem open_of_issueFlush {s s' : TableStore} {order order' : WriteOrder}
    {ticket : Option FlushTicket} (h : s.issueFlush order = .ok (ticket, s', order')) :
    s.isInvalidated = false ∧ s'.isInvalidated = false := by
  rcases issueFlush_parts h with ⟨hopen, -, ⟨-, -, rfl⟩ | ⟨-, -, rfl⟩⟩
  · exact ⟨hopen, hopen⟩
  · exact ⟨hopen, hopen⟩

/-- Only an open table is written to, and it stays open. -/
theorem open_of_write {s s' : TableStore} {now : Int} {key : Bytes} {mutation : List Cell}
    (h : s.write now key mutation = .ok s') :
    s.isInvalidated = false ∧ s'.isInvalidated = false := by
  have hopen : s.isInvalidated = false := by
    rw [← Bool.not_eq_true]
    intro hinvalidated
    rw [write_eq_error hinvalidated] at h
    cases h
  have hrun : runFrom (s.apply now (WriteHook.none (σ := Unit)) key mutation) () = (.ok s', ()) :=
    Prod.ext h rfl
  obtain ⟨-, rfl, -⟩ := apply_ok hrun
  exact ⟨hopen, hopen⟩

end TableStore

namespace KeptIndex

variable {k : KeptIndex} {x : SecondaryIndex}

/-- What was retired at first is retired still; and the table of an index is retired only after the
index, and empty from then on. -/
structure StaysRetired (first k : KeptIndex) : Prop where
  state : first.state = .invalidated → k.state = .invalidated
  table : first.store.isInvalidated = true → k.store.isInvalidated = true
  emptied : k.store.isInvalidated = true → k.state = .invalidated ∧ k.store.layers = {}

variable {first : KeptIndex}

/-- An open table can change as long as it stays open. -/
theorem StaysRetired.setOpen (h : StaysRetired first k) {s : TableStore}
    (hopen : k.store.isInvalidated = false ∧ s.isInvalidated = false) :
    StaysRetired first { k with store := s } where
  state := h.state
  table := fun hfirst => by
    have hinvalidated := h.table hfirst
    rw [hopen.1] at hinvalidated
    cases hinvalidated
  emptied := fun hinvalidated => by
    have hinvalidated : s.isInvalidated = true := hinvalidated
    rw [hopen.2] at hinvalidated
    cases hinvalidated

theorem StaysRetired.begun (h : StaysRetired first k) : StaysRetired first k.beginRetirement :=
  ⟨fun _ => rfl, h.table, fun hinvalidated => ⟨rfl, (h.emptied hinvalidated).2⟩⟩

theorem StaysRetired.ended (h : StaysRetired first k) (hstate : k.state = .invalidated) :
    StaysRetired first k.retireTable where
  state := h.state
  table := fun _ => TableStore.invalidate_isInvalidated _
  emptied := fun _ => by
    refine ⟨hstate, ?_⟩
    show k.store.invalidate.layers = {}
    unfold TableStore.invalidate
    split
    · exact (h.emptied ‹_›).2
    · rfl

/-- **What was retired stays so**, and the table stays empty. -/
theorem staysRetired_keptByEvents (first : KeptIndex) : KeptByEvents (StaysRetired first) where
  upkeep :=
    { access := fun now =>
        { disturbed := fun _ _ h => disturb_induction (P := StaysRetired first)
            (fun _ _ h => ⟨h.state, h.table, h.emptied⟩) StaysRetired.begun
            (fun hstate h => h.ended hstate) h
          accepted := fun _ _ _ _ h hwrite =>
            have hstored := h.setOpen (TableStore.open_of_write (write_of_tableWrite hwrite))
            ⟨hstored.state, hstored.table, hstored.emptied⟩
          refused := fun _ _ _ h => ⟨h.state, h.table, h.emptied⟩ }
      activated := fun {k} h => by
        split
        · rename_i hbuilding
          refine ⟨fun hfirst => ?_, h.table, fun hinvalidated => ?_⟩
          · rw [h.state hfirst] at hbuilding
            cases hbuilding
          · rw [(h.emptied hinvalidated).1] at hbuilding
            cases hbuilding
        · exact h
      discarded := fun h hdiscard => h.setOpen (TableStore.open_of_discard hdiscard)
      noted := fun _ h => ⟨h.state, h.table, h.emptied⟩
      issued := fun h hissue => h.setOpen (TableStore.open_of_issueFlush hissue) }
  planned := fun _ _ h => ⟨h.state, h.table, h.emptied⟩
  begun := StaysRetired.begun
  ended := fun hstate h => h.ended hstate
  forgotten := fun h => ⟨h.state, h.table, h.emptied⟩

/-- There is nothing to be finished in a table that is retired. -/
theorem StaysRetired.finished (ticket : FlushTicket) (h : StaysRetired first k) :
    StaysRetired first { k with store := (k.store.finishFlush ticket).2 } := by
  rcases k.store.finishFlush_cases ticket with ⟨layers, hlayers, hfinish⟩ | ⟨-, hfinish⟩ <;>
    rw [hfinish]
  · refine ⟨h.state, h.table, fun hinvalidated => ?_⟩
    rw [(h.emptied hinvalidated).2] at hlayers
    cases hlayers
  · exact h

theorem StaysRetired.step (h : StaysRetired first k) (e : IndexEvent) :
    StaysRetired first (k.step e) :=
  (staysRetired_keptByEvents first).step
    (fun base _ => (staysRetired_keptByEvents first).reload
      (fun _ _ h => ⟨h.state, h.table, h.emptied⟩) base)
    (fun ticket _ => StaysRetired.finished ticket) h

theorem StaysRetired.after (h : StaysRetired first k) (events : List IndexEvent) :
    StaysRetired first (k.after events) :=
  after_induction (P := StaysRetired first) (fun e h => h.step e) h events

/-! ### Indexes that can be reached -/

theorem ready_keptByEvents (x : SecondaryIndex) : KeptByEvents (Ready x) where
  upkeep := ready_keptByUpkeep x
  planned := fun _ _ h => h.setDisturbance rfl
  begun := Ready.beginRetirement
  ended := fun hstate h => h.retireTable hstate
  forgotten := fun h => h.setJournal []

end KeptIndex

/-- If a new schema of the base table changes that of the index table, the versions tell the two
apart. -/
def IndexEvent.TellsApart (k : KeptIndex) : IndexEvent → Prop
  | .reload base => ∀ x, k.index.rebased base = .ok x →
      x.indexSchema.version = k.index.indexSchema.version → x.indexSchema = k.index.indexSchema
  | _ => True

namespace KeptIndex

/-- An index that something leads to, from an index on a column that records nothing yet. -/
inductive Reached : KeptIndex → Prop
  | new {base : TableSchema} {column : String} {indexName : Option String} {x : SecondaryIndex}
    (h : SecondaryIndex.ofColumn base column indexName = .ok x) : Reached (ofIndex x)
  | step {k : KeptIndex} (h : Reached k) {e : IndexEvent} (he : e.TellsApart k) : Reached (k.step e)

/-- **What holds of every index that can be reached**: it was made for a column, its table takes the
entries unless it was retired, and a retired table is empty. -/
structure Upright (k : KeptIndex) : Prop where
  made : ∃ base column indexName, SecondaryIndex.ofColumn base column indexName = .ok k.index
  ready : k.Ready k.index
  emptied : k.store.isInvalidated = true → k.state = .invalidated ∧ k.store.layers = {}

variable {k : KeptIndex} {x : SecondaryIndex}

theorem Upright.staysRetired (h : k.Upright) : StaysRetired k k := ⟨id, id, h.emptied⟩

theorem disturb_index (k : KeptIndex) (kind : AccessKind) : (k.disturb kind).index = k.index :=
  disturb_induction (P := fun k' => k'.index = k.index) (fun _ _ h => h) id (fun _ h => h) rfl

theorem disturb_id (k : KeptIndex) (kind : AccessKind) : (k.disturb kind).store.id = k.store.id :=
  disturb_induction (P := fun k' => k'.store.id = k.store.id) (fun _ _ h => h) id
    (fun _ h => (TableStore.invalidate_id _).trans h) rfl

/-- Over a new schema, the table of the index takes the entries of the new index. -/
theorem Upright.reload (h : k.Upright) {base : TableSchema}
    (he : (IndexEvent.reload base).TellsApart k) :
    (∃ base' column indexName, SecondaryIndex.ofColumn base' column indexName =
      .ok (k.step (.reload base)).index) ∧
      (k.step (.reload base)).Ready (k.step (.reload base)).index := by
  have hchecked := h.ready.disturb .check
  have hindex := k.disturb_index .check
  show (∃ base' column indexName, SecondaryIndex.ofColumn base' column indexName =
      .ok (runFrom (KeptIndex.reload base) k).2.index) ∧
    (runFrom (KeptIndex.reload base) k).2.Ready (runFrom (KeptIndex.reload base) k).2.index
  rcases k.reload_cases base with hsame | ⟨x, hx, hnew⟩
  · rw [hsame, hindex]
    exact ⟨h.made, hchecked⟩
  · rw [hnew]
    rcases (k.disturb .check).takeIndex_cases x with ⟨hversion, htaken⟩ | htaken <;> rw [htaken]
    · rw [hindex] at hx hversion
      refine ⟨⟨base, _, _, hx⟩, rfl, hchecked.fault, ?_, hchecked.layers, hchecked.retired⟩
      show (k.disturb .check).store.schema = x.indexSchema
      rw [hchecked.schema, he x hx hversion]
    · exact ⟨⟨base, _, _, hx⟩, rfl, hchecked.fault, rfl, hchecked.layers, hchecked.retired⟩

theorem Upright.step (h : k.Upright) {e : IndexEvent} (he : e.TellsApart k) :
    (k.step e).Upright := by
  have hemptied := (h.staysRetired.step e).emptied
  by_cases hreload : ∃ base, e = .reload base
  · obtain ⟨base, rfl⟩ := hreload
    obtain ⟨hmade, hready⟩ := h.reload he
    exact ⟨hmade, hready, hemptied⟩
  · have hready : (k.step e).Ready k.index := (ready_keptByEvents k.index).step
      (fun base hbase => absurd ⟨base, hbase⟩ hreload) (fun ticket _ => Ready.finished ticket) h.ready
    have hindex := hready.index
    exact ⟨hindex ▸ h.made, hindex ▸ hready, hemptied⟩

/-- **Every index that can be reached is upright.** -/
theorem Reached.upright (h : k.Reached) : k.Upright := by
  induction h with
  | new h => exact ⟨⟨_, _, _, h⟩, ready_ofIndex _, nofun⟩
  | step _ he ih => exact ih.step he

theorem Reached.after (h : k.Reached) {events : List IndexEvent}
    (hevents : ∀ base, .reload base ∉ events) : (k.after events).Reached := by
  induction events generalizing k with
  | nil => exact h
  | cons e rest ih =>
    refine ih (h.step ?_) fun base hbase => hevents base (List.mem_cons_of_mem _ hbase)
    cases e with
    | reload base => exact absurd List.mem_cons_self (hevents base)
    | _ => trivial

/-- Where an entry exists, it fits into the table of the index. -/
theorem Upright.fits (h : k.Upright) {key : Bytes} {c : Cell}
    (hentry : ∃ e, k.index.entry key c = .ok e) : k.index.Fits key c := by
  obtain ⟨base, column, indexName, hmade⟩ := h.made
  obtain ⟨target, col, -, hx⟩ := SecondaryIndex.ofColumn_parts hmade
  obtain ⟨e, he⟩ := hentry
  exact ⟨e, he, SecondaryIndex.entry_decodes ⟨_, _, _, by rw [hx]⟩ he⟩

/-! ### Work on the whole table -/

theorem truncate_completes (x : SecondaryIndex) (timestamp : Int) :
    Completes (Ready x) (truncate timestamp) := by
  refine Completes.bind (isRetired_completes x) fun retired =>
    Completes.ite (fun _ => Completes.pure _) fun _ => ?_
  refine Completes.bind (Completes.modify fun k h => h.disturb .discard) fun _ => ?_
  intro k h
  rw [runFrom_bind, runFrom_get]
  simp only
  cases hdiscard : k.store.discard timestamp with
  | ok s => exact ⟨(), _, rfl, (ready_keptByUpkeep x).discarded h hdiscard⟩
  | error e =>
    obtain ⟨hinvalidated, rfl⟩ := TableStore.discard_eq_error hdiscard
    obtain ⟨k', hquiet, hk'⟩ := unlessRetired_quiet h (h.retired hinvalidated) _
    exact ⟨(), k', hquiet, hk'⟩

theorem recordAll_completes (env : Environment) {cells : List (Bytes × Cell)}
    (hcells : ∀ b ∈ cells, b.2.isLive env.now = true → x.covers b.2 = true → x.Fits b.1 b.2) :
    Completes (Ready x) (recordAll env cells) := by
  induction cells with
  | nil => exact Completes.pure 0
  | cons head rest ih =>
    have ih := ih fun b hb => hcells b (List.mem_cons_of_mem _ hb)
    refine Completes.getThen fun k h => Completes.ite (fun hrecorded => ?_) fun _ => ih
    rw [h.index, Bool.and_eq_true] at hrecorded
    have hfits := hcells head List.mem_cons_self hrecorded.1 hrecorded.2
    exact Completes.bind (writeInPlace_completes env hfits fun _ => rfl) fun _ =>
      Completes.bind ih fun _ => Completes.pure _

/-- **How the recording of a table ends**: it is refused if the index was retired before, and
succeeds if the entries of the cells to be recorded fit. -/
theorem build_result (h : Ready x k) (env : Environment) {s : TableStore}
    (hcells : ∀ b ∈ s.scan, b.2.isLive env.now = true → x.covers b.2 = true → x.Fits b.1 b.2) :
    if (k.disturb .check).state = .invalidated then
      (runFrom (build env s) k).1 = .error (.index (.invalidated k.store.id))
    else ∃ count, (runFrom (build env s) k).1 = .ok count := by
  have hchecked := h.disturb .check
  unfold build
  rw [runFrom_bind, runFrom_isRetired]
  simp only
  split
  · rename_i hstate
    rw [decide_eq_true hstate, if_pos rfl, ← k.disturb_id .check]
    rfl
  · rename_i hstate
    rw [decide_eq_false hstate, if_neg Bool.false_ne_true]
    have hall : Completes (Ready x) (do
        let count ← recordAll env s.scan
        modify (KeptIndex.disturb .check)
        modify fun k : KeptIndex => if k.state = .building then { k with state := .active } else k
        return count) :=
      Completes.bind (recordAll_completes env hcells) fun _ =>
        Completes.bind (Completes.modify fun _ h => h.disturb .check) fun _ =>
          Completes.bind (Completes.modify fun _ h => h.activate) fun _ => Completes.pure _
    obtain ⟨count, k', hrun, -⟩ := hall _ hchecked
    exact ⟨count, congrArg Prod.fst hrun⟩

end KeptIndex

/-! ### Retired in the middle of work -/

/-- A base table that some actions lead to, from an empty one. -/
def TableStore.Reached (s : TableStore) : Prop :=
  ∃ (σ : Type) (schema : TableSchema) (st : σ) (actions : List (StoreAction σ)),
    (performAll TableStore.perform (.ofSchema schema) ([], st) actions).2.1 = s

theorem TableStore.Reached.wellFormed {s : TableStore} (h : s.Reached) : s.layers.WellFormed := by
  obtain ⟨σ, schema, st, actions, rfl⟩ := h
  exact ((Represents.ofSchema schema).performAll ([], st) actions).represents.layers

/-- A write of the base table succeeds with its indexes, if it does without them and there are
entries for the cells that they cover. -/
theorem write_completes_with_indexes {s s' : TableStore} (hs : s.Reached) {indexes : IndexSet}
    (hindexes : ∀ b ∈ indexes.members, b.2.Reached) (env : Environment) {key : Bytes}
    {mutation : List Cell}
    (hentries : ∀ b ∈ indexes.members, ∀ c ∈ mutation, b.2.index.covers c = true →
      ∃ e, b.2.index.entry key c = .ok e)
    (hwrite : s.write env.now key mutation = .ok s') :
    (runFrom (s.apply env.now (IndexSet.hook env) key mutation) indexes).1 = .ok s' := by
  have hready : IndexSet.Ready
      (fun x => ∀ c ∈ mutation, x.covers c = true → x.Takes key c.name) indexes.members := by
    intro b hb
    have hupright := (hindexes b hb).upright
    refine ⟨b.2.index, fun c hc hcovers d hd => hupright.fits ?_, hupright.ready⟩
    obtain ⟨e, he⟩ := hentries b hb c hc hcovers
    exact SecondaryIndex.entry_exists_of_name he hd
  refine TableStore.apply_completes (P := fun s => IndexSet.Ready
    (fun x => ∀ c ∈ mutation, x.covers c = true → x.Takes key c.name) s.members) hwrite
    (fun change hchange => IndexSet.hook_completes env fun x hx => ?_) hready
  obtain ⟨c, hc, habout⟩ :=
    TableStore.changes_about hs.wellFormed env.now key mutation change hchange
  refine KeptIndex.followCovered_completes env habout fun hcovers => ?_
  exact hx c hc (SecondaryIndex.covers_subject habout ▸ hcovers)

namespace KeptIndex

/-- **No work fails because the index is retired meanwhile.**  Let an index be one that can be
reached, and let it be marked as retired and its table be retired just before any two accesses of
the work that follows, or later.  Where there are entries for the cells, the work on a change
succeeds; so does a truncation, and so does the recording of a whole table, unless the index was
marked already when it began.  A write of a base table succeeds with such indexes, and stores what
it stores without them.  An index that is marked stays so, whatever happens; a table that is retired
stays so too and holds nothing; and it is retired when a retirement has come to its end. -/
theorem retirement_never_fails_upkeep {k : KeptIndex} (hk : k.Reached) :
    (∀ index table : Option (AccessKind × Nat),
      (∀ env key change, (∀ c ∈ change.cells, ∃ e, k.index.entry key c = .ok e) →
        (runFrom (follow env key change) (k.planned index table)).1 = .ok ()) ∧
      (∀ timestamp, (runFrom (truncate timestamp) (k.planned index table)).1 = .ok ()) ∧
      ∀ (env : Environment) (s : TableStore),
        (∀ b ∈ s.scan, b.2.isLive env.now = true → k.index.covers b.2 = true →
          ∃ e, k.index.entry b.1 b.2 = .ok e) →
        if ((k.planned index table).disturb .check).state = .invalidated then
          (runFrom (build env s) (k.planned index table)).1 =
            .error (.index (.invalidated k.store.id))
        else ∃ count, (runFrom (build env s) (k.planned index table)).1 = .ok count) ∧
    (∀ (s s' : TableStore) (indexes : IndexSet) (env : Environment) (key : Bytes)
        (mutation : List Cell), s.Reached → (∀ b ∈ indexes.members, b.2.Reached) →
      (∀ b ∈ indexes.members, ∀ c ∈ mutation, b.2.index.covers c = true →
        ∃ e, b.2.index.entry key c = .ok e) →
      s.write env.now key mutation = .ok s' →
      (runFrom (s.apply env.now (IndexSet.hook env) key mutation) indexes).1 = .ok s') ∧
    (k.state = .invalidated → k.endRetirement.store.isInvalidated = true ∧
      ∀ later, (k.after later).state = .invalidated) ∧
    (k.state ≠ .invalidated → k.retire.store.isInvalidated = true) ∧
    (k.store.isInvalidated = true → ∀ later,
      (k.after later).store.isInvalidated = true ∧ (k.after later).store.layers = {}) := by
  have hupright := hk.upright
  have hlasts := fun later => hupright.staysRetired.after later
  refine ⟨fun index table => ?_, fun s s' indexes env key mutation hs hindexes hentries hwrite =>
    write_completes_with_indexes hs hindexes env hentries hwrite, fun hstate => ⟨?_, fun later =>
    (hlasts later).state hstate⟩, fun hstate => ?_, fun hinvalidated later =>
    have htable := (hlasts later).table hinvalidated
    ⟨htable, ((hlasts later).emptied htable).2⟩⟩
  · have hready := (ready_keptByEvents k.index).planned index table hupright.ready
    refine ⟨fun env key change hentries => ?_, fun timestamp => ?_, fun env s hentries => ?_⟩
    · obtain ⟨⟨⟩, k', hrun, -⟩ :=
        follow_completes env (fun c hc => hupright.fits (hentries c hc)) _ hready
      exact congrArg Prod.fst hrun
    · obtain ⟨⟨⟩, k', hrun, -⟩ := truncate_completes k.index timestamp _ hready
      exact congrArg Prod.fst hrun
    · exact build_result hready env fun b hb hlive hcovers =>
        hupright.fits (hentries b hb hlive hcovers)
  · unfold endRetirement
    rw [if_pos hstate]
    exact TableStore.invalidate_isInvalidated _
  · unfold retire
    rw [if_neg hstate]
    exact TableStore.invalidate_isInvalidated _

/-! ### Levels of river 65 -/

/-- The change of a level. -/
def raisedLevel : Cell.Change := .update (reading "level" 97 1) (reading "level" 98 2)

/-- The index of the levels when one was recorded.  It will be marked as retired just before the
next write, and its table will be retired just before the look at the state that follows. -/
def retiringLevels : KeptIndex :=
  (ofIndex readingsByLevel).after
    [.follow ⟨0, dropsOldWhenMoved⟩ [65] (.insert (reading "level" 97 1)),
      .plan (some (.write, 0)) (some (.check, 0))]

theorem retiringLevels_reached : retiringLevels.Reached :=
  (Reached.new readingsByLevel_ofColumn).after (by simp)

theorem level_entry_exists (value : UInt8) (timestamp : Int) :
    ∃ e, retiringLevels.index.entry [65] (reading "level" value timestamp) = .ok e := by
  have hsome : (retiringLevels.index.entry [65] (reading "level" 97 1)).isOk = true := by
    decide +kernel
  cases he : retiringLevels.index.entry [65] (reading "level" 97 1) with
  | error e =>
    rw [he] at hsome
    cases hsome
  | ok e => exact SecondaryIndex.entry_exists_of_name he rfl

/-- The readings when one level was written. -/
def oneReading : TableStore :=
  (performAll TableStore.perform (.ofSchema readings) ([], ())
    [.apply 0 WriteHook.none [65] [reading "level" 97 1]]).2.1

/-- The index is retired while it follows the change of a level, after the new entry was written and
before the old one goes.  The change is followed all the same, and so is a write that makes it. -/
theorem retirement_never_fails_raised_level :
    retiringLevels.Reached ∧
    (∀ c ∈ raisedLevel.cells, ∃ e, retiringLevels.index.entry [65] c = .ok e) ∧
    (runFrom (follow ⟨0, dropsOldWhenMoved⟩ [65] raisedLevel)
      (retiringLevels.planned (some (.write, 0)) (some (.check, 0)))).1 = .ok () ∧
    oneReading.Reached ∧
    oneReading.write 0 [65] [reading "level" 98 2] =
      .ok (oneReading.written 0 [65] [reading "level" 98 2]) ∧
    (runFrom (oneReading.apply 0 (IndexSet.hook ⟨0, dropsOldWhenMoved⟩) [65]
      [reading "level" 98 2]) { members := [("level", retiringLevels)] }).1 =
        .ok (oneReading.written 0 [65] [reading "level" 98 2]) := by
  have hcells : ∀ c ∈ raisedLevel.cells, ∃ e, retiringLevels.index.entry [65] c = .ok e :=
    List.forall_mem_cons.2 ⟨level_entry_exists 97 1,
      List.forall_mem_singleton.2 (level_entry_exists 98 2)⟩
  have hreached : oneReading.Reached := ⟨Unit, readings, (), _, rfl⟩
  have hwrite : oneReading.write 0 [65] [reading "level" 98 2] =
      .ok (oneReading.written 0 [65] [reading "level" 98 2]) := by decide +kernel
  obtain ⟨hwork, hwrites, -⟩ := retirement_never_fails_upkeep retiringLevels_reached
  obtain ⟨hfollow, -, -⟩ := hwork (some (.write, 0)) (some (.check, 0))
  refine ⟨retiringLevels_reached, hcells, hfollow _ _ _ hcells, hreached, hwrite, ?_⟩
  exact hwrites _ _ { members := [("level", retiringLevels)] } ⟨0, dropsOldWhenMoved⟩ _ _ hreached
    (List.forall_mem_singleton.2 retiringLevels_reached)
    (List.forall_mem_singleton.2 (List.forall_mem_singleton.2 fun _ => level_entry_exists 98 2))
    hwrite

example :
    (retiringLevels.step (.follow ⟨0, dropsOldWhenMoved⟩ [65] raisedLevel)).store.layers = {} := by
  decide +kernel

end KeptIndex

end WideColumn
