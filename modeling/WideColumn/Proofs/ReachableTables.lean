import WideColumn.Proofs.EntryExistence
import WideColumn.Proofs.Requests
import WideColumn.Proofs.UpkeepRuns

/-!
# Tables that can be reached

Everything that can be asked of a table with its indexes while its schema stays, in any order and
whether it succeeds or fails.  A table that is reached in this way is sound: its cells lie in well
formed layers, and each of its indexes takes entries unless it was retired.

* `TableAction` — what can be asked of a table;
* `KeptIndex.Ready` — an index that takes entries unless it was retired, which work on the index
  keeps;
* `IndexedTable.Sound` — what every single action keeps;
* `Sound.after` — **a table is sound after any actions**.
-/

namespace WideColumn

open Effects

/-! ### Actions -/

/-- What can be asked of a table with its indexes. -/
inductive TableAction where
  | setNow (now : Int)
  | hold (token : String)
  | release (token : String)
  /-- A write of the base table, which the indexes see unless it is direct. -/
  | apply (key : Bytes) (cells : List Cell) (direct : Bool) (token : Option String)
  | flush (table : TableRef)
  | discard (table : TableRef) (timestamp : Int)
  | invalidate (table : TableRef)
  | addIndex (column : String) (indexName : Option String)
  | dropIndex (column : String)
  | dropAll
  /-- Shows a change to one index alone. -/
  | follow (column : String) (token : Option String) (key : Bytes) (change : Cell.Change)
  | build (column : String) (token : Option String)
  | truncate (column : String) (timestamp : Int)
  | reload (column : String)
  | retire (column : String)
  /-- Retires an index later, just before an access. -/
  | retireBefore (column : String) (access : AccessKind) (count : Nat)
  | flushIndex (column : String)
  | flushAll
  | truncateAll (timestamp : Int)
  | reloadAll

/-- Plans that the index is retired just before an access of a kind, after so many others of it. -/
def KeptIndex.planRetirement (access : AccessKind) (count : Nat) (k : KeptIndex) : KeptIndex :=
  { k with disturbance := { k.disturbance with retirement := some (access, count) } }

/-- The request that an action makes. -/
def TableAction.request : TableAction → Request Unit
  | setNow now => IndexedTable.setNow now
  | hold token => do let _ ← IndexedTable.hold token
  | release token => do let _ ← IndexedTable.release token
  | apply key cells direct token => IndexedTable.apply key cells direct token
  | flush table => do let _ ← IndexedTable.flush table
  | discard table timestamp => IndexedTable.discard table timestamp
  | invalidate table => IndexedTable.invalidate table
  | addIndex column indexName => do let _ ← IndexedTable.addIndex column indexName
  | dropIndex column => IndexedTable.dropIndex column
  | dropAll => IndexedTable.dropAll
  | follow column token key change => do
    IndexedTable.onIndex column token (KeptIndex.follow (← get).environment key change)
  | build column token => do let _ ← IndexedTable.build column token
  | truncate column timestamp => IndexedTable.onIndex column none (KeptIndex.truncate timestamp)
  | reload column => do
    let _ ← IndexedTable.onIndex column none (KeptIndex.reload (← get).base.schema)
  | retire column => IndexedTable.onIndex column none (modify KeptIndex.retire)
  | retireBefore column access count =>
    IndexedTable.onIndex column none (modify (KeptIndex.planRetirement access count))
  | flushIndex column => IndexedTable.flushIndex column
  | flushAll => IndexedTable.flushAll
  | truncateAll timestamp => IndexedTable.truncateAll timestamp
  | reloadAll => do let _ ← IndexedTable.reloadAll

/-- The table after some actions, each of which may have failed. -/
def IndexedTable.after (t : IndexedTable) (actions : List TableAction) : IndexedTable :=
  actions.foldl (fun t a => (runFrom a.request t).2) t

/-! ### Stored tables -/

namespace TableStore

/-- The tables have one schema, and were both retired or both not. -/
structure Reworked (s s' : TableStore) : Prop where
  schema : s'.schema = s.schema
  isInvalidated : s'.isInvalidated = s.isInvalidated
  layers : s'.layers.WellFormed

variable {s s' : TableStore}

theorem Rearranged.reworked (h : Rearranged s s') : Reworked s s' :=
  ⟨h.schema, h.isInvalidated, h.layers⟩

theorem Truncated.reworked {timestamp : Int} (h : Truncated s s' timestamp) : Reworked s s' :=
  ⟨h.schema, h.isInvalidated, h.layers⟩

theorem written_reworked (h : s.layers.WellFormed) (now : Int) (key : Bytes)
    (mutation : List Cell) : Reworked s (s.written now key mutation) :=
  ⟨rfl, rfl, written_wellFormed h now key mutation⟩

theorem issueFlush_reworked (h : s.layers.WellFormed) {order order' : WriteOrder}
    {ticket : Option FlushTicket} (hissue : s.issueFlush order = .ok (ticket, s', order')) :
    Reworked s s' :=
  (rearranged_of_issueFlush h hissue).reworked

theorem discard_reworked (h : s.layers.WellFormed) {timestamp : Int}
    (hdiscard : s.discard timestamp = .ok s') : Reworked s s' :=
  (truncated_of_discard h hdiscard).reworked

theorem invalidate_wellFormed (h : s.layers.WellFormed) : s.invalidate.layers.WellFormed := by
  unfold invalidate
  split
  · exact h
  · exact Layers.WellFormed.empty

theorem invalidate_schema (s : TableStore) : s.invalidate.schema = s.schema := by
  unfold invalidate
  split <;> rfl

end TableStore

/-! ### One index -/

namespace KeptIndex

/-- The index takes entries into its table, unless it was retired. -/
structure Ready (x : SecondaryIndex) (k : KeptIndex) : Prop where
  index : k.index = x
  fault : k.disturbance.fault = .none
  schema : k.store.schema = x.indexSchema
  layers : k.store.layers.WellFormed
  retired : k.store.isInvalidated = true → k.state = .invalidated

variable {x : SecondaryIndex} {k : KeptIndex}

theorem ready_ofIndex (x : SecondaryIndex) : Ready x (ofIndex x) :=
  ⟨rfl, rfl, rfl, Layers.WellFormed.empty, nofun⟩

theorem Ready.setJournal (h : Ready x k) (journal : List IndexAccess) :
    Ready x { k with journal } :=
  ⟨h.index, h.fault, h.schema, h.layers, h.retired⟩

theorem Ready.setStore (h : Ready x k) {s : TableStore} (hs : k.store.Reworked s) :
    Ready x { k with store := s } :=
  ⟨h.index, h.fault, hs.schema.trans h.schema, hs.layers,
    fun hs' => h.retired (hs.isInvalidated ▸ hs')⟩

theorem Ready.beginRetirement (h : Ready x k) : Ready x k.beginRetirement :=
  ⟨h.index, h.fault, h.schema, h.layers, fun _ => rfl⟩

/-- The table of an index can be retired once the index is. -/
theorem Ready.retireTable (h : Ready x k) (hstate : k.state = .invalidated) :
    Ready x k.retireTable :=
  ⟨h.index, h.fault, (TableStore.invalidate_schema _).trans h.schema,
    TableStore.invalidate_wellFormed h.layers, fun _ => hstate⟩

theorem Ready.retire (h : Ready x k) : Ready x k.retire := by
  unfold KeptIndex.retire
  split
  · exact h
  · exact h.beginRetirement.retireTable rfl

theorem Ready.setDisturbance (h : Ready x k) {disturbance : Disturbance}
    (hfault : disturbance.fault = k.disturbance.fault) : Ready x { k with disturbance } :=
  ⟨h.index, hfault.trans h.fault, h.schema, h.layers, h.retired⟩

theorem Ready.planRetirement (h : Ready x k) (access : AccessKind) (count : Nat) :
    Ready x (k.planRetirement access count) := h.setDisturbance rfl

theorem Ready.disturb (h : Ready x k) (kind : AccessKind) : Ready x (k.disturb kind) :=
  disturb_induction (P := Ready x) (fun _ hfault h => h.setDisturbance hfault)
    Ready.beginRetirement (fun hstate h => h.retireTable hstate) h

/-- An index becomes active when the base data is recorded. -/
theorem Ready.activate (h : Ready x k) :
    Ready x (if k.state = .building then { k with state := .active } else k) := by
  split
  · rename_i hbuilding
    refine ⟨h.index, h.fault, h.schema, h.layers, fun hinvalidated => ?_⟩
    rw [h.retired hinvalidated] at hbuilding
    cases hbuilding
  · exact h

/-- Nothing but the checks of its table refuses what is written to the table of an index. -/
theorem Ready.tableWrite (h : Ready x k) (now : Int) (key : Bytes) (c : Cell) :
    k.tableWrite now key c = k.store.write now key [c] := by
  unfold KeptIndex.tableWrite
  rw [h.fault, if_neg (by simp [WriteFault.hits])]

/-- **Single accesses leave an index ready.** -/
theorem ready_keptByAccess (now : Int) (x : SecondaryIndex) : KeptByAccess now (Ready x) where
  disturbed := fun k kind h => h.disturb kind
  accepted := fun k key c store h hwrite => by
    rw [h.tableWrite] at hwrite
    have hrun : runFrom (k.store.apply now (WriteHook.none (σ := Unit)) key [c]) () =
        (.ok store, ()) := Prod.ext hwrite rfl
    obtain ⟨-, rfl, -⟩ := TableStore.apply_ok hrun
    exact (h.setStore (TableStore.written_reworked h.layers now key [c])).setJournal _
  refused := fun k key c h => h.setJournal _

/-- **So do those to the whole table.** -/
theorem ready_keptByUpkeep (x : SecondaryIndex) : KeptByUpkeep (Ready x) where
  access := fun now => ready_keptByAccess now x
  activated := Ready.activate
  discarded := fun h hdiscard => h.setStore (TableStore.discard_reworked h.layers hdiscard)
  noted := fun _ h => h.setJournal _
  issued := fun h hissue => h.setStore (TableStore.issueFlush_reworked h.layers hissue)

theorem Ready.finished (ticket : FlushTicket) (h : Ready x k) :
    Ready x { k with store := (k.store.finishFlush ticket).2 } :=
  h.setStore (TableStore.finishFlush_rearranged h.layers ticket).reworked

/-- Over the schema that it was made for, an index stays as it is. -/
theorem reload_ready {base : TableSchema} (hx : x.IsOver base) :
    Keeps (Ready x) (reload base) := by
  have h := ready_keptByAccess 0 x
  refine Keeps.bind h.isRetired fun retired => Keeps.ite ?_ ?_
  · exact Keeps.bind Keeps.get fun k => Keeps.throwThen _ _
  · refine Keeps.getThen fun k hk => Keeps.liftThen fun x' hx' => ?_
    obtain rfl : x = x' := by
      rw [hk.index] at hx'
      exact Except.ok.inj (hx.symm.trans hx')
    simp only [hk.index, bne_self_eq_false, Bool.false_eq_true, if_false]
    refine Keeps.bind (Keeps.set ?_) fun _ => Keeps.pure _
    exact ⟨rfl, hk.fault, hk.schema, hk.layers, hk.retired⟩

end KeptIndex

/-! ### All indexes -/

namespace IndexSet

/-- Each index is one that the predicate allows, and ready. -/
def Ready (Q : SecondaryIndex → Prop) (members : Bindings String KeptIndex) : Prop :=
  ∀ b ∈ members, ∃ x, Q x ∧ b.2.Ready x

variable {Q : SecondaryIndex → Prop} {members : Bindings String KeptIndex}

theorem Ready.nil : Ready Q [] := fun _ hb => nomatch hb

theorem Ready.cons {c : String} {k : KeptIndex} :
    Ready Q ((c, k) :: members) ↔ (∃ x, Q x ∧ k.Ready x) ∧ Ready Q members :=
  List.forall_mem_cons

theorem Ready.insert (h : Ready Q members) {c : String} {k : KeptIndex}
    (hk : ∃ x, Q x ∧ k.Ready x) : Ready Q (members.insert c k) := by
  intro b hb
  rcases Bindings.eq_or_mem_of_mem_insert hb with rfl | hb
  · exact hk
  · exact h b hb

/-- **What leaves each index ready leaves all of them ready**, wherever it ends. -/
theorem performAll_ready {α : Type} {work : Upkeep α}
    (hwork : ∀ x, Q x → Keeps (KeptIndex.Ready x) work) (h : Ready Q members) :
    Ready Q (performAll work members).2.1 := by
  induction members with
  | nil => exact h
  | cons head rest ih =>
    obtain ⟨c, m⟩ := head
    obtain ⟨⟨x, hx, hm⟩, hrest⟩ := Ready.cons.1 h
    have hdone := hwork x hx _ (hm.setJournal [])
    rw [performAll_cons]
    rcases hrun : runFrom work { m with journal := [] } with ⟨e | a, m'⟩ <;> rw [hrun] at hdone
    · exact Ready.cons.2 ⟨⟨x, hx, hdone.setJournal []⟩, hrest⟩
    · exact Ready.cons.2 ⟨⟨x, hx, hdone.setJournal []⟩, ih hrest⟩

theorem hook_ready (env : Environment) (key : Bytes) (change : Cell.Change) :
    Keeps (fun s => Ready Q s.members) (hook env key change) := fun _ h =>
  performAll_ready (fun x _ => (KeptIndex.ready_keptByAccess env.now x).followCovered rfl key
    change) h

theorem flushEach_ready (lock : FlushLock) (order : WriteOrder) (h : Ready Q members) :
    Ready Q (flushEach lock order members).2.2.1 := by
  induction members generalizing order with
  | nil => exact h
  | cons head rest ih =>
    obtain ⟨c, m⟩ := head
    obtain ⟨⟨x, hx, hm⟩, hrest⟩ := Ready.cons.1 h
    have hdone := (KeptIndex.ready_keptByUpkeep x).flush KeptIndex.Ready.finished
      (hm.setJournal []) lock order
    unfold flushEach
    rcases hrun : KeptIndex.flush lock order { m with journal := [] } with
      ⟨e | ⟨⟨⟩⟩, order', m'⟩ <;>
      rw [hrun] at hdone
    · exact Ready.cons.2 ⟨⟨x, hx, hdone.setJournal []⟩, hrest⟩
    · exact Ready.cons.2 ⟨⟨x, hx, hdone.setJournal []⟩, ih order' hrest⟩

theorem Ready.add (h : Ready Q members) {journal : IndexJournal} {s : IndexSet}
    {x : SecondaryIndex} (hx : Q x) (hadd : IndexSet.add ⟨members, journal⟩ x = .ok s) :
    Ready Q s.members := by
  unfold IndexSet.add at hadd
  split at hadd
  · cases hadd
  · cases hadd
    exact h.insert ⟨x, hx, KeptIndex.ready_ofIndex x⟩

theorem Ready.drop (h : Ready Q members) {journal : IndexJournal} {column : String}
    {dropped : KeptIndex × IndexSet}
    (hdrop : IndexSet.drop ⟨members, journal⟩ column = .ok dropped) :
    Ready Q dropped.2.members := by
  unfold IndexSet.drop at hdrop
  split at hdrop
  · cases hdrop
  · cases hdrop
    exact fun b hb => h b (List.mem_of_mem_filter hb)

end IndexSet

/-! ### A table with its indexes -/

namespace IndexedTable

/-- The base table has the schema, and each index is one over this schema and ready. -/
structure Sound (schema : TableSchema) (t : IndexedTable) : Prop where
  base : t.base.schema = schema
  layers : t.base.layers.WellFormed
  indexes : IndexSet.Ready (SecondaryIndex.IsOver · schema) t.indexes.members

variable {schema : TableSchema} {t : IndexedTable}

theorem sound_ofSchema (schema : TableSchema) (env : Environment) :
    Sound schema (ofSchema schema env) :=
  ⟨rfl, Layers.WellFormed.empty, IndexSet.Ready.nil⟩

theorem Sound.setIndexes (h : Sound schema t) {s : IndexSet}
    (hs : IndexSet.Ready (SecondaryIndex.IsOver · schema) s.members) :
    Sound schema { t with indexes := s } :=
  ⟨h.base, h.layers, hs⟩

theorem Sound.setBase (h : Sound schema t) {s : TableStore} (hschema : s.schema = t.base.schema)
    (hlayers : s.layers.WellFormed) : Sound schema { t with base := s } :=
  ⟨hschema.trans h.base, hlayers, h.indexes⟩

/-- An index that is registered comes before one that was dropped. -/
theorem mem_of_index? {column : String} {k : KeptIndex} (hk : t.index? column = some k)
    (hc : t.indexes.members.contains column = true) : (column, k) ∈ t.indexes.members := by
  unfold index? at hk
  obtain ⟨k', hk'⟩ := Option.isSome_iff_exists.1 hc
  rw [hk', Option.some_or] at hk
  cases hk
  exact Bindings.mem_of_find? hk'

theorem Sound.setIndex (h : Sound schema t) {column : String} {k k' : KeptIndex}
    (hk : t.index? column = some k)
    (hready : ∀ x, x.IsOver schema → k.Ready x → k'.Ready x) :
    Sound schema (t.setIndex column k') := by
  unfold IndexedTable.setIndex
  split
  · rename_i hc
    obtain ⟨x, hx, hxk⟩ := h.indexes _ (mem_of_index? hk hc)
    exact h.setIndexes (h.indexes.insert ⟨x, hx, hready x hx hxk⟩)
  · exact ⟨h.base, h.layers, h.indexes⟩

theorem Sound.setStore (h : Sound schema t) {table : TableRef} {s s' : TableStore}
    (hs : t.store? table = some s) (hsame : s.layers.WellFormed → s.Reworked s') :
    Sound schema (t.setStore table s') := by
  cases table with
  | base =>
    cases hs
    have hsame := hsame h.layers
    exact h.setBase hsame.schema hsame.layers
  | index column =>
    unfold IndexedTable.store? at hs
    obtain ⟨k, hk, rfl⟩ := Option.map_eq_some_iff.1 hs
    unfold IndexedTable.setStore
    simp only [hk]
    exact h.setIndex hk fun x _ hx => hx.setStore (hsame hx.layers)

/-! ### Flushes that come to an end -/

theorem Sound.finishOn (h : Sound schema t) (table : TableRef) (ticket : FlushTicket) :
    Sound schema (t.finishOn table ticket).2 := by
  unfold IndexedTable.finishOn
  cases hs : t.store? table with
  | none => exact h
  | some s =>
    exact h.setStore hs fun hwf => (TableStore.finishFlush_rearranged hwf ticket).reworked

theorem Sound.finish (h : Sound schema t) (r : FlushRecord) : Sound schema (t.finish r).2 := by
  obtain ⟨table, ticket, status⟩ := r
  cases ticket with
  | none => cases table <;> exact h
  | some ticket =>
    cases table with
    | none => exact h
    | some table => exact h.finishOn table ticket

theorem Sound.finishDue (h : Sound schema t) (r : FlushRecord) :
    Sound schema (if t.isDue r then t.finish r else (r, t)).2 := by
  split
  · exact h.finish r
  · exact h

/-- A flush that was issued leaves the table sound, and the order in which writes start has gone
on. -/
theorem Sound.issued (h : Sound schema t) {table : TableRef} {s s' : TableStore}
    {ticket : Option FlushTicket} {order : WriteOrder} (hs : t.store? table = some s)
    (hissue : s.issueFlush t.writes.order = .ok (ticket, s', order)) :
    Sound schema ({ t with writes := { t.writes with order } }.setStore table s') := by
  have ht : Sound schema { t with writes := { t.writes with order } } :=
    ⟨h.base, h.layers, h.indexes⟩
  refine ht.setStore ?_ fun hwf => TableStore.issueFlush_reworked hwf hissue
  cases table <;> exact hs

theorem Sound.settleAll (records : List FlushRecord) (h : Sound schema t) :
    Sound schema (t.settleAll records).2 := by
  induction records generalizing t with
  | nil => exact h
  | cons r rest ih => exact ih (h.finishDue r)

theorem Sound.settle (h : Sound schema t) : Sound schema t.settle := by
  have hall := h.settleAll t.flushes
  exact ⟨hall.base, hall.layers, hall.indexes⟩

/-- The writes under way do not matter. -/
theorem Sound.settleWith (h : Sound schema t) (writes : HeldTokens) :
    Sound schema { t with writes }.settle :=
  Sound.settle ⟨h.base, h.layers, h.indexes⟩

/-! ### Requests -/

theorem keeps_failed {α : Type} (result : Except EngineError α) :
    Keeps (Sound schema) (failed result) := by
  cases result
  · exact Keeps.throw _
  · exact Keeps.pure _

theorem keeps_failedThen {α β : Type} {result : Except EngineError α} {f : α → Request β}
    (hf : ∀ a, result = .ok a → Keeps (Sound schema) (f a)) :
    Keeps (Sound schema) (failed result >>= f) := by
  cases result with
  | error e => exact Keeps.throwThen _ _
  | ok a => exact hf a rfl

theorem hold_sound (token : String) : Keeps (Sound schema) (hold token) :=
  Keeps.getThen fun _ h => Keeps.bind (Keeps.set (h.settleWith _)) fun _ => Keeps.pure _

theorem release_sound (token : String) : Keeps (Sound schema) (release token) :=
  Keeps.getThen fun _ h => Keeps.bind (Keeps.set (h.settleWith _)) fun _ => Keeps.pure _

theorem apply_sound (key : Bytes) (cells : List Cell) (direct : Bool) (token : Option String) :
    Keeps (Sound schema) (IndexedTable.apply key cells direct token) := by
  intro t h
  have hhook : ∀ change, Keeps (fun s => IndexSet.Ready (SecondaryIndex.IsOver · schema) s.members)
      (t.hookOf direct key change) := by
    intro change
    cases direct
    · exact IndexSet.hook_ready t.environment key change
    · exact Keeps.pure _
  have hkept : Keeps (fun s => IndexSet.Ready (SecondaryIndex.IsOver · schema) s.members)
      (t.base.apply t.environment.now (t.hookOf direct) key cells) :=
    t.base.apply_keeps t.environment.now fun change _ => hhook change
  have hindexes := hkept t.indexes h.indexes
  rcases t.apply_cases key cells direct token with
    ⟨e, hrequest⟩ | ⟨error, indexes, hrun, hrequest⟩ | ⟨base, indexes, hrun, hrequest⟩ <;>
    rw [hrequest]
  · exact h
  · rw [hrun] at hindexes
    exact h.setIndexes hindexes
  · rw [hrun] at hindexes
    obtain ⟨-, rfl, -⟩ := TableStore.apply_ok hrun
    exact (h.setIndexes hindexes).setBase rfl
      (TableStore.written_wellFormed h.layers _ key cells)

theorem flush_sound (table : TableRef) : Keeps (Sound schema) (flush table) := by
  intro t h
  unfold IndexedTable.flush
  rw [runFrom_bind]
  rcases requireStore_cases table t with ⟨s, hs, hrequire⟩ | ⟨e, hrequire⟩ <;> rw [hrequire]
  · simp only
    rw [runFrom_bind, runFrom_get]
    simp only
    rw [runFrom_bind, runFrom_stored]
    cases hissue : s.issueFlush t.writes.order with
    | error e => exact h
    | ok issued =>
      obtain ⟨ticket, s', order⟩ := issued
      simp only [Except.mapError]
      rw [runFrom_bind, runFrom_modify]
      refine Keeps.getThen (fun t h => ?_) _ (h.issued hs hissue)
      have hdone := h.finishDue ⟨some table, ticket,
        if ticket.isSome then FlushStatus.pending s'.id else FlushStatus.completed s'.id⟩
      refine Keeps.bind (Keeps.set hdone) fun _ => ?_
      split
      · exact Keeps.throw _
      · exact Keeps.bind (Keeps.set ⟨hdone.base, hdone.layers, hdone.indexes⟩) fun _ => Keeps.pure _
  · exact h

theorem discard_sound (table : TableRef) (timestamp : Int) :
    Keeps (Sound schema) (IndexedTable.discard table timestamp) := by
  intro t h
  unfold IndexedTable.discard
  rw [runFrom_bind]
  rcases requireStore_cases table t with ⟨s, hs, hrequire⟩ | ⟨e, hrequire⟩ <;> rw [hrequire]
  · simp only [runFrom_bind]
    cases hdiscard : s.discard timestamp with
    | error e => exact h
    | ok s' => exact h.setStore hs fun hwf => TableStore.discard_reworked hwf hdiscard
  · exact h

theorem invalidate_sound : Keeps (Sound schema) (invalidate .base) := fun t h =>
  h.setBase (TableStore.invalidate_schema t.base) (TableStore.invalidate_wellFormed h.layers)

theorem addIndex_sound (column : String) (indexName : Option String) :
    Keeps (Sound schema) (addIndex column indexName) := by
  refine Keeps.getThen fun t h => ?_
  refine keeps_failedThen fun x hx => keeps_failedThen fun indexes hadd => ?_
  refine Keeps.bind (Keeps.set ⟨h.base, h.layers, ?_⟩) fun _ => Keeps.pure _
  exact h.indexes.add (SecondaryIndex.isOver_of_ofColumn (h.base ▸ hx)) hadd

theorem dropIndex_sound (column : String) : Keeps (Sound schema) (dropIndex column) := by
  refine Keeps.getThen fun t h => keeps_failedThen fun dropped hdrop => ?_
  exact Keeps.set ⟨h.base, h.layers, h.indexes.drop hdrop⟩

theorem dropAll_sound : Keeps (Sound schema) dropAll :=
  Keeps.modify fun _ h => ⟨h.base, h.layers, IndexSet.Ready.nil⟩

theorem onIndex_sound {α : Type} {work : Upkeep α}
    (hwork : ∀ x, x.IsOver schema → Keeps (KeptIndex.Ready x) work) (column : String)
    (token : Option String) : Keeps (Sound schema) (onIndex column token work) := by
  intro t h
  rcases t.onIndex_cases column token work with ⟨e, hrequest⟩ | ⟨k, journal, hk, hrequest⟩ <;>
    rw [hrequest]
  · exact h
  · have hset := h.setIndex hk fun x hx hready =>
      (hwork x hx _ (hready.setJournal [])).setJournal []
    exact ⟨hset.base, hset.layers, hset.indexes⟩

theorem flushIndex_sound (column : String) : Keeps (Sound schema) (flushIndex column) := by
  intro t h
  unfold IndexedTable.flushIndex
  rw [runFrom_bind, runFrom_get]
  simp only
  split
  · exact h
  · rw [runFrom_bind, runFrom_requireIndex]
    cases hk : t.index? column with
    | none => exact h
    | some k =>
      have ht : ∀ order, Sound schema { t with writes := { t.writes with order } } :=
        fun _ => ⟨h.base, h.layers, h.indexes⟩
      have hset := fun order => (ht order).setIndex hk fun x _ hready =>
        ((KeptIndex.ready_keptByUpkeep x).flush KeptIndex.Ready.finished
          (hready.setJournal []) t.lock t.writes.order).setJournal []
      refine Keeps.bind (Keeps.set ?_) (fun _ => keeps_failed _) t h
      exact ⟨(hset _).base, (hset _).layers, (hset _).indexes⟩

theorem flushAll_sound : Keeps (Sound schema) flushAll := by
  refine Keeps.getThen fun t h => Keeps.ite (Keeps.throwThen _ _) ?_
  have hindexes := IndexSet.flushEach_ready t.lock t.writes.order h.indexes
  exact Keeps.bind (Keeps.set ⟨h.base, h.layers, hindexes⟩) fun _ => keeps_failed _

theorem truncateAll_sound (timestamp : Int) : Keeps (Sound schema) (truncateAll timestamp) :=
  Keeps.getThen fun _ h => Keeps.bind (Keeps.set (h.setIndexes (IndexSet.performAll_ready
    (fun x _ => (KeptIndex.ready_keptByUpkeep x).truncate timestamp) h.indexes)))
      fun _ => keeps_failed _

theorem reloadAll_sound : Keeps (Sound schema) reloadAll :=
  Keeps.getThen fun _ h => Keeps.bind (Keeps.set (h.setIndexes (IndexSet.performAll_ready
    (fun _ hx => KeptIndex.reload_ready (h.base ▸ hx)) h.indexes))) fun _ => keeps_failed _

/-! ### Any actions -/

theorem Sound.request (h : Sound schema t) {a : TableAction}
    (ha : ∀ column, a ≠ .invalidate (.index column)) : Sound schema (runFrom a.request t).2 := by
  have hfollow : ∀ env key change x, x.IsOver schema →
      Keeps (KeptIndex.Ready x) (KeptIndex.follow env key change) := fun env key change x _ =>
    (KeptIndex.ready_keptByAccess env.now x).follow rfl key change
  cases a with
  | setNow now => exact ⟨h.base, h.layers, h.indexes⟩
  | hold token => exact Keeps.bind (hold_sound token) (fun _ => Keeps.pure _) t h
  | release token => exact Keeps.bind (release_sound token) (fun _ => Keeps.pure _) t h
  | apply key cells direct token => exact apply_sound key cells direct token t h
  | flush table => exact Keeps.bind (flush_sound table) (fun _ => Keeps.pure _) t h
  | discard table timestamp => exact discard_sound table timestamp t h
  | invalidate table =>
    cases table with
    | base => exact invalidate_sound t h
    | index column => exact absurd rfl (ha column)
  | addIndex column indexName =>
    exact Keeps.bind (addIndex_sound column indexName) (fun _ => Keeps.pure _) t h
  | dropIndex column => exact dropIndex_sound column t h
  | dropAll => exact dropAll_sound t h
  | follow column token key change =>
    refine Keeps.getThen (fun t _ => ?_) t h
    exact onIndex_sound (hfollow t.environment key change) column token
  | build column token =>
    refine Keeps.bind (Keeps.getThen fun t _ => ?_) (fun _ => Keeps.pure _) t h
    exact onIndex_sound (fun x _ =>
      (KeptIndex.ready_keptByUpkeep x).build t.environment t.base) column token
  | truncate column timestamp =>
    exact onIndex_sound (fun x _ =>
      (KeptIndex.ready_keptByUpkeep x).truncate timestamp) column none t h
  | reload column =>
    refine Keeps.getThen (fun t ht => Keeps.bind ?_ fun _ => Keeps.pure _) t h
    exact onIndex_sound (fun x hx => KeptIndex.reload_ready (ht.base ▸ hx)) column none
  | retire column =>
    exact onIndex_sound (fun x _ => Keeps.modify fun k hk => hk.retire) column none t h
  | retireBefore column access count =>
    exact onIndex_sound
      (fun x _ => Keeps.modify fun _ hk => hk.planRetirement access count) column none t h
  | flushIndex column => exact flushIndex_sound column t h
  | flushAll => exact flushAll_sound t h
  | truncateAll timestamp => exact truncateAll_sound timestamp t h
  | reloadAll => exact Keeps.bind reloadAll_sound (fun _ => Keeps.pure _) t h

/-- **A table is sound after any actions**, as long as no index table is retired without its
index. -/
theorem Sound.after (h : Sound schema t) {actions : List TableAction}
    (hactions : ∀ column, .invalidate (.index column) ∉ actions) :
    Sound schema (t.after actions) := by
  induction actions generalizing t with
  | nil => exact h
  | cons a rest ih =>
    refine ih (h.request fun column heq => ?_) fun column hmem => ?_
    · exact hactions column (heq ▸ List.mem_cons_self)
    · exact hactions column (List.mem_cons_of_mem _ hmem)

end IndexedTable

end WideColumn
