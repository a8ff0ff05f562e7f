import WideColumn.Proofs.FollowedChanges

/-!
# What upkeep keeps

Upkeep is a sequence of single accesses, and any of them can be the last one.  What every single
access keeps is therefore kept by the work of an index as a whole, whether it succeeds or fails,
and by the work of a set of indexes.

* `disturb_induction` — what can happen to an index just before an access;
* `KeptByAccess` — what single accesses keep;
* `KeptByAccess.followCovered` — **the work on a change keeps it too**, wherever it ends;
* `KeptByUpkeep` — the same for accesses to the whole table, and for the work made of them;
* `IndexSet.performAll_member`, `performAll_keeps` — work on all indexes leaves each of them
  alone, or does the work on it;
* `TableStore.apply_keeps` — what every call of the hook keeps, a write of the base table keeps.
-/

namespace WideColumn

open Effects

namespace KeptIndex

/-- **What can happen just before an access**: the plan is brought up to date, the index is marked
as retired, or the table of an index that is marked is retired. -/
theorem disturb_induction {P : KeptIndex → Prop} {k : KeptIndex} {kind : AccessKind}
    (hplan : ∀ {k} disturbance, disturbance.fault = k.disturbance.fault → P k →
      P { k with disturbance })
    (hbegin : ∀ {k}, P k → P k.beginRetirement)
    (htable : ∀ {k}, k.state = .invalidated → P k → P k.retireTable) (h : P k) :
    P (k.disturb kind) := by
  unfold disturb
  split
  · split
    · exact h
    · split
      · unfold retireAsPlanned
        split
        · exact htable rfl (hbegin (hplan _ rfl h))
        · exact hbegin (hplan _ rfl h)
      · exact hplan _ rfl h
  · exact h

/-- A property of an index that single accesses at a time keep, those that fail included. -/
structure KeptByAccess (now : Int) (P : KeptIndex → Prop) : Prop where
  disturbed : ∀ k kind, P k → P (k.disturb kind)
  accepted : ∀ k key c store, P k → k.tableWrite now key c = .ok store →
    P ({ k with store }.record (.write true key [c]))
  refused : ∀ k key c, P k → P (k.record (.write false key [c]))

namespace KeptByAccess

variable {now : Int} {P : KeptIndex → Prop}

/-! ### Single steps -/

theorem isRetired (h : KeptByAccess now P) : Keeps P isRetired :=
  Keeps.bind (Keeps.modify fun k => h.disturbed k .check) fun _ =>
    Keeps.bind Keeps.get fun _ => Keeps.pure _

theorem unlessRetired (h : KeptByAccess now P) (e : StorageError) :
    Keeps P (unlessRetired e) := by
  cases e with
  | invalidated id =>
    exact Keeps.bind h.isRetired fun _ => Keeps.ite (Keeps.throw _) (Keeps.pure _)
  | _ => exact Keeps.throw _

theorem writeTable (h : KeptByAccess now P) (key : Bytes) (c : Cell) :
    Keeps P (writeTable now key c) := by
  intro k hk
  have hk := h.disturbed k .write hk
  unfold KeptIndex.writeTable
  simp only [runFrom_bind, runFrom_modify, runFrom_get]
  cases hw : (k.disturb .write).tableWrite now key c with
  | error e => exact h.refused _ key c hk
  | ok store => exact h.accepted _ key c store hk hw

theorem writeEntry (h : KeptByAccess now P) (e : IndexEntry) (c : Cell) :
    Keeps P (writeEntry now e c) := by
  refine Keeps.tryCatch (h.writeTable e.partitionKey c) fun error => ?_
  cases error with
  | storage error => exact h.unlessRetired error
  | _ => exact Keeps.throw _

theorem entryOf (key : Bytes) (c : Cell) : Keeps P (entryOf key c) :=
  Keeps.bind Keeps.get fun _ => Keeps.lift _

/-! ### Changes -/

theorem writeInPlace (h : KeptByAccess now P) {env : Environment} (henv : env.now = now)
    (key : Bytes) (c : Cell) (written : IndexEntry → Cell) :
    Keeps P (writeInPlace env key c written) := by
  subst henv
  exact Keeps.bind h.isRetired fun _ => Keeps.ite (Keeps.pure _) <|
    Keeps.bind (entryOf key c) fun e => h.writeEntry e (written e)

theorem oldEntryGoes (env : Environment) (key : Bytes) (old new : Cell) :
    Keeps P (oldEntryGoes env key old new) :=
  Keeps.ite (Keeps.pure _) <| Keeps.ite (Keeps.pure _) <|
    Keeps.bind (entryOf key old) fun _ => Keeps.bind (entryOf key new) fun _ => Keeps.pure _

theorem update (h : KeptByAccess now P) {env : Environment} (henv : env.now = now) (key : Bytes)
    (old new : Cell) : Keeps P (update env key old new) :=
  Keeps.bind h.isRetired fun _ => Keeps.ite (Keeps.pure _) <|
    Keeps.bind (h.writeInPlace henv key new _) fun _ =>
      Keeps.bind (oldEntryGoes env key old new) fun _ =>
        Keeps.ite (h.writeInPlace henv key old _) (Keeps.pure _)

theorem follow (h : KeptByAccess now P) {env : Environment} (henv : env.now = now) (key : Bytes)
    (change : Cell.Change) : Keeps P (follow env key change) := by
  cases change with
  | insert new => exact h.writeInPlace henv key new _
  | update old new => exact h.update henv key old new
  | delete old => exact h.writeInPlace henv key old _

/-- **The work on a change keeps what single accesses keep**, wherever it ends. -/
theorem followCovered (h : KeptByAccess now P) {env : Environment} (henv : env.now = now)
    (key : Bytes) (change : Cell.Change) : Keeps P (IndexSet.followCovered env key change) :=
  Keeps.bind Keeps.get fun _ => Keeps.ite (h.follow henv key change) (Keeps.pure _)

end KeptByAccess

/-! ### The whole table -/

/-- A property of an index that single accesses keep at all times, those that concern its whole
table included. -/
structure KeptByUpkeep (P : KeptIndex → Prop) : Prop where
  access : ∀ now, KeptByAccess now P
  activated : ∀ {k}, P k → P (if k.state = .building then { k with state := .active } else k)
  discarded : ∀ {k timestamp store}, P k → k.store.discard timestamp = .ok store →
    P { k with store }
  noted : ∀ {k} access, P k → P (k.record access)
  issued : ∀ {k order ticket store order'}, P k →
    k.store.issueFlush order = .ok (ticket, store, order') → P { k with store }

namespace KeptByUpkeep

variable {P : KeptIndex → Prop} {k : KeptIndex}

theorem disturbed (h : KeptByUpkeep P) (hk : P k) (kind : AccessKind) : P (k.disturb kind) :=
  (h.access 0).disturbed k kind hk

theorem recordAll (h : KeptByUpkeep P) (env : Environment) (cells : List (Bytes × Cell)) :
    Keeps P (recordAll env cells) := by
  induction cells with
  | nil => exact Keeps.pure 0
  | cons head rest ih =>
    refine Keeps.bind Keeps.get fun k => Keeps.ite ?_ ih
    exact Keeps.bind ((h.access env.now).writeInPlace rfl head.1 head.2 _) fun _ =>
      Keeps.bind ih fun _ => Keeps.pure _

theorem build (h : KeptByUpkeep P) (env : Environment) (s : TableStore) :
    Keeps P (build env s) := by
  refine Keeps.bind (h.access env.now).isRetired fun retired => Keeps.ite ?_ ?_
  · exact Keeps.bind Keeps.get fun k => Keeps.throwThen _ _
  · exact Keeps.bind (h.recordAll env _) fun _ =>
      Keeps.bind (Keeps.modify fun _ hk => h.disturbed hk .check) fun _ =>
        Keeps.bind (Keeps.modify fun _ hk => h.activated hk) fun _ => Keeps.pure _

theorem truncate (h : KeptByUpkeep P) (timestamp : Int) : Keeps P (truncate timestamp) := by
  refine Keeps.bind (h.access 0).isRetired fun retired => Keeps.ite (Keeps.pure _) ?_
  refine Keeps.bind (Keeps.modify fun _ hk => h.disturbed hk .discard) fun _ => ?_
  refine Keeps.getThen fun k hk => ?_
  cases hdiscard : k.store.discard timestamp with
  | error e => exact (h.access 0).unlessRetired e
  | ok s => exact Keeps.set (h.discarded hk hdiscard)

theorem issueFlush (h : KeptByUpkeep P) (hk : P k) (lock : FlushLock) (order : WriteOrder) :
    P (k.issueFlush lock order).2.2 := by
  have hnoted := h.noted (.flush (lock.issue (·.isLocked)).1) (h.disturbed hk .flush)
  unfold KeptIndex.issueFlush
  simp only [record]
  cases hissue : (k.disturb .flush).store.issueFlush order with
  | error e => exact hnoted
  | ok issued =>
    obtain ⟨ticket, s, order'⟩ := issued
    exact h.issued hnoted hissue

theorem beginFlush (h : KeptByUpkeep P) (hk : P k) (lock : FlushLock) (order : WriteOrder) :
    P (k.beginFlush lock order).2.2 := by
  have hchecked := (h.access 0).isRetired k hk
  unfold KeptIndex.beginFlush
  simp only [run_eq_runFrom]
  rcases hcheck : runFrom KeptIndex.isRetired k with ⟨e | retired, k₁⟩ <;> rw [hcheck] at hchecked
  · exact hchecked
  · cases retired with
    | true => exact hchecked
    | false =>
      have hissued := h.issueFlush hchecked lock order
      simp only
      rcases hissue : k₁.issueFlush lock order with ⟨e | ticket, order', k₂⟩ <;>
        rw [hissue] at hissued
      · exact (h.access 0).unlessRetired e k₂ hissued
      · exact hissued

/-- What a flush leaves when it is finished is kept if it is kept by the table. -/
theorem endFlush (h : KeptByUpkeep P) {ticket : Option FlushTicket}
    (hfinished : ∀ t, ticket = some t →
      ∀ {k}, P k → P { k with store := (k.store.finishFlush t).2 }) (hk : P k) :
    P (k.endFlush ticket).2 := by
  have hfinish : P (k.finishFlush ticket).2 := by
    cases ticket with
    | none => exact hk
    | some ticket => exact hfinished ticket rfl (h.disturbed hk .finish)
  unfold KeptIndex.endFlush
  simp only [run_eq_runFrom]
  rcases hresult : k.finishFlush ticket with ⟨e | ⟨⟨⟩⟩, k₁⟩ <;> rw [hresult] at hfinish
  · exact (h.access 0).unlessRetired e k₁ hfinish
  · exact hfinish

theorem flush (h : KeptByUpkeep P)
    (hfinished : ∀ {k} ticket, P k → P { k with store := (k.store.finishFlush ticket).2 })
    (hk : P k) (lock : FlushLock) (order : WriteOrder) : P (k.flush lock order).2.2 := by
  have hbegun := h.beginFlush hk lock order
  unfold KeptIndex.flush
  rcases hbegin : k.beginFlush lock order with ⟨e | ticket, order', k₁⟩ <;> rw [hbegin] at hbegun
  · exact hbegun
  · exact h.endFlush (fun t _ _ => hfinished t) hbegun

end KeptByUpkeep

end KeptIndex

/-! ### All indexes of a table -/

/-- What reached the table of one index. -/
def IndexJournal.of (journal : IndexJournal) (column : String) : List IndexAccess :=
  (journal.filter fun access => access.1 = column).map Prod.snd

namespace IndexJournal

theorem of_append (j j' : IndexJournal) (column : String) :
    of (j ++ j') column = j.of column ++ of j' column := by
  simp [of]

theorem of_map_self (accesses : List IndexAccess) (column : String) :
    of (accesses.map (column, ·)) column = accesses := by
  induction accesses with
  | nil => rfl
  | cons a rest ih => simpa [of] using ih

theorem of_map_ne (accesses : List IndexAccess) {column c : String} (h : c ≠ column) :
    of (accesses.map (c, ·)) column = [] := by
  simp [of, h]

end IndexJournal

namespace IndexSet

variable {α : Type}

/-- What becomes of one index by work on it, and what reaches its table. -/
structure Performed (work : Upkeep α) (k k' : KeptIndex) (accesses : List IndexAccess) : Prop where
  index : k' = { (runFrom work { k with journal := [] }).2 with journal := [] }
  accesses : accesses = (runFrom work { k with journal := [] }).2.journal

/-- The first index comes first, and the others only if the work on it succeeds. -/
theorem performAll_cons (work : Upkeep α) (c : String) (m : KeptIndex)
    (rest : Bindings String KeptIndex) :
    performAll work ((c, m) :: rest) =
      match runFrom work { m with journal := [] } with
      | (.error e, m') => (.error e, (c, { m' with journal := [] }) :: rest, m'.journal.map (c, ·))
      | (.ok a, m') =>
        ((performAll work rest).1.map ((c, a) :: ·),
          (c, { m' with journal := [] }) :: (performAll work rest).2.1,
          m'.journal.map (c, ·) ++ (performAll work rest).2.2) := by
  conv => lhs; unfold performAll KeptIndex.perform
  rw [run_eq_runFrom]
  rcases runFrom work { m with journal := [] } with ⟨e | a, m'⟩ <;> rfl

/-- The indexes of a set stay those of the same columns. -/
theorem performAll_columns (work : Upkeep α) (members : Bindings String KeptIndex) :
    (performAll work members).2.1.map Prod.fst = members.map Prod.fst := by
  induction members with
  | nil => rfl
  | cons head rest ih =>
    obtain ⟨c, m⟩ := head
    rw [performAll_cons]
    rcases runFrom work { m with journal := [] } with ⟨e | a, m'⟩
    · rfl
    · exact congrArg (c :: ·) ih

theorem performAll_sorted (work : Upkeep α) {members : Bindings String KeptIndex}
    (h : members.Sorted) : (performAll work members).2.1.Sorted := by
  have hkeys : ∀ m : Bindings String KeptIndex,
      (m.map Prod.fst).Pairwise (fun a b => compare a b = .lt) ↔ m.Sorted :=
    fun _ => List.pairwise_map
  rw [← hkeys, performAll_columns, hkeys]
  exact h

/-- Nothing reaches the table of a column that has no index. -/
theorem performAll_elsewhere (work : Upkeep α) {members : Bindings String KeptIndex}
    {column : String} (h : ∀ b ∈ members, b.1 ≠ column) :
    (performAll work members).2.2.of column = [] := by
  induction members with
  | nil => rfl
  | cons head rest ih =>
    obtain ⟨c, m⟩ := head
    have hne : c ≠ column := h (c, m) List.mem_cons_self
    have ih := ih fun b hb => h b (List.mem_cons_of_mem _ hb)
    rw [performAll_cons]
    rcases runFrom work { m with journal := [] } with ⟨e | a, m'⟩
    · exact IndexJournal.of_map_ne _ hne
    · show IndexJournal.of (_ ++ _) column = []
      rw [IndexJournal.of_append, IndexJournal.of_map_ne _ hne, ih]
      rfl

/-- **Work on all indexes** leaves each of them alone, or does the work on it. -/
theorem performAll_member (work : Upkeep α) {members : Bindings String KeptIndex}
    (hsorted : members.Sorted) {column : String} {k : KeptIndex}
    (hk : members.find? column = some k) :
    ∃ k', (performAll work members).2.1.find? column = some k' ∧
      ((k' = k ∧ (performAll work members).2.2.of column = []) ∨
        Performed work k k' ((performAll work members).2.2.of column)) := by
  induction members with
  | nil => cases hk
  | cons head rest ih =>
    obtain ⟨c, m⟩ := head
    rw [performAll_cons]
    by_cases hc : column = c
    · subst hc
      rw [Bindings.find?_cons_self] at hk
      cases hk
      have helsewhere : (performAll work rest).2.2.of column = [] :=
        performAll_elsewhere work fun b hb => hsorted.head_ne hb
      rcases hm : runFrom work { k with journal := [] } with ⟨e | a, k'⟩
      · refine ⟨_, Bindings.find?_cons_self _ _ _, .inr ⟨by rw [hm], ?_⟩⟩
        rw [hm]
        exact IndexJournal.of_map_self _ _
      · refine ⟨_, Bindings.find?_cons_self _ _ _, .inr ⟨by rw [hm], ?_⟩⟩
        rw [hm]
        show IndexJournal.of (_ ++ _) column = _
        rw [IndexJournal.of_append, IndexJournal.of_map_self, helsewhere, List.append_nil]
    · rw [Bindings.find?_cons_ne hc] at hk
      rcases runFrom work { m with journal := [] } with ⟨e | a, m'⟩
      · exact ⟨k, (Bindings.find?_cons_ne hc _ _).trans hk,
          .inl ⟨rfl, IndexJournal.of_map_ne _ (Ne.symm hc)⟩⟩
      · obtain ⟨k', hk', hdone⟩ := ih hsorted.tail hk
        refine ⟨k', (Bindings.find?_cons_ne hc _ _).trans hk', ?_⟩
        show (k' = k ∧ IndexJournal.of (_ ++ _) column = []) ∨
          Performed work k k' (IndexJournal.of (_ ++ _) column)
        rw [IndexJournal.of_append, IndexJournal.of_map_ne _ (Ne.symm hc), List.nil_append]
        exact hdone

/-- What work on the index of a column keeps, it keeps wherever the work on all indexes ends. -/
theorem performAll_keeps {P : KeptIndex → Prop} {work : Upkeep α} (hwork : Keeps P work)
    (hforgotten : ∀ {k}, P k → P { k with journal := [] }) {members : Bindings String KeptIndex}
    {column : String} {k : KeptIndex} (hk : members.find? column = some k) (h : P k) :
    ∃ k', (performAll work members).2.1.find? column = some k' ∧ P k' := by
  induction members with
  | nil => cases hk
  | cons head rest ih =>
    obtain ⟨c, m⟩ := head
    rw [performAll_cons]
    by_cases hc : column = c
    · subst hc
      rw [Bindings.find?_cons_self] at hk
      cases hk
      have hdone := hwork _ (hforgotten h)
      rcases hm : runFrom work { k with journal := [] } with ⟨e | a, k'⟩ <;> rw [hm] at hdone <;>
        exact ⟨_, Bindings.find?_cons_self _ _ _, hforgotten hdone⟩
    · rw [Bindings.find?_cons_ne hc] at hk
      rcases runFrom work { m with journal := [] } with ⟨e | a, m'⟩
      · exact ⟨k, (Bindings.find?_cons_ne hc _ _).trans hk, h⟩
      · obtain ⟨k', hk', hP⟩ := ih hk
        exact ⟨k', (Bindings.find?_cons_ne hc _ _).trans hk', hP⟩

/-- A column has an index afterwards if it had one before. -/
theorem performAll_find?_eq_none (work : Upkeep α) {members : Bindings String KeptIndex}
    {column : String} :
    (performAll work members).2.1.find? column = none ↔ members.find? column = none := by
  have hkeys : ∀ m : Bindings String KeptIndex,
      m.find? column = none ↔ column ∉ m.map Prod.fst := by
    intro m
    rw [Bindings.find?_eq_none_iff, List.mem_map]
    exact ⟨fun h ⟨b, hb, hc⟩ => h b.2 (hc ▸ hb), fun h k hk => h ⟨_, hk, rfl⟩⟩
  rw [hkeys, hkeys, performAll_columns]

end IndexSet

/-! ### Writes of the base table -/

/-- **What every call of the hook keeps, a write keeps**, whether it succeeds or fails. -/
theorem TableStore.apply_keeps {σ : Type} {P : σ → Prop} (s : TableStore) (now : Int)
    {hook : WriteHook σ} {key : Bytes} {mutation : List Cell}
    (h : ∀ change ∈ s.changes now key mutation, Keeps P (hook key change)) :
    Keeps P (s.apply now hook key mutation) := by
  rw [apply_eq_plan]
  split
  · exact Keeps.throw _
  · exact Keeps.bind (Keeps.forM h) fun _ => Keeps.pure _

end WideColumn
