import WideColumn.Proofs.RefusedWrites
import WideColumn.Proofs.SharedEntries
import WideColumn.Proofs.ValueIndexes

/-!
# Updates without a gap

An index takes up the new cell of an update before it lets go of the old one.  Readers who look into
the index table meanwhile, after any of its writes, find one of them.

* `Throughout` — what holds of an index table after each single access;
* `runFrom_update` — **an update is at most two writes**, and the second one follows only if the
  first one was accepted;
* `LeavesNoGap` — what readers find after each access of an update, and in the end;
* `update_leaves_no_gap` — **no update of a column's cell leaves a gap**, whatever writes the index
  table refuses;
* `loose_update_leaves_gap` — one that does, where a name is packed in two ways.
-/

namespace WideColumn

open Effects KeptIndex

/-! ### After each access -/

/-- An index table has become what it is by accesses after each of which it had a property. -/
structure Throughout (now : Int) (P : TableStore → Prop) (s : TableStore) (k : KeptIndex) :
    Prop where
  each : ∀ done, done <+: k.journal →
    ∃ store, s.writeAll now (acceptedWrites done) = .ok store ∧ P store
  last : s.writeAll now (acceptedWrites k.journal) = .ok k.store

namespace Throughout

variable {now : Int} {P : TableStore → Prop} {s : TableStore} {k : KeptIndex}

theorem start (hjournal : k.journal = []) (h : P k.store) : Throughout now P k.store k where
  each := fun done hdone => by
    rw [hjournal, List.prefix_nil] at hdone
    subst hdone
    exact ⟨k.store, rfl, h⟩
  last := by
    rw [hjournal]
    rfl

theorem record (h : Throughout now P s k) {k' : KeptIndex} {access : IndexAccess}
    (hjournal : k'.journal = k.journal ++ [access])
    (hlast : s.writeAll now (acceptedWrites k'.journal) = .ok k'.store) (hP : P k'.store) :
    Throughout now P s k' where
  each := fun done hdone => by
    rw [hjournal, List.prefix_concat_iff] at hdone
    rcases hdone with hall | hdone
    · rw [hall, ← hjournal]
      exact ⟨k'.store, hlast, hP⟩
    · exact h.each done hdone
  last := hlast

/-- One more write. -/
theorem attempt (h : Throughout now P s k) {key : Bytes} {c : Cell}
    (hP : P (k.attempt now key c).2.store) : Throughout now P s (k.attempt now key c).2 := by
  cases hwrite : k.tableWrite now key c with
  | error e =>
    rw [attempt_error hwrite] at hP ⊢
    refine h.record rfl ?_ hP
    show s.writeAll now (acceptedWrites (k.journal ++ [.write false key [c]])) = .ok k.store
    rw [← h.last]
    simp [acceptedWrites]
  | ok store =>
    rw [attempt_ok hwrite] at hP ⊢
    refine h.record rfl ?_ hP
    show s.writeAll now (acceptedWrites (k.journal ++ [.write true key [c]])) = .ok store
    have hjournal : acceptedWrites (k.journal ++ [.write true key [c]]) =
        acceptedWrites k.journal ++ [(key, [c])] := by
      simp [acceptedWrites]
    rw [hjournal, TableStore.writeAll_append, h.last]
    exact except_bind_eq_ok.2
      ⟨k.store, rfl, except_bind_eq_ok.2 ⟨store, write_of_tableWrite hwrite, rfl⟩⟩

end Throughout

/-! ### Single updates -/

namespace KeptIndex

variable {k : KeptIndex} {env : Environment} {now : Int} {key : Bytes} {c old new : Cell}
  {e e' : IndexEntry}

theorem runFrom_oldEntryGoes (hold : old.isLive env.now = true) (hnew : new.isLive env.now = true)
    (he : k.index.entry key old = .ok e) (he' : k.index.entry key new = .ok e') :
    runFrom (oldEntryGoes env key old new) k = (.ok (env.dropsOld e e'), k) := by
  unfold oldEntryGoes
  simp only [hold, hnew, Bool.not_true, Bool.false_eq_true, if_false]
  rw [runFrom_bind, runFrom_entryOf, he]
  simp only
  rw [runFrom_bind, runFrom_entryOf, he']
  rfl

theorem attempt_index (k : KeptIndex) (now : Int) (key : Bytes) (c : Cell) :
    (k.attempt now key c).2.index = k.index := by
  unfold attempt
  cases k.tableWrite now key c <;> rfl

/-- **An update is at most two writes**: that of the new entry, and, if it is accepted and the old
cell had another entry, that of a tombstone there. -/
theorem runFrom_update (h : k.Lasting) (hold : old.isLive now = true) (hnew : new.isLive now = true)
    (he : k.index.entry key old = .ok e) (he' : k.index.entry key new = .ok e') :
    runFrom (update ⟨now, dropsOldWhenMoved⟩ key old new) k =
      match k.attempt now e'.partitionKey (entryCell e' new) with
      | (.error error, k₁) => (.error error, k₁)
      | (.ok (), k₁) =>
        if e = e' then (.ok (), k₁)
        else k₁.attempt now e.partitionKey (.tombstone e.cellName old.timestamp now) := by
  have hlasting := h.attempt now e'.partitionKey (entryCell e' new)
  have hindex := k.attempt_index now e'.partitionKey (entryCell e' new)
  have hinsert : runFrom (insert ⟨now, dropsOldWhenMoved⟩ key new) k =
      k.attempt now e'.partitionKey (entryCell e' new) := by
    rw [insert_eq_writeInPlace, runFrom_writeInPlace h _ hnew, he']
  unfold update
  rw [runFrom_bind, h.isRetired]
  simp only [Bool.false_eq_true, if_false]
  rw [runFrom_bind, hinsert]
  rcases hfirst : k.attempt now e'.partitionKey (entryCell e' new) with ⟨error | ⟨⟨⟩⟩, k₁⟩
  · rfl
  · rw [hfirst] at hlasting hindex
    simp only at hindex ⊢
    rw [runFrom_bind, runFrom_oldEntryGoes hold hnew (hindex ▸ he) (hindex ▸ he')]
    by_cases hsame : e = e'
    · simp [hsame, dropsOldWhenMoved]
    · simp only [hsame, dropsOldWhenMoved, ne_eq, not_false_eq_true, decide_true, if_true, if_false]
      rw [delete_eq_writeInPlace, runFrom_writeInPlace hlasting _ hold, hindex, he]

end KeptIndex

/-! ### Entries that are replaced -/

/-- An index table before an update: the entry of the old cell is there, and that of the new one
counts if it is written. -/
structure BeforeUpdate (now : Int) (key : Bytes) (old new : Cell) (e e' : IndexEntry)
    (k : KeptIndex) : Prop where
  lasting : k.Lasting
  layers : k.store.layers.WellFormed
  journal : k.journal = []
  old_live : old.isLive now = true
  new_live : new.isLive now = true
  old_entry : k.index.entry key old = .ok e
  new_entry : k.index.entry key new = .ok e'
  found : Ledger.at k.store.get? e = some (entryCell e old)
  counts : Ledger.put k.store.get? e'.partitionKey (entryCell e' new) =
    Ledger.set k.store.get? e'.partitionKey (entryCell e' new)

/-- What readers find in an index table after each write of an update, and in the end. -/
structure LeavesNoGap (now : Int) (old new : IndexEntry) (c : Cell) (k : KeptIndex)
    (result : Except EngineError Unit) (k' : KeptIndex) : Prop where
  found : k.store.Shows now old
  throughout : Throughout now (fun store => store.Shows now old ∨ store.Shows now new) k.store k'
  replaced : result = .ok () → k'.store.Shows now new ∧ (k'.store.Shows now old ↔ old = new)
  /-- An entry that stays is written once. -/
  single : result = .ok () → old = new →
    k'.journal = [.write true new.partitionKey [entryCell new c]]
  /-- If the first write fails, so does the update, and nothing else has happened. -/
  refused : ∀ error, k.tableWrite now new.partitionKey (entryCell new c) = .error error →
    result = .error error ∧ k'.store = k.store ∧
      k'.journal = [.write false new.partitionKey [entryCell new c]]

/-- Readers find the entry that records a live cell. -/
theorem TableStore.shows_entryCell {index : TableStore} (h : index.layers.WellFormed) {now : Int}
    {e : IndexEntry} {c : Cell} (hat : Ledger.at index.get? e = some (entryCell e c))
    (hlive : c.isLive now = true) : index.Shows now e :=
  (shows_iff h).2 ⟨entryCell e c, hat, mirror_isLive hlive⟩

theorem Ledger.at_set_of_ne {w : Ledger} {e e' : IndexEntry} (hne : e ≠ e') {c : Cell}
    (hname : c.name = e'.cellName) : Ledger.at (w.set e'.partitionKey c) e = w.at e := by
  refine Ledger.set_of_ne w fun hk => hne ?_
  obtain ⟨value, p⟩ := e
  obtain ⟨value', p'⟩ := e'
  rw [IndexEntry.mk.injEq]
  exact ⟨hk.1, hk.2.trans hname⟩

namespace BeforeUpdate

variable {now : Int} {key : Bytes} {old new : Cell} {e e' : IndexEntry} {k : KeptIndex}
  {store store' : TableStore}

theorem shows_old (h : BeforeUpdate now key old new e e' k) : k.store.Shows now e :=
  TableStore.shows_entryCell h.layers h.found h.old_live

/-- The first write puts the new entry beside the old one. -/
theorem recorded (h : BeforeUpdate now key old new e e' k)
    (hwrite : k.tableWrite now e'.partitionKey (entryCell e' new) = .ok store) :
    store.layers.WellFormed ∧ Ledger.at store.get? e' = some (entryCell e' new) ∧
      (e ≠ e' → Ledger.at store.get? e = some (entryCell e old)) := by
  obtain ⟨hwf, hget⟩ := TableStore.write_ok h.layers (write_of_tableWrite hwrite)
  rw [hget, h.counts]
  exact ⟨hwf, Ledger.set_self _ _ _, fun hne => (Ledger.at_set_of_ne hne rfl).trans h.found⟩

/-- The second write hides the old entry, which is another one. -/
theorem dropped (hwf : store.layers.WellFormed) (hne : e ≠ e')
    (hnew : Ledger.at store.get? e' = some (entryCell e' new))
    (hold : Ledger.at store.get? e = some (entryCell e old))
    (hwrite : store.write now e.partitionKey [.tombstone e.cellName old.timestamp now] =
      .ok store') :
    store'.layers.WellFormed ∧ Ledger.at store'.get? e' = some (entryCell e' new) ∧
      Ledger.at store'.get? e = some (.tombstone e.cellName old.timestamp now) := by
  obtain ⟨hwf', hget⟩ := TableStore.write_ok hwf hwrite
  have hput : Ledger.put store.get? e.partitionKey (.tombstone e.cellName old.timestamp now) =
      Ledger.set store.get? e.partitionKey (.tombstone e.cellName old.timestamp now) := by
    refine Ledger.put_eq_set fun i hi => ?_
    cases hold.symm.trans hi
    exact tombstone_supersedes_mirror
  rw [hget, hput]
  exact ⟨hwf', (Ledger.at_set_of_ne (Ne.symm hne) rfl).trans hnew, Ledger.set_self _ _ _⟩

/-- A first write that is refused ends the update. -/
theorem refused (h : BeforeUpdate now key old new e e' k) {error : EngineError}
    (hwrite : k.tableWrite now e'.partitionKey (entryCell e' new) = .error error) :
    LeavesNoGap now e e' new k (.error error)
      (k.attempt now e'.partitionKey (entryCell e' new)).2 := by
  have hstart : Throughout now (fun s => s.Shows now e ∨ s.Shows now e') k.store k :=
    .start h.journal (.inl h.shows_old)
  refine ⟨h.shows_old, hstart.attempt ?_, nofun, nofun, fun error' hwrite' => ?_⟩
  · rw [attempt_error hwrite]
    exact .inl h.shows_old
  · cases hwrite.symm.trans hwrite'
    rw [attempt_error hwrite]
    refine ⟨rfl, rfl, ?_⟩
    show k.journal ++ _ = _
    rw [h.journal, List.nil_append]

/-- A first write that is accepted. -/
theorem accepted (h : BeforeUpdate now key old new e e' k)
    (hwrite : k.tableWrite now e'.partitionKey (entryCell e' new) = .ok store) :
    Throughout now (fun s => s.Shows now e ∨ s.Shows now e') k.store
      (k.attempt now e'.partitionKey (entryCell e' new)).2 := by
  obtain ⟨hwf, hnew, -⟩ := h.recorded hwrite
  refine (Throughout.start h.journal (.inl h.shows_old)).attempt ?_
  rw [attempt_ok hwrite]
  exact .inr (TableStore.shows_entryCell hwf hnew h.new_live)

/-- An entry that stays needs no second write. -/
theorem kept (h : BeforeUpdate now key old new e e' k) (hsame : e = e')
    (hwrite : k.tableWrite now e'.partitionKey (entryCell e' new) = .ok store) {k₁ : KeptIndex}
    (hstore : k₁.store = store)
    (hfirst : Throughout now (fun s => s.Shows now e ∨ s.Shows now e') k.store k₁)
    (hjournal : k₁.journal = [.write true e'.partitionKey [entryCell e' new]]) :
    LeavesNoGap now e e' new k (.ok ()) k₁ := by
  obtain ⟨hwf, hnew, -⟩ := h.recorded hwrite
  have hshows : k₁.store.Shows now e' := by
    rw [hstore]
    exact TableStore.shows_entryCell hwf hnew h.new_live
  refine ⟨h.shows_old, hfirst, fun _ => ⟨hshows, iff_of_true (hsame ▸ hshows) hsame⟩,
    fun _ _ => hjournal, fun error herror => ?_⟩
  cases hwrite.symm.trans herror

/-- A second write, whether it is accepted or not. -/
theorem moved (h : BeforeUpdate now key old new e e' k) (hne : e ≠ e')
    (hwrite : k.tableWrite now e'.partitionKey (entryCell e' new) = .ok store) {k₁ : KeptIndex}
    (hstore : k₁.store = store)
    (hfirst : Throughout now (fun s => s.Shows now e ∨ s.Shows now e') k.store k₁) :
    LeavesNoGap now e e' new k
      (k₁.attempt now e.partitionKey (.tombstone e.cellName old.timestamp now)).1
      (k₁.attempt now e.partitionKey (.tombstone e.cellName old.timestamp now)).2 := by
  obtain ⟨hwf, hnew, hold⟩ := h.recorded hwrite
  have hrefused : ∀ error, k.tableWrite now e'.partitionKey (entryCell e' new) ≠ .error error := by
    intro error herror
    cases hwrite.symm.trans herror
  cases hsecond : k₁.tableWrite now e.partitionKey (.tombstone e.cellName old.timestamp now) with
  | error error =>
    refine ⟨h.shows_old, hfirst.attempt ?_, ?_, ?_,
      fun error herror => absurd herror (hrefused error)⟩
    · rw [attempt_error hsecond]
      show k₁.store.Shows now e ∨ k₁.store.Shows now e'
      rw [hstore]
      exact .inr (TableStore.shows_entryCell hwf hnew h.new_live)
    · rw [attempt_error hsecond]
      nofun
    · rw [attempt_error hsecond]
      nofun
  | ok store' =>
    have hwrite' := write_of_tableWrite hsecond
    rw [hstore] at hwrite'
    obtain ⟨hwf', hnew', hgone⟩ := dropped hwf hne hnew (hold hne) hwrite'
    have hshows : store'.Shows now e' := TableStore.shows_entryCell hwf' hnew' h.new_live
    have hhidden : ¬ store'.Shows now e := by
      rw [TableStore.shows_iff hwf']
      rintro ⟨i, hi, hilive⟩
      cases hgone.symm.trans hi
      cases hilive
    refine ⟨h.shows_old, hfirst.attempt ?_, fun _ => ?_, fun _ hsame => absurd hsame hne,
      fun error herror => absurd herror (hrefused error)⟩
    · rw [attempt_ok hsecond]
      exact .inr hshows
    · rw [attempt_ok hsecond]
      exact ⟨hshows, iff_of_false hhidden hne⟩

/-- **One update of an index table.** -/
theorem leavesNoGap (h : BeforeUpdate now key old new e e' k) :
    LeavesNoGap now e e' new k (runFrom (update ⟨now, dropsOldWhenMoved⟩ key old new) k).1
      (runFrom (update ⟨now, dropsOldWhenMoved⟩ key old new) k).2 := by
  rw [runFrom_update h.lasting h.old_live h.new_live h.old_entry h.new_entry]
  cases hfirst : k.tableWrite now e'.partitionKey (entryCell e' new) with
  | error error =>
    have hrefused := h.refused hfirst
    rw [attempt_error hfirst] at hrefused ⊢
    exact hrefused
  | ok store =>
    have haccepted := h.accepted hfirst
    rw [attempt_ok hfirst] at haccepted ⊢
    by_cases hsame : e = e'
    · subst hsame
      simp only [if_true]
      exact h.kept rfl hfirst rfl haccepted (congrArg (· ++ _) h.journal)
    · simp only [hsame, if_false]
      exact h.moved hsame hfirst rfl haccepted

end BeforeUpdate

/-! ### Runs -/

/-- The index with writes that its table is going to refuse, and with nothing noted yet. -/
def KeptIndex.facing (fault : WriteFault) (k : KeptIndex) : KeptIndex :=
  { k with journal := [], disturbance := { fault } }

/-- An index that mirrors its column is ready for every update. -/
theorem Mirrors.beforeUpdate {x : SecondaryIndex} (hx : x.RecordsValues) {now : Int} {v : Ledger}
    (hv : v.Named x.base) {k : KeptIndex} (hhealthy : k.Healthy) (hindex : k.index = x)
    (h : Mirrors x now v k.store.get?) {key : Bytes} {old new : Cell}
    (hcov : x.covers new = true) (hname : x.base.HasName new.name)
    (heff : new.effect now (v key new.name) = .visible (.update old new))
    (hold : old.isLive now = true) (fault : WriteFault) :
    ∃ e e', x.entry key old = .ok e ∧ x.entry key new = .ok e' ∧
      BeforeUpdate now key old new e e' (k.facing fault) := by
  rcases Cell.visible_cases heff with ⟨-, -, hchange⟩ | ⟨o, ho, hs, hnew, hchange⟩ |
    ⟨_, -, -, -, -, hchange⟩
  · cases hchange
  · cases hchange
    have hon : old.name = new.name := (hv key new.name old ho).1
    obtain ⟨p, hp, hfound⟩ := h.recorded key new.name old ho ((x.covers_congr hon).trans hcov) hold
    have he : x.entry key old = .ok ⟨old.value, p⟩ :=
      (hx.entry_eq_ok key old _).2 ⟨rfl, by rw [hon]; exact hp⟩
    have he' : x.entry key new = .ok ⟨new.value, p⟩ := (hx.entry_eq_ok key new _).2 ⟨rfl, hp⟩
    refine ⟨_, _, he, he', ⟨hhealthy.state, rfl⟩, hhealthy.layers, rfl, hold, hnew, hindex ▸ he,
      hindex ▸ he', hfound, ?_⟩
    refine h.put_mirror hcov hname hp hnew fun o' ho' => ?_
    cases ho.symm.trans ho'
    exact hs
  · cases hchange

/-- What the index of a column is like before and after the hook shows it a change, which is the
next one after some others. -/
def KeptIndex.Shown (env : Environment) (key : Bytes) (indexes : IndexSet) (column : String)
    (before : List Cell.Change) (change : Cell.Change) (k k' : KeptIndex) : Prop :=
  ∃ s s', runFrom (before.forM (IndexSet.hook env key)) indexes = (.ok (), s) ∧
    runFrom (IndexSet.hook env key change) s = (.ok (), s') ∧
    s.members.find? column = some k ∧ s'.members.find? column = some { k' with journal := [] }

/-- **No update leaves a gap.**  Take an index on a regular or a static column, added while its
base table is empty, and an accepted write after any run of steps.  Whenever the write puts a live
cell of the column in place of a live one, the index does so by an update that leaves no gap; nor
would it leave one, whatever writes the index table refused. -/
theorem update_leaves_no_gap {schema : TableSchema} {column : String} {indexName : Option String}
    {x : SecondaryIndex} (hx : SecondaryIndex.ofColumn schema column indexName = .ok x)
    (hrole : schema.role? column = some .regular ∨ schema.role? column = some .static)
    {others indexes : IndexSet} (hadd : others.add x = .ok indexes) (now : Int)
    {steps : List DeploymentStep}
    (hnames : ∀ key mutation, .write key mutation ∈ steps → ∀ c ∈ mutation, schema.HasName c.name)
    {d d' : Deployment} (hrun : (Deployment.start schema indexes now).run steps = some d)
    {key : Bytes} {mutation : List Cell} (hwritten : ∀ c ∈ mutation, schema.HasName c.name)
    (hstep : d.step (.write key mutation) = some d') {before after : List Cell.Change}
    {old new : Cell}
    (hchanges : d.base.changes d.now key mutation = before ++ .update old new :: after)
    (hcov : x.covers new = true) (hold : old.isLive d.now = true) :
    ∃ k k' e e', KeptIndex.Shown d.environment key d.indexes column before (.update old new) k k' ∧
      x.entry key old = .ok e ∧ x.entry key new = .ok e' ∧
      runFrom (update d.environment key old new) (k.facing .none) = (.ok (), k') ∧
      ∀ fault, LeavesNoGap d.now e e' new (k.facing fault)
        (runFrom (update d.environment key old new) (k.facing fault)).1
        (runFrom (update d.environment key old new) (k.facing fault)).2 := by
  obtain ⟨rfl, rfl, hresolved⟩ := SecondaryIndex.ofColumn_ok hx
  have hcolumn := SecondaryIndex.isOnValueColumn_of_role hresolved hrole
  have hrecords := SecondaryIndex.recordsValues_of_value_column hcolumn
  have hkept := keptBySteps_mirrors hrecords
  have h := (Tracks.start hadd now Mirrors.empty).run hkept hnames hrun
  obtain ⟨s, s', v, c, hbefore, hhook, ⟨hv, k, hk, hhealthy, hindex, hI⟩, hname, heff⟩ :=
    h.before_change hkept.toKeptByCells hwritten hstep hchanges
  have hc : c = new := by
    rcases Cell.visible_cases heff with ⟨-, -, hchange⟩ | ⟨o, -, -, -, hchange⟩ |
      ⟨_, -, -, -, -, hchange⟩ <;> cases hchange
    rfl
  subst hc
  have hready := Mirrors.beforeUpdate hrecords hv hhealthy hindex hI hcov hname heff hold
  obtain ⟨e, e', he, he', -⟩ := hready .none
  obtain ⟨k', hwork, hk'⟩ := IndexSet.hook_member hk hhook
  have hcalm : { k with journal := [] } = k.facing .none := by
    unfold facing
    rw [hhealthy.undisturbed]
  rw [hcalm, runFrom_followCovered, if_pos (hindex ▸ hcov)] at hwork
  refine ⟨k, k', e, e', ⟨s, s', hbefore, hhook, hk, hk'⟩, he, he', hwork, fun fault => ?_⟩
  obtain ⟨e₁, e₁', he₁, he₁', hbeforeUpdate⟩ := hready fault
  cases he.symm.trans he₁
  cases he'.symm.trans he₁'
  exact hbeforeUpdate.leavesNoGap

/-! ### Levels that change -/

/-- A level that is read once and corrected, and the correction. -/
def firstLevel : List DeploymentStep := [.write [65] [reading "level" 49 1]]

/-- The correction of a level leaves no gap. -/
theorem level_update_leaves_no_gap :
    SecondaryIndex.ofColumn readings "level" none = .ok readingsByLevel ∧
      ∃ d d' k k' e e', (Deployment.ofReadings readingsByLevel).run firstLevel = some d ∧
        d.step (.write [65] [reading "level" 50 2]) = some d' ∧
        KeptIndex.Shown d.environment [65] d.indexes "level" []
          (.update (reading "level" 49 1) (reading "level" 50 2)) k k' ∧
        ∀ fault, LeavesNoGap d.now e e' (reading "level" 50 2) (k.facing fault)
          (runFrom (update d.environment [65] (reading "level" 49 1) (reading "level" 50 2))
            (k.facing fault)).1
          (runFrom (update d.environment [65] (reading "level" 49 1) (reading "level" 50 2))
            (k.facing fault)).2 := by
  have hlevel : ((Deployment.ofReadings readingsByLevel).run firstLevel).map (fun d =>
      (d.now, d.base.changes d.now [65] [reading "level" 50 2],
        (d.step (.write [65] [reading "level" 50 2])).isSome)) =
      some (0, [.update (reading "level" 49 1) (reading "level" 50 2)], true) := by decide +kernel
  obtain ⟨d, hrun, hd⟩ := Option.map_eq_some_iff.1 hlevel
  obtain ⟨hnow, hchanges, hstep⟩ : _ ∧ _ ∧ _ := by simpa only [Prod.mk.injEq] using hd
  have hchanges : d.base.changes d.now [65] [reading "level" 50 2] =
      [] ++ .update (reading "level" 49 1) (reading "level" 50 2) :: [] := hchanges
  obtain ⟨d', hstep⟩ := Option.isSome_iff_exists.1 hstep
  have hadd : IndexSet.add {} readingsByLevel =
      .ok { members := [("level", .ofIndex readingsByLevel)] } := rfl
  have hnames : ∀ key mutation, .write key mutation ∈ firstLevel →
      ∀ c ∈ mutation, readings.HasName c.name := by
    intro key mutation hmem c hc
    cases List.mem_singleton.1 hmem
    cases List.mem_singleton.1 hc
    exact hasName_level
  obtain ⟨k, k', e, e', hshown, -, -, -, hgap⟩ :=
    update_leaves_no_gap readingsByLevel_ofColumn (.inl rfl) hadd 0 hnames hrun
      (fun c hc => by
        cases List.mem_singleton.1 hc
        exact hasName_level)
      hstep hchanges (by decide +kernel) rfl
  exact ⟨readingsByLevel_ofColumn, d, d', k, k', e, e', hrun, hstep, hshown, hgap⟩

/-- A level at hour 8 whose name ends in another byte than the layout writes. -/
def looseReading (value : UInt8) (timestamp : Int) : Cell :=
  .ofValue ((readingName "level").dropLast ++ [1]) [value] timestamp

/-- A level that is deleted, and another one under the loose name. -/
def looseLevels : List DeploymentStep :=
  [.write [65] [reading "level" 49 5], .write [65] [.tombstone (readingName "level") 6 0],
    .write [65] [looseReading 50 1]]

/-- **A gap.**  Both names have the same place in the index, which ignores their last byte.  The
mark that the deletion left there hides the new entry, and the old one is dropped. -/
theorem loose_update_leaves_gap :
    ∃ d d' e e' k', (Deployment.ofReadings readingsByLevel).run looseLevels = some d ∧
      d.step (.write [65] [looseReading 49 2]) = some d' ∧
      d.base.changes d.now [65] [looseReading 49 2] =
        [.update (looseReading 50 1) (looseReading 49 2)] ∧
      d'.base.liveCells d'.now [65] = [looseReading 49 2] ∧
      readingsByLevel.entry [65] (looseReading 50 1) = .ok e ∧
      readingsByLevel.entry [65] (looseReading 49 2) = .ok e' ∧
      d'.indexes.members.find? "level" = some k' ∧
      ¬ k'.store.Shows d'.now e ∧ ¬ k'.store.Shows d'.now e' := by
  have hgap : ((Deployment.ofReadings readingsByLevel).run looseLevels).bind (fun d =>
      (d.step (.write [65] [looseReading 49 2])).bind fun d' =>
        (d'.indexes.members.find? "level").map fun k' =>
          (d.base.changes d.now [65] [looseReading 49 2], d'.base.liveCells d'.now [65],
            k'.store.liveCells d'.now [49], k'.store.liveCells d'.now [50])) =
      some ([.update (looseReading 50 1) (looseReading 49 2)], [looseReading 49 2], [], []) := by
    decide +kernel
  obtain ⟨d, hrun, hd⟩ := Option.bind_eq_some_iff.1 hgap
  obtain ⟨d', hstep, hd'⟩ := Option.bind_eq_some_iff.1 hd
  obtain ⟨k', hk', hseen⟩ := Option.map_eq_some_iff.1 hd'
  obtain ⟨hchanges, hlive, hnew, hold⟩ : _ ∧ _ ∧ _ ∧ _ := by
    simpa only [Prod.mk.injEq] using hseen
  refine ⟨d, d', ⟨[50], [0, 1, 65, 0, 0, 1, 56, 0]⟩, ⟨[49], [0, 1, 65, 0, 0, 1, 56, 0]⟩, k', hrun,
    hstep, hchanges, hlive, by decide +kernel, by decide +kernel, hk', ?_, ?_⟩
  · rintro ⟨i, hi, -⟩
    rw [hold] at hi
    cases hi
  · rintro ⟨i, hi, -⟩
    rw [hnew] at hi
    cases hi

end WideColumn
