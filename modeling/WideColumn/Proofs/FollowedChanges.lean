import WideColumn.Index.Set
import WideColumn.Proofs.IndexEntries
import WideColumn.Proofs.Writes

/-!
# What an index does about a change

The work of an index that is not retired and that nothing disturbs, as changes of the look-ups in
its table.

* `runFrom_writeEntry` — an entry is written by one write, with what is noted of it;
* `writeInPlace` — what the recording and the removal of an entry have in common;
* `writeInPlace_ok`, `oldEntryGoes_ok` — the single steps, if they succeed;
* `Follows` and `follow_ok` — **everything that an index does about a change**: it records the
  new cell, and it marks the entry of the old one as deleted if that is another entry;
* `followCovered_ok`, `forAll_ok` — the same for one index among several;
* `runFrom_reload` — what an index does about a new schema of its base table.
-/

namespace WideColumn

open Effects

/-! ### An undisturbed index -/

namespace KeptIndex

/-- The index was not retired, nothing is planned for it, and its table is sound. -/
structure Healthy (k : KeptIndex) : Prop where
  state : k.state ≠ .invalidated
  undisturbed : k.disturbance = {}
  layers : k.store.layers.WellFormed

/-- The index is as healthy as before, with other look-ups in its table. -/
structure Became (k k' : KeptIndex) (w : Ledger) : Prop where
  healthy : k'.Healthy
  index : k'.index = k.index
  get? : k'.store.get? = w

theorem Healthy.became (h : k.Healthy) : Became k k k.store.get? := ⟨h, rfl, rfl⟩

theorem Became.trans {k k' k'' : KeptIndex} {w w' : Ledger} (h : Became k k' w)
    (h' : Became k' k'' w') : Became k k'' w' :=
  ⟨h'.healthy, h'.index.trans h.index, h'.get?⟩

variable {k k' : KeptIndex}

theorem Healthy.ofIndex (x : SecondaryIndex) : (ofIndex x).Healthy :=
  ⟨nofun, rfl, Layers.WellFormed.empty⟩

/-! ### One write -/

/-- The index was not retired, and will not be. -/
structure Lasting (k : KeptIndex) : Prop where
  state : k.state ≠ .invalidated
  retirement : k.disturbance.retirement = none

theorem Healthy.lasting (h : k.Healthy) : k.Lasting := ⟨h.state, by rw [h.undisturbed]⟩

theorem Lasting.disturb (h : k.Lasting) (kind : AccessKind) : k.disturb kind = k := by
  unfold KeptIndex.disturb
  rw [h.retirement]

/-- A look at the state, after what is planned for just before it. -/
theorem runFrom_isRetired (k : KeptIndex) : runFrom isRetired k =
    (.ok (decide ((k.disturb .check).state = .invalidated)), k.disturb .check) := rfl

theorem Lasting.isRetired (h : k.Lasting) : runFrom isRetired k = (.ok false, k) := by
  rw [runFrom_isRetired, h.disturb, decide_eq_false h.state]

/-- No error is looked away from. -/
theorem Lasting.unlessRetired (h : k.Lasting) (e : StorageError) :
    runFrom (unlessRetired e) k = (.error (.storage e), k) := by
  cases e with
  | invalidated id =>
    show runFrom (KeptIndex.isRetired >>= _) k = _
    rw [runFrom_bind, h.isRetired]
    rfl
  | _ => rfl

/-- A write that the index table accepts is one of its store. -/
theorem write_of_tableWrite {now : Int} {key : Bytes} {c : Cell} {store : TableStore}
    (h : k.tableWrite now key c = .ok store) : k.store.write now key [c] = .ok store := by
  unfold tableWrite at h
  split at h
  · cases h
  · exact h

/-- One write to the index table, and what is noted of it. -/
def attempt (k : KeptIndex) (now : Int) (key : Bytes) (c : Cell) :
    Except EngineError Unit × KeptIndex :=
  match k.tableWrite now key c with
  | .ok store => (.ok (), { k with store }.record (.write true key [c]))
  | .error e => (.error e, k.record (.write false key [c]))

theorem attempt_ok {now : Int} {key : Bytes} {c : Cell} {store : TableStore}
    (h : k.tableWrite now key c = .ok store) :
    k.attempt now key c = (.ok (), { k with store }.record (.write true key [c])) := by
  unfold attempt
  rw [h]

theorem attempt_error {now : Int} {key : Bytes} {c : Cell} {e : EngineError}
    (h : k.tableWrite now key c = .error e) :
    k.attempt now key c = (.error e, k.record (.write false key [c])) := by
  unfold attempt
  rw [h]

theorem Lasting.attempt (h : k.Lasting) (now : Int) (key : Bytes) (c : Cell) :
    (k.attempt now key c).2.Lasting := by
  unfold KeptIndex.attempt
  cases k.tableWrite now key c <;> exact ⟨h.state, h.retirement⟩

/-- An entry is written by one write. -/
theorem runFrom_writeEntry (h : k.Lasting) (now : Int) (e : IndexEntry) (c : Cell) :
    runFrom (writeEntry now e c) k = k.attempt now e.partitionKey c := by
  have htable : runFrom (writeTable now e.partitionKey c) k =
      k.attempt now e.partitionKey c := by
    unfold writeTable KeptIndex.attempt
    simp only [runFrom_bind, runFrom_modify, runFrom_get]
    rw [h.disturb]
    cases k.tableWrite now e.partitionKey c <;> rfl
  have hlasting := h.attempt now e.partitionKey c
  unfold writeEntry
  rw [runFrom_tryCatch, htable]
  rcases hrun : k.attempt now e.partitionKey c with ⟨error | u, k'⟩
  · rw [hrun] at hlasting
    cases error with
    | storage error => exact hlasting.unlessRetired error
    | _ => rfl
  · rfl

/-- What was written counts unless it is superseded. -/
theorem became_of_attempt (h : k.Healthy) {now : Int} {key : Bytes} {c : Cell}
    (hrun : k.attempt now key c = (.ok (), k')) : Became k k' (Ledger.put k.store.get? key c) := by
  cases hw : k.tableWrite now key c with
  | error error =>
    rw [attempt_error hw] at hrun
    cases hrun
  | ok store =>
    rw [attempt_ok hw] at hrun
    cases hrun
    obtain ⟨hwf, hget⟩ := TableStore.write_ok h.layers (write_of_tableWrite hw)
    exact ⟨⟨h.state, h.undisturbed, hwf⟩, rfl, hget⟩

/-! ### Entries -/

theorem runFrom_entryOf (k : KeptIndex) (key : Bytes) (c : Cell) :
    runFrom (entryOf key c) k = (k.index.entry key c, k) := by
  show runFrom (liftM (k.index.entry key c) : Upkeep IndexEntry) k = _
  cases k.index.entry key c <;> rfl

theorem entryOf_ok {key : Bytes} {c : Cell} {e : IndexEntry}
    (hrun : runFrom (entryOf key c) k = (.ok e, k')) : k.index.entry key c = .ok e ∧ k' = k := by
  rw [runFrom_entryOf] at hrun
  exact ⟨(Prod.ext_iff.1 hrun).1, (Prod.ext_iff.1 hrun).2.symm⟩

/-- The look-ups in an index table after the entry of a base cell was written. -/
def Records (x : SecondaryIndex) (key : Bytes) (c : Cell) (v w : Ledger) : Prop :=
  ∃ e, x.entry key c = .ok e ∧ w = v.put e.partitionKey (entryCell e c)

/-- The look-ups in an index table after the entry of a base cell was marked as deleted. -/
def Removes (x : SecondaryIndex) (now : Int) (key : Bytes) (c : Cell) (v w : Ledger) : Prop :=
  ∃ e, x.entry key c = .ok e ∧
    w = v.put e.partitionKey (.tombstone e.cellName c.timestamp now)

/-- Writes in the place of a live cell's entry.  `insert` and `delete` are such writes, and differ
only in the cell that is written. -/
def writeInPlace (env : Environment) (key : Bytes) (c : Cell) (written : IndexEntry → Cell) :
    Upkeep Unit := do
  if (← isRetired) || !c.isLive env.now then return
  let entry ← entryOf key c
  writeEntry env.now entry (written entry)

theorem insert_eq_writeInPlace (env : Environment) (key : Bytes) (c : Cell) :
    insert env key c = writeInPlace env key c (entryCell · c) := rfl

theorem delete_eq_writeInPlace (env : Environment) (key : Bytes) (c : Cell) :
    delete env key c =
      writeInPlace env key c (fun e => .tombstone e.cellName c.timestamp env.now) := rfl

/-- It is one write, if the cell has an entry. -/
theorem runFrom_writeInPlace (h : k.Lasting) {env : Environment} {key : Bytes} {c : Cell}
    (written : IndexEntry → Cell) (hlive : c.isLive env.now = true) :
    runFrom (writeInPlace env key c written) k =
      match k.index.entry key c with
      | .ok e => k.attempt env.now e.partitionKey (written e)
      | .error error => (.error error, k) := by
  unfold writeInPlace
  rw [runFrom_bind, h.isRetired]
  simp only [hlive, Bool.not_true, Bool.or_false, Bool.false_eq_true, if_false]
  rw [runFrom_bind, runFrom_entryOf]
  cases k.index.entry key c with
  | error error => rfl
  | ok e => exact runFrom_writeEntry h env.now e (written e)

/-- If it succeeds, the cell has an entry, and what was written there counts unless it is
superseded. -/
theorem writeInPlace_ok (h : k.Healthy) {env : Environment} {key : Bytes} {c : Cell}
    {written : IndexEntry → Cell}
    (hrun : runFrom (writeInPlace env key c written) k = (.ok (), k'))
    (hlive : c.isLive env.now = true) :
    ∃ e, k.index.entry key c = .ok e ∧
      Became k k' (Ledger.put k.store.get? e.partitionKey (written e)) := by
  rw [runFrom_writeInPlace h.lasting written hlive] at hrun
  cases he : k.index.entry key c with
  | error error =>
    rw [he] at hrun
    cases hrun
  | ok e =>
    rw [he] at hrun
    exact ⟨e, rfl, became_of_attempt h hrun⟩

/-- The entry of a live cell that is replaced by a live cell goes if the environment says so. -/
theorem oldEntryGoes_ok {env : Environment} {key : Bytes} {old new : Cell} {goes : Bool}
    (hrun : runFrom (oldEntryGoes env key old new) k = (.ok goes, k'))
    (hnew : new.isLive env.now = true) :
    k' = k ∧ ((old.isLive env.now = false ∧ goes = false) ∨
      (old.isLive env.now = true ∧ ∃ e e', k.index.entry key old = .ok e ∧
        k.index.entry key new = .ok e' ∧ goes = env.dropsOld e e')) := by
  unfold oldEntryGoes at hrun
  cases hold : old.isLive env.now with
  | false =>
    simp only [hold, Bool.not_false, if_true] at hrun
    cases hrun
    exact ⟨rfl, .inl ⟨rfl, rfl⟩⟩
  | true =>
    simp only [hold, hnew, Bool.not_true, Bool.false_eq_true, if_false] at hrun
    obtain ⟨e, k₁, hentry, hrest⟩ := bind_eq_ok.1 hrun
    obtain ⟨he, hk₁⟩ := entryOf_ok hentry
    obtain ⟨e', k₂, hentry', hgoes⟩ := bind_eq_ok.1 hrest
    obtain ⟨he', hk₂⟩ := entryOf_ok hentry'
    rw [hk₁] at he' hk₂
    cases hgoes
    exact ⟨hk₂, .inr ⟨rfl, e, e', he, he', rfl⟩⟩

/-! ### Changes -/

/-- The look-ups in an index table after the index followed a change at `now`.  The old entry
goes if the new cell has another one. -/
inductive Follows (x : SecondaryIndex) (now : Int) (key : Bytes) :
    Cell.Change → Ledger → Ledger → Prop
  /-- A cell where none was live. -/
  | inserted {new : Cell} {v w : Ledger} (hw : Records x key new v w) :
      Follows x now key (.insert new) v w
  | revived {old new : Cell} {v w : Ledger} (hold : old.isLive now = false)
      (hw : Records x key new v w) : Follows x now key (.update old new) v w
  /-- A cell in place of a live one with the same entry. -/
  | kept {old new : Cell} {v w : Ledger} {e : IndexEntry} (hold : old.isLive now = true)
      (he : x.entry key old = .ok e) (he' : x.entry key new = .ok e) (hw : Records x key new v w) :
      Follows x now key (.update old new) v w
  /-- A cell in place of a live one with another entry. -/
  | moved {old new : Cell} {v w w' : Ledger} {e e' : IndexEntry} (hold : old.isLive now = true)
      (he : x.entry key old = .ok e) (he' : x.entry key new = .ok e') (hne : e ≠ e')
      (hw : Records x key new v w) (hw' : Removes x now key old w w') :
      Follows x now key (.update old new) v w'
  | deleted {old : Cell} {v w : Ledger} (hw : Removes x now key old v w) :
      Follows x now key (.delete old) v w

/-- Does the change show a live cell, as those do that hooks are shown? -/
def ShowsLive (now : Int) (change : Cell.Change) : Prop := (subject change).isLive now = true

theorem showsLive_of_effect {c : Cell} {now : Int} {old : Option Cell} {change : Cell.Change}
    (h : c.effect now old = .visible change) : ShowsLive now change := by
  rcases Cell.visible_cases h with ⟨-, hlive, rfl⟩ | ⟨o, -, -, hlive, rfl⟩ |
    ⟨o, -, -, -, hlive, rfl⟩ <;>
    exact hlive

/-- **Everything that an index does about a change.** -/
theorem follow_ok (h : k.Healthy) {now : Int} {key : Bytes} {change : Cell.Change}
    (hshows : ShowsLive now change)
    (hrun : runFrom (follow ⟨now, dropsOldWhenMoved⟩ key change) k = (.ok (), k')) :
    ∃ w, Follows k.index now key change k.store.get? w ∧ Became k k' w := by
  cases change with
  | insert new =>
    have hrun : runFrom (insert ⟨now, dropsOldWhenMoved⟩ key new) k = (.ok (), k') := hrun
    rw [insert_eq_writeInPlace] at hrun
    obtain ⟨e, he, hbecame⟩ := writeInPlace_ok h hrun hshows
    exact ⟨_, .inserted ⟨e, he, rfl⟩, hbecame⟩
  | delete old =>
    have hrun : runFrom (delete ⟨now, dropsOldWhenMoved⟩ key old) k = (.ok (), k') := hrun
    rw [delete_eq_writeInPlace] at hrun
    obtain ⟨e, he, hbecame⟩ := writeInPlace_ok h hrun hshows
    exact ⟨_, .deleted ⟨e, he, rfl⟩, hbecame⟩
  | update old new =>
    have hrun : runFrom (update ⟨now, dropsOldWhenMoved⟩ key old new) k = (.ok (), k') := hrun
    unfold update at hrun
    rw [runFrom_bind, h.lasting.isRetired] at hrun
    simp only [Bool.false_eq_true, if_false] at hrun
    obtain ⟨⟨⟩, k₁, hinsert, hrest⟩ := bind_eq_ok.1 hrun
    rw [insert_eq_writeInPlace] at hinsert
    obtain ⟨e₁, he₁, hbecame⟩ := writeInPlace_ok h hinsert hshows
    have hw : Records k.index key new k.store.get? _ := ⟨e₁, he₁, rfl⟩
    obtain ⟨goes, k₂, hgoes, hdelete⟩ := bind_eq_ok.1 hrest
    obtain ⟨hk₂, hgoes⟩ := oldEntryGoes_ok hgoes hshows
    rw [hk₂] at hdelete
    rw [hbecame.index] at hgoes
    rcases hgoes with ⟨hold, rfl⟩ | ⟨hold, e, e', he, he', rfl⟩
    · cases hdelete
      exact ⟨_, .revived hold hw, hbecame⟩
    · by_cases heq : e = e'
      · subst heq
        simp only [dropsOldWhenMoved, ne_eq, not_true, decide_false, Bool.false_eq_true,
          if_false] at hdelete
        cases hdelete
        exact ⟨_, .kept hold he he' hw, hbecame⟩
      · simp only [dropsOldWhenMoved, ne_eq, heq, not_false_eq_true, decide_true,
          if_true] at hdelete
        rw [delete_eq_writeInPlace] at hdelete
        obtain ⟨e₂, he₂, hbecame'⟩ := writeInPlace_ok hbecame.healthy hdelete hold
        rw [hbecame.index] at he₂
        rw [hbecame.get?] at hbecame'
        exact ⟨_, .moved hold he he' heq hw ⟨e₂, he₂, rfl⟩, hbecame.trans hbecame'⟩

theorem runFrom_followCovered (k : KeptIndex) (env : Environment) (key : Bytes)
    (change : Cell.Change) :
    runFrom (IndexSet.followCovered env key change) k =
      if k.index.covers (subject change) then runFrom (follow env key change) k
      else (.ok (), k) := by
  unfold IndexSet.followCovered
  rw [runFrom_bind, runFrom_get]
  cases hc : k.index.covers (subject change)
  · simp only [hc]
    rfl
  · simp only [hc, if_true]

/-- An index follows the changes of the cells that it covers. -/
theorem followCovered_ok (h : k.Healthy) {now : Int} {key : Bytes} {change : Cell.Change}
    (hshows : ShowsLive now change)
    (hrun : runFrom (IndexSet.followCovered ⟨now, dropsOldWhenMoved⟩ key change) k =
      (.ok (), k')) :
    (k.index.covers (subject change) = true ∧
      ∃ w, Follows k.index now key change k.store.get? w ∧ Became k k' w) ∨
    (k.index.covers (subject change) = false ∧ Became k k' k.store.get?) := by
  rw [runFrom_followCovered] at hrun
  cases hc : k.index.covers (subject change) with
  | true =>
    rw [hc, if_pos rfl] at hrun
    exact .inl ⟨rfl, follow_ok h hshows hrun⟩
  | false =>
    rw [hc, if_neg Bool.false_ne_true] at hrun
    cases hrun
    exact .inr ⟨rfl, h.became⟩

/-- A truncation drops the entries that are not new enough. -/
theorem truncate_ok (h : k.Healthy) {timestamp : Int}
    (hrun : runFrom (truncate timestamp) k = (.ok (), k')) :
    Became k k' (Ledger.discard k.store.get? timestamp) := by
  unfold truncate at hrun
  rw [runFrom_bind, h.lasting.isRetired] at hrun
  simp only [Bool.false_eq_true, if_false] at hrun
  rw [runFrom_bind, runFrom_modify, h.lasting.disturb] at hrun
  simp only at hrun
  rw [runFrom_bind, runFrom_get] at hrun
  simp only at hrun
  rcases TableStore.discard_cases h.layers timestamp with ⟨e, -, hd⟩ | ⟨-, s', hd, hs⟩
  · rw [hd] at hrun
    have hno := h.lasting.unlessRetired e
    simp only [hno] at hrun
    cases hrun
  · rw [hd] at hrun
    cases hrun
    exact ⟨⟨h.state, h.undisturbed, hs.layers⟩, rfl, hs.get?⟩

/-! ### New schemas of the base table -/

/-- Takes a new index, and its schema for the table if that is another one. -/
def takeIndex (k : KeptIndex) (x : SecondaryIndex) : KeptIndex :=
  if x.indexSchema.version != k.index.indexSchema.version then
    { k with index := x, store := { k.store with schema := x.indexSchema } }.record .reload
  else { k with index := x }

/-- The new index takes the table of the old one, whose schema stays only if the versions do not
tell the schemas apart. -/
theorem takeIndex_cases (k : KeptIndex) (x : SecondaryIndex) :
    (x.indexSchema.version = k.index.indexSchema.version ∧
        k.takeIndex x = { k with index := x }) ∨
      k.takeIndex x =
        { k with index := x, store := { k.store with schema := x.indexSchema } }.record .reload := by
  unfold takeIndex
  by_cases hversion : x.indexSchema.version = k.index.indexSchema.version
  · exact .inl ⟨hversion, if_neg (by simp [hversion])⟩
  · exact .inr (if_pos (by simp [hversion]))

/-- **A reload in full**, after what is planned for just before it: an index that is not retired
takes the one that is made anew, if that can be made. -/
theorem runFrom_reload (base : TableSchema) (k : KeptIndex) :
    runFrom (reload base) k =
      if (k.disturb .check).state = .invalidated then
        (.error (.index (.invalidated (k.disturb .check).store.id)), k.disturb .check)
      else match (k.disturb .check).index.rebased base with
        | .error e => (.error e, k.disturb .check)
        | .ok x => (.ok (x.indexSchema.version != (k.disturb .check).index.indexSchema.version),
            (k.disturb .check).takeIndex x) := by
  unfold reload
  simp only [runFrom_bind, runFrom_isRetired]
  by_cases hretired : (k.disturb .check).state = .invalidated
  · rw [decide_eq_true hretired, if_pos hretired]
    rfl
  · rw [decide_eq_false hretired, if_neg hretired]
    simp only [Bool.false_eq_true, if_false, runFrom_bind, runFrom_get]
    cases (k.disturb .check).index.rebased base with
    | error e => rfl
    | ok x =>
      have hmade : runFrom (liftM (.ok x : Except EngineError SecondaryIndex) : Upkeep _)
          (k.disturb .check) = (.ok x, k.disturb .check) := rfl
      simp only [hmade]
      unfold takeIndex
      split
      · rfl
      · rfl

end KeptIndex

/-! ### One index among several -/

namespace IndexSet

open KeptIndex

/-- An index that was added records nothing yet. -/
theorem find?_of_add {s s' : IndexSet} {x : SecondaryIndex} (h : s.add x = .ok s') :
    s'.members.find? x.column = some (ofIndex x) := by
  unfold add at h
  split at h
  · cases h
  · cases h
    simp [Bindings.find?_insert]

/-- Work that succeeds on all indexes succeeds on each of them. -/
theorem performAll_ok {α : Type} {work : Upkeep α} {members members' : Bindings String KeptIndex}
    {results : List (String × α)} {journal : IndexJournal} {column : String} {k : KeptIndex}
    (hk : members.find? column = some k)
    (hrun : performAll work members = (.ok results, members', journal)) :
    ∃ a k', runFrom work { k with journal := [] } = (.ok a, k') ∧
      members'.find? column = some { k' with journal := [] } := by
  induction members generalizing members' results journal with
  | nil => cases hk
  | cons head rest ih =>
    obtain ⟨c, m⟩ := head
    unfold performAll KeptIndex.perform at hrun
    simp only [run_eq_runFrom] at hrun
    rcases hm : runFrom work { m with journal := [] } with ⟨e | a, m'⟩
    · simp only [hm] at hrun
      cases hrun
    · simp only [hm] at hrun
      rcases hrest : performAll work rest with ⟨e | results', rest', more⟩
      · simp only [hrest] at hrun
        cases hrun
      · simp only [hrest] at hrun
        cases hrun
        by_cases hc : column = c
        · subst hc
          rw [Bindings.find?_cons_self] at hk
          cases hk
          exact ⟨a, m', hm, Bindings.find?_cons_self _ _ _⟩
        · rw [Bindings.find?_cons_ne hc] at hk
          rw [Bindings.find?_cons_ne hc]
          exact ih hk hrest

theorem forAll_ok {α : Type} {s s' : IndexSet} {work : Upkeep α} {results : List (String × α)}
    {column : String} {k : KeptIndex} (hk : s.members.find? column = some k)
    (hrun : s.forAll work = (.ok results, s')) :
    ∃ a k', runFrom work { k with journal := [] } = (.ok a, k') ∧
      s'.members.find? column = some { k' with journal := [] } := by
  unfold forAll at hrun
  rcases hall : performAll work s.members with ⟨results', members, journal⟩
  simp only [hall] at hrun
  cases hrun
  exact performAll_ok hk hall

end IndexSet

namespace KeptIndex

variable {k k' : KeptIndex}

theorem Healthy.clear (h : k.Healthy) : Healthy { k with journal := [] } :=
  ⟨h.state, h.undisturbed, h.layers⟩

theorem Became.clear {w : Ledger} (h : Became { k with journal := [] } k' w) :
    Became k { k' with journal := [] } w :=
  ⟨h.healthy.clear, h.index, h.get?⟩

end KeptIndex

namespace IndexSet

open KeptIndex

/-- The hook shows the change to all indexes. -/
theorem runFrom_hook (env : Environment) (key : Bytes) (change : Cell.Change) (s : IndexSet) :
    runFrom (hook env key change) s =
      ((s.forAll (followCovered env key change)).1.map fun _ => (),
        (s.forAll (followCovered env key change)).2) := rfl

/-- A hook that succeeds has shown the change to each of the indexes. -/
theorem hook_member {s s' : IndexSet} {column : String} {k : KeptIndex} {env : Environment}
    {key : Bytes} {change : Cell.Change} (hk : s.members.find? column = some k)
    (hrun : runFrom (hook env key change) s = (.ok (), s')) :
    ∃ k', runFrom (followCovered env key change) { k with journal := [] } = (.ok (), k') ∧
      s'.members.find? column = some { k' with journal := [] } := by
  rw [runFrom_hook] at hrun
  rcases hall : s.forAll (followCovered env key change) with ⟨e | results, s₁⟩
  · rw [hall] at hrun
    cases hrun
  · rw [hall] at hrun
    cases hrun
    obtain ⟨⟨⟩, k', hwork, hk'⟩ := forAll_ok hk hall
    exact ⟨k', hwork, hk'⟩

/-- **What an index does when the hook of its set succeeds.** -/
theorem hook_ok {s s' : IndexSet} {column : String} {k : KeptIndex} {now : Int} {key : Bytes}
    {change : Cell.Change} (hk : s.members.find? column = some k) (h : k.Healthy)
    (hshows : ShowsLive now change)
    (hrun : runFrom (hook ⟨now, dropsOldWhenMoved⟩ key change) s = (.ok (), s')) :
    ∃ k', s'.members.find? column = some k' ∧
      ((k.index.covers (subject change) = true ∧
        ∃ w, Follows k.index now key change k.store.get? w ∧ Became k k' w) ∨
      (k.index.covers (subject change) = false ∧ Became k k' k.store.get?)) := by
  obtain ⟨k', hwork, hk'⟩ := hook_member hk hrun
  refine ⟨_, hk', ?_⟩
  rcases followCovered_ok h.clear hshows hwork with ⟨hc, w, hw, hbecame⟩ | ⟨hc, hbecame⟩
  · exact .inl ⟨hc, w, hw, hbecame.clear⟩
  · exact .inr ⟨hc, hbecame.clear⟩

/-- What a truncation of all indexes does to one of them. -/
theorem truncateAll_ok {s s' : IndexSet} {column : String} {k : KeptIndex} {timestamp : Int}
    (hk : s.members.find? column = some k) (h : k.Healthy)
    (hrun : s.truncateAll timestamp = (.ok (), s')) :
    ∃ k', s'.members.find? column = some k' ∧
      Became k k' (Ledger.discard k.store.get? timestamp) := by
  unfold truncateAll at hrun
  rcases hall : s.forAll (KeptIndex.truncate timestamp) with ⟨r, s₁⟩
  simp only [hall] at hrun
  cases r with
  | error e => cases hrun
  | ok results =>
    cases hrun
    obtain ⟨⟨⟩, k', hwork, hk'⟩ := forAll_ok hk hall
    exact ⟨_, hk', (truncate_ok h.clear hwork).clear⟩

end IndexSet

end WideColumn
