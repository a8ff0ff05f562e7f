import WideColumn.Proofs.ValueIndexes

/-!
# Entries that several cells share

An index on a key column has one entry for all cells of a row, and an index on the value of a
dense table with simple names has one for all rows of a partition with that value.  The entry is
written for each of these cells and marked as deleted for each of them, at that cell's time.  So a
deletion of one cell can hide the entry while others are live.

This file says exactly when, for writes at one time:

* `RemovedAt` — the cells whose removal marked an entry as deleted, read off the history;
* `SharedEntries` — the invariant: an entry's cell is as new as all that was recorded and removed
  there, and it owes its time to one of them;
* `SharedEntries.replace` — **one cell in place of another**, whatever the change;
* `SharedEntries.isLive_iff` — **an entry is live if and only if one of its live cells is newer
  than every cell that was removed there**;
* `EntriesAgree` and `entriesAgree_of_run` — the same as readers see it, after every run.
-/

namespace WideColumn

open KeptIndex

/-! ### What was removed -/

/-- A change that removes a live cell from an entry: the cell is not live any more, or the cell in
its place has another entry. -/
def Unrecords (x : SecondaryIndex) (now : Int) (key : Bytes) (change : Cell.Change)
    (e : IndexEntry) (r : Cell) : Prop :=
  x.covers r = true ∧ x.entry key r = .ok e ∧
    (change = .delete r ∨
      ∃ new, change = .update r new ∧ r.isLive now = true ∧ x.entry key new ≠ .ok e)

/-- One of the changes removed a cell from an entry. -/
def RemovedAt (x : SecondaryIndex) (now : Int) (history : List HookCall) (e : IndexEntry)
    (r : Cell) : Prop :=
  ∃ key change, (key, change) ∈ history ∧ Unrecords x now key change e r

theorem removedAt_snoc {x : SecondaryIndex} {now : Int} {history : List HookCall} {key : Bytes}
    {change : Cell.Change} {e : IndexEntry} {r : Cell} :
    RemovedAt x now (history ++ [(key, change)]) e r ↔
      RemovedAt x now history e r ∨ Unrecords x now key change e r := by
  constructor
  · rintro ⟨k, ch, hmem, hr⟩
    rcases List.mem_append.1 hmem with hmem | hmem
    · exact .inl ⟨k, ch, hmem, hr⟩
    · cases List.mem_singleton.1 hmem
      exact .inr hr
  · rintro (⟨k, ch, hmem, hr⟩ | hr)
    · exact ⟨k, ch, List.mem_append_left _ hmem, hr⟩
    · exact ⟨key, change, List.mem_append_right _ (List.mem_singleton_self _), hr⟩

/-! ### Cells that hide entries -/

/-- No live cell of that time can take the place of the cell. -/
def Cell.Shadows (i : Cell) (timestamp : Int) : Prop :=
  timestamp < i.timestamp ∨ timestamp = i.timestamp ∧ i.isTombstone = true

/-- The cell takes the other one's place or is that cell. -/
def Cell.Succeeds (i' i : Cell) : Prop := i' = i ∨ i'.supersedes i = true

theorem Cell.Succeeds.le {i i' : Cell} (h : i'.Succeeds i) : i.timestamp ≤ i'.timestamp := by
  rcases h with rfl | h
  · exact Int.le_refl _
  · exact timestamp_le_of_supersedes h

theorem Cell.Succeeds.trans {i i' i'' : Cell} (h' : i''.Succeeds i') (h : i'.Succeeds i) :
    i''.Succeeds i := by
  rcases h' with rfl | h'
  · exact h
  · rcases h with rfl | h
    · exact .inr h'
    · exact .inr (supersedes_trans h' h)

theorem Cell.Succeeds.shadows {i i' : Cell} (h : i'.Succeeds i) {timestamp : Int}
    (hs : i.Shadows timestamp) : i'.Shadows timestamp := by
  rcases h with rfl | h
  · exact hs
  · rcases supersedes_iff.1 h with hlt | ⟨heq, ⟨htomb, _⟩ | ⟨hsame, _⟩⟩
    · rcases hs with hs | ⟨hs, _⟩ <;> exact .inl (by omega)
    · rcases hs with hs | ⟨hs, _⟩
      · exact .inl (by omega)
      · exact .inr ⟨by omega, htomb⟩
    · rcases hs with hs | ⟨hs, hi⟩
      · exact .inl (by omega)
      · exact .inr ⟨by omega, hsame ▸ hi⟩

namespace Ledger

/-- No cell was lost other than to one that takes its place. -/
def Grows (w w' : Ledger) : Prop :=
  ∀ value p i, w value p = some i → ∃ i', w' value p = some i' ∧ i'.Succeeds i

theorem Grows.trans {w w' w'' : Ledger} (h : w.Grows w') (h' : w'.Grows w'') : w.Grows w'' := by
  intro value p i hi
  obtain ⟨i', hi', hs⟩ := h value p i hi
  obtain ⟨i'', hi'', hs'⟩ := h' value p i' hi'
  exact ⟨i'', hi'', hs'.trans hs⟩

theorem grows_put (w : Ledger) (value : Bytes) (n : Cell) : w.Grows (w.put value n) := by
  intro k p i hi
  by_cases hk : k = value ∧ p = n.name
  · obtain ⟨rfl, rfl⟩ := hk
    rw [put_self, hi]
    cases hs : n.supersedes i
    · exact ⟨i, by simp [Layers.reconcile, hs], .inl rfl⟩
    · exact ⟨n, by simp [Layers.reconcile, hs], .inr hs⟩
  · exact ⟨i, (put_of_ne w hk).trans hi, .inl rfl⟩

end Ledger

/-! ### The invariant -/

/-- The cell of an entry in look-ups. -/
def Ledger.at (w : Ledger) (e : IndexEntry) : Option Cell := w e.partitionKey e.cellName

/-- What is at an entry after a cell was written was there before or is that cell. -/
theorem Ledger.at_of_put {w : Ledger} {e e' : IndexEntry} {n i : Cell}
    (hname : n.name = e'.cellName) (h : Ledger.at (w.put e'.partitionKey n) e = some i) :
    w.at e = some i ∨ (i = n ∧ e = e') := by
  rcases of_put h with ⟨hkey, hcell, hi⟩ | ⟨hi, -⟩
  · obtain ⟨value, p⟩ := e
    obtain ⟨value', p'⟩ := e'
    exact .inr ⟨hi, by rw [IndexEntry.mk.injEq]; exact ⟨hkey, hcell.trans hname⟩⟩
  · exact .inl hi

/-- A live cell of the base table that an entry records. -/
def LiveAt (x : SecondaryIndex) (now : Int) (v : Ledger) (e : IndexEntry) (b : Cell) : Prop :=
  ∃ key name, v key name = some b ∧ x.covers b = true ∧ b.isLive now = true ∧ x.entry key b = .ok e

namespace LiveAt

variable {x : SecondaryIndex} {now : Int} {v : Ledger} {e : IndexEntry} {key : Bytes} {b c : Cell}

theorem self (hcov : x.covers c = true) (hlive : c.isLive now = true)
    (he : x.entry key c = .ok e) : LiveAt x now (v.set key c) e c :=
  ⟨key, c.name, Ledger.set_self v key c, hcov, hlive, he⟩

/-- A live cell after one was replaced is the new one, or it was live before. -/
theorem of_set (h : LiveAt x now (v.set key c) e b) :
    (b = c ∧ x.entry key c = .ok e) ∨ LiveAt x now v e b := by
  obtain ⟨k, name, hb, hcov, hlive, he⟩ := h
  unfold Ledger.set at hb
  split at hb
  · rename_i hk
    cases hb
    exact .inl ⟨rfl, hk.1 ▸ he⟩
  · exact .inr ⟨k, name, hb, hcov, hlive, he⟩

/-- A live cell stays when one is replaced, unless it is the one. -/
theorem set (h : LiveAt x now v e b) (c : Cell) (key : Bytes) :
    LiveAt x now (v.set key c) e b ∨
      (v key c.name = some b ∧ x.covers b = true ∧ b.isLive now = true ∧ x.entry key b = .ok e) := by
  obtain ⟨k, name, hb, hcov, hlive, he⟩ := h
  by_cases hk : k = key ∧ name = c.name
  · obtain ⟨rfl, rfl⟩ := hk
    exact .inr ⟨hb, hcov, hlive, he⟩
  · exact .inl ⟨k, name, (Ledger.set_of_ne v hk).trans hb, hcov, hlive, he⟩

end LiveAt

/-- The cell of each entry is as new as all that was recorded and removed there, and owes its time
to one of these. -/
structure SharedEntries (x : SecondaryIndex) (now : Int) (v : Ledger) (history : List HookCall)
    (w : Ledger) : Prop where
  entries : ∀ key name b, v key name = some b → x.covers b = true → b.isLive now = true →
    ∃ e, x.entry key b = .ok e
  recorded : ∀ e b, LiveAt x now v e b → ∃ i, w.at e = some i ∧ b.timestamp ≤ i.timestamp
  removed : ∀ e r, RemovedAt x now history e r → ∃ i, w.at e = some i ∧ i.Shadows r.timestamp
  live : ∀ e i, w.at e = some i → i.isTombstone = false →
    i.isLive now = true ∧ ∃ b, LiveAt x now v e b ∧ b.timestamp = i.timestamp
  dead : ∀ e i, w.at e = some i → i.isTombstone = true →
    ∃ r, RemovedAt x now history e r ∧ r.timestamp = i.timestamp

namespace SharedEntries

variable {x : SecondaryIndex} {now : Int} {v w w' : Ledger} {history : List HookCall}

theorem empty : SharedEntries x now (fun _ _ => none) [] (fun _ _ => none) where
  entries := fun _ _ _ h => by cases h
  recorded := fun _ _ ⟨_, _, h, _⟩ => by cases h
  removed := fun _ _ ⟨_, _, h, _⟩ => by cases h
  live := fun _ _ h => by cases h
  dead := fun _ _ h => by cases h

/-- **When an entry is live**: one of its live cells is newer than every cell that was removed
there. -/
theorem isLive_iff (h : SharedEntries x now v history w) (e : IndexEntry) :
    (∃ i, w.at e = some i ∧ i.isLive now = true) ↔
      ∃ b, LiveAt x now v e b ∧ ∀ r, RemovedAt x now history e r → r.timestamp < b.timestamp := by
  constructor
  · rintro ⟨i, hi, hlive⟩
    have htomb := Cell.isTombstone_of_isLive hlive
    obtain ⟨-, b, hb, htime⟩ := h.live e i hi htomb
    refine ⟨b, hb, fun r hr => ?_⟩
    obtain ⟨i', hi', hs⟩ := h.removed e r hr
    cases hi.symm.trans hi'
    rcases hs with hs | ⟨-, hs⟩
    · omega
    · rw [htomb] at hs
      cases hs
  · rintro ⟨b, hb, hnewer⟩
    obtain ⟨i, hi, hle⟩ := h.recorded e b hb
    refine ⟨i, hi, ?_⟩
    cases htomb : i.isTombstone
    · exact (h.live e i hi htomb).1
    · obtain ⟨r, hr, htime⟩ := h.dead e i hi htomb
      have hlt := hnewer r hr
      omega

/-! ### Changes -/

variable {key : Bytes} {c : Cell}

/-- What the table of an index is like after a cell took its place in the base table. -/
structure Replaces (x : SecondaryIndex) (now : Int) (v : Ledger) (key : Bytes) (c : Cell)
    (change : Cell.Change) (w w' : Ledger) : Prop where
  grows : w.Grows w'
  /-- What is at an entry was there before, records the new cell or marks a removal. -/
  accounted : ∀ e i, w'.at e = some i → w.at e = some i ∨
    (i = entryCell e c ∧ c.isLive now = true ∧ x.entry key c = .ok e) ∨
    (i.isTombstone = true ∧ ∃ r, Unrecords x now key change e r ∧ r.timestamp = i.timestamp)
  records : c.isLive now = true →
    ∃ e i, x.entry key c = .ok e ∧ w'.at e = some i ∧ c.timestamp ≤ i.timestamp
  removes : ∀ e r, Unrecords x now key change e r → ∃ i, w'.at e = some i ∧ i.Shadows r.timestamp
  /-- A live cell that is replaced leaves its entry to the new cell or is removed from it. -/
  leaves : ∀ o e, v key c.name = some o → o.isLive now = true → x.entry key o = .ok e →
    (c.isLive now = true ∧ x.entry key c = .ok e ∧ o.timestamp ≤ c.timestamp) ∨
      Unrecords x now key change e o

/-- An entry that owes its time to a live cell owes it to a live cell afterwards. -/
theorem Replaces.owner {change : Cell.Change} (hr : Replaces x now v key c change w w')
    (hcov : x.covers c = true) {e : IndexEntry} {i b : Cell} (hi : w'.at e = some i)
    (htomb : i.isTombstone = false) (hb : LiveAt x now v e b) (htime : b.timestamp = i.timestamp) :
    ∃ b', LiveAt x now (v.set key c) e b' ∧ b'.timestamp = i.timestamp := by
  rcases hb.set c key with hb | ⟨hb, -, hblive, he⟩
  · exact ⟨b, hb, htime⟩
  · rcases hr.leaves b e hb hblive he with ⟨hclive, hce, hle⟩ | hunrec
    · refine ⟨c, .self hcov hclive hce, ?_⟩
      obtain ⟨e', i', he', hi', hle'⟩ := hr.records hclive
      cases hce.symm.trans he'
      cases hi.symm.trans hi'
      omega
    · obtain ⟨i', hi', hs⟩ := hr.removes e b hunrec
      cases hi.symm.trans hi'
      rcases hs with hs | ⟨-, hs⟩
      · omega
      · rw [htomb] at hs
        cases hs

/-- **One cell in place of another** keeps the invariant. -/
theorem replace (h : SharedEntries x now v history w) (hcov : x.covers c = true)
    {change : Cell.Change} (hr : Replaces x now v key c change w w') :
    SharedEntries x now (v.set key c) (history ++ [(key, change)]) w' where
  entries := fun k name b hb hbcov hblive => by
    unfold Ledger.set at hb
    split at hb
    · rename_i hk
      cases hb
      obtain ⟨e, -, he, -⟩ := hr.records hblive
      exact ⟨e, hk.1 ▸ he⟩
    · exact h.entries k name b hb hbcov hblive
  recorded := fun e b hb => by
    rcases hb.of_set with ⟨rfl, he⟩ | hb'
    · obtain ⟨_, _, -, -, hblive, -⟩ := hb
      obtain ⟨e', i, he', hi, hle⟩ := hr.records hblive
      cases he.symm.trans he'
      exact ⟨i, hi, hle⟩
    · obtain ⟨i, hi, hle⟩ := h.recorded e b hb'
      obtain ⟨i', hi', hs⟩ := hr.grows _ _ i hi
      exact ⟨i', hi', Int.le_trans hle hs.le⟩
  removed := fun e r hrem => by
    rcases removedAt_snoc.1 hrem with hrem | hrem
    · obtain ⟨i, hi, hshadows⟩ := h.removed e r hrem
      obtain ⟨i', hi', hs⟩ := hr.grows _ _ i hi
      exact ⟨i', hi', hs.shadows hshadows⟩
    · exact hr.removes e r hrem
  live := fun e i hi htomb => by
    rcases hr.accounted e i hi with hwi | ⟨rfl, hclive, he⟩ | ⟨hdead, -⟩
    · obtain ⟨hilive, b, hb, htime⟩ := h.live e i hwi htomb
      exact ⟨hilive, hr.owner hcov hi htomb hb htime⟩
    · exact ⟨mirror_isLive (p := e.cellName) hclive, c, .self hcov hclive he, rfl⟩
    · rw [htomb] at hdead
      cases hdead
  dead := fun e i hi htomb => by
    rcases hr.accounted e i hi with hi | ⟨rfl, hclive, -⟩ | ⟨-, r, hrem, htime⟩
    · obtain ⟨r, hrem, htime⟩ := h.dead e i hi htomb
      exact ⟨r, removedAt_snoc.2 (.inl hrem), htime⟩
    · have hlive := mirror_isLive (p := e.cellName) hclive
      rw [Cell.isTombstone_of_isLive (c := entryCell e c) hlive] at htomb
      cases htomb
    · exact ⟨r, removedAt_snoc.2 (.inr hrem), htime⟩

/-- What the record of a cell does to the entries. -/
theorem of_records (hw : Records x key c w w') :
    w.Grows w' ∧
      (∀ e i, w'.at e = some i →
        w.at e = some i ∨ (i = entryCell e c ∧ x.entry key c = .ok e)) ∧
      ∃ e i, x.entry key c = .ok e ∧ w'.at e = some i ∧ c.timestamp ≤ i.timestamp := by
  obtain ⟨e, he, rfl⟩ := hw
  refine ⟨w.grows_put _ _, fun e' i hi => ?_, ?_⟩
  · rcases Ledger.at_of_put rfl hi with hi | ⟨rfl, rfl⟩
    · exact .inl hi
    · exact .inr ⟨rfl, he⟩
  · obtain ⟨i, hi, hs⟩ := w.reaches_put_self e.partitionKey (entryCell e c)
    exact ⟨e, i, he, hi, Cell.timestamp_le_of_not_supersedes (c := entryCell e c) hs⟩

/-- What the mark of a removal does to the entries. -/
theorem of_removes {o : Cell} (hw : Removes x now key o w w') :
    w.Grows w' ∧
      (∀ e i, w'.at e = some i → w.at e = some i ∨
        (i = .tombstone e.cellName o.timestamp now ∧ x.entry key o = .ok e)) ∧
      ∃ e i, x.entry key o = .ok e ∧ w'.at e = some i ∧ i.Shadows o.timestamp := by
  obtain ⟨e, he, rfl⟩ := hw
  refine ⟨w.grows_put _ _, fun e' i hi => ?_, ?_⟩
  · rcases Ledger.at_of_put rfl hi with hi | ⟨rfl, rfl⟩
    · exact .inl hi
    · exact .inr ⟨rfl, he⟩
  · obtain ⟨i, hi, hs⟩ :=
      w.reaches_put_self e.partitionKey (.tombstone e.cellName o.timestamp now)
    refine ⟨e, i, he, hi, ?_⟩
    have hle := Cell.timestamp_le_of_not_supersedes hs
    by_cases hlt : o.timestamp < i.timestamp
    · exact .inl hlt
    · have heq : o.timestamp = i.timestamp := by
        simp only [Cell.tombstone] at hle
        omega
      refine .inr ⟨heq, ?_⟩
      cases htomb : i.isTombstone
      · have hyes : (Cell.tombstone e.cellName o.timestamp now).supersedes i = true :=
          Cell.supersedes_iff.2 (.inr ⟨heq, .inl ⟨rfl, htomb⟩⟩)
        rw [hyes] at hs
        cases hs
      · rfl

/-- The cell that a change takes away, as the history has it, was there before. -/
theorem of_unrecords {change : Cell.Change} (heff : c.effect now (v key c.name) = .visible change)
    {e : IndexEntry} {r : Cell} (hr : Unrecords x now key change e r) :
    v key c.name = some r ∧
      (change = .update r c ∧ r.isLive now = true ∧ x.entry key c ≠ .ok e ∨ change = .delete r) := by
  obtain ⟨-, -, hchange⟩ := hr
  rcases Cell.visible_cases heff with ⟨-, -, rfl⟩ | ⟨o, ho, -, -, rfl⟩ | ⟨o, ho, -, -, -, rfl⟩
  · rcases hchange with hchange | ⟨_, hchange, -⟩ <;> cases hchange
  · rcases hchange with hchange | ⟨_, hchange, hlive, hne⟩
    · cases hchange
    · cases hchange
      exact ⟨ho, .inl ⟨rfl, hlive, hne⟩⟩
  · rcases hchange with hchange | ⟨_, hchange, -⟩
    · cases hchange
      exact ⟨ho, .inr rfl⟩
    · cases hchange

/-- A cell that is not covered or not live, in place of another such cell. -/
theorem unseen (h : SharedEntries x now v history w)
    (hnew : x.covers c = true → c.isLive now = false)
    (hold : ∀ o, v key c.name = some o → x.covers o = true → o.isLive now = false) :
    SharedEntries x now (v.set key c) history w where
  entries := fun k name b hb hbcov hblive => by
    unfold Ledger.set at hb
    split at hb
    · cases hb
      rw [hnew hbcov] at hblive
      cases hblive
    · exact h.entries k name b hb hbcov hblive
  recorded := fun e b hb => by
    rcases hb.of_set with ⟨rfl, -⟩ | hb'
    · obtain ⟨_, _, -, hbcov, hblive, -⟩ := hb
      rw [hnew hbcov] at hblive
      cases hblive
    · exact h.recorded e b hb'
  removed := h.removed
  live := fun e i hi htomb => by
    obtain ⟨hilive, b, hb, htime⟩ := h.live e i hi htomb
    rcases hb.set c key with hb | ⟨hb, hbcov, hblive, -⟩
    · exact ⟨hilive, b, hb, htime⟩
    · rw [hold b hb hbcov] at hblive
      cases hblive
  dead := h.dead

/-- A change at a cell that the index does not cover is none of its business. -/
theorem uncovered (h : SharedEntries x now v history w) (hv : v.Named x.base)
    (hcov : x.covers c = false) {change : Cell.Change}
    (heff : c.effect now (v key c.name) = .visible change) :
    SharedEntries x now (v.set key c) (history ++ [(key, change)]) w := by
  have hname : ∀ o, v key c.name = some o → x.covers o = false := fun o ho =>
    (x.covers_congr (hv key c.name o ho).1).trans hcov
  have hhistory : ∀ e r, RemovedAt x now (history ++ [(key, change)]) e r ↔
      RemovedAt x now history e r := by
    intro e r
    rw [removedAt_snoc]
    refine or_iff_left fun hr => ?_
    have hcovers := hr.1
    rw [hname r (of_unrecords heff hr).1] at hcovers
    cases hcovers
  have hset : SharedEntries x now (v.set key c) history w := h.unseen
    (fun hc => by rw [hcov] at hc; cases hc)
    (fun o ho hc => by rw [hname o ho] at hc; cases hc)
  refine ⟨hset.entries, hset.recorded, ?_, hset.live, ?_⟩
  · exact fun e r hr => h.removed e r ((hhistory e r).1 hr)
  · intro e i hi htomb
    obtain ⟨r, hr, htime⟩ := h.dead e i hi htomb
    exact ⟨r, (hhistory e r).2 hr, htime⟩

/-- A live cell is recorded, and an old live cell leaves its entry to it. -/
theorem record (h : SharedEntries x now v history w) (hcov : x.covers c = true)
    {change : Cell.Change} (heff : c.effect now (v key c.name) = .visible change)
    (hclive : c.isLive now = true) (hchange : ∀ o, change ≠ .delete o)
    (hkept : ∀ o, v key c.name = some o → o.isLive now = true →
      x.entry key o = x.entry key c ∧ o.timestamp ≤ c.timestamp)
    (hw : Records x key c w w') :
    SharedEntries x now (v.set key c) (history ++ [(key, change)]) w' := by
  obtain ⟨hgrows, hof, hrec⟩ := of_records hw
  refine h.replace hcov ⟨hgrows, ?_, fun _ => hrec, ?_, ?_⟩
  · exact fun e i hi => (hof e i hi).imp id fun ⟨hi, he⟩ => .inl ⟨hi, hclive, he⟩
  · intro e r hr
    obtain ⟨hr', ⟨-, hlive, hne⟩ | hdelete⟩ := of_unrecords heff hr
    · exact absurd ((hkept r hr' hlive).1.symm.trans hr.2.1) hne
    · exact absurd hdelete (hchange r)
  · intro o e ho holive he
    obtain ⟨hentry, hle⟩ := hkept o ho holive
    exact .inl ⟨hclive, hentry.symm.trans he, hle⟩

/-- A live cell is replaced by one with another entry: that one is recorded first, and the entry
of the old one is then marked as deleted. -/
theorem move (h : SharedEntries x now v history w) (hcov : x.covers c = true) {o : Cell}
    (heff : c.effect now (v key c.name) = .visible (.update o c)) (hclive : c.isLive now = true)
    (ho : v key c.name = some o) (hocov : x.covers o = true) (holive : o.isLive now = true)
    (hne : x.entry key c ≠ x.entry key o) {w₁ : Ledger} (hw : Records x key c w w₁)
    (hw' : Removes x now key o w₁ w') :
    SharedEntries x now (v.set key c) (history ++ [(key, .update o c)]) w' := by
  obtain ⟨hgrows, hof, e₁, i₁, he₁, hi₁, hle⟩ := of_records hw
  obtain ⟨hgrows', hof', e₂, i₂, he₂, hi₂, hshadows⟩ := of_removes hw'
  have hunrec : ∀ e, x.entry key o = .ok e → Unrecords x now key (.update o c) e o :=
    fun e he => ⟨hocov, he, .inr ⟨c, rfl, holive, fun hce => hne (hce.trans he.symm)⟩⟩
  refine h.replace hcov ⟨hgrows.trans hgrows', ?_, ?_, ?_, ?_⟩
  · intro e i hi
    rcases hof' e i hi with hi | ⟨rfl, he⟩
    · exact (hof e i hi).imp id fun ⟨hi, he⟩ => .inl ⟨hi, hclive, he⟩
    · exact .inr (.inr ⟨rfl, o, hunrec e he, rfl⟩)
  · intro _
    obtain ⟨i, hi, hs⟩ := hgrows' _ _ i₁ hi₁
    exact ⟨e₁, i, he₁, hi, Int.le_trans hle hs.le⟩
  · intro e r hr
    cases ho.symm.trans (of_unrecords heff hr).1
    cases he₂.symm.trans hr.2.1
    exact ⟨i₂, hi₂, hshadows⟩
  · intro o' e ho' _ he
    cases ho.symm.trans ho'
    exact .inr (hunrec e he)

/-- A live cell is replaced by one that is not live, and its entry is marked as deleted. -/
theorem remove (h : SharedEntries x now v history w) (hcov : x.covers c = true) {o : Cell}
    (heff : c.effect now (v key c.name) = .visible (.delete o)) (hdead : c.isLive now = false)
    (ho : v key c.name = some o) (hocov : x.covers o = true) (hw : Removes x now key o w w') :
    SharedEntries x now (v.set key c) (history ++ [(key, .delete o)]) w' := by
  obtain ⟨hgrows, hof, e₂, i₂, he₂, hi₂, hshadows⟩ := of_removes hw
  have hunrec : ∀ e, x.entry key o = .ok e → Unrecords x now key (.delete o) e o :=
    fun e he => ⟨hocov, he, .inl rfl⟩
  refine h.replace hcov ⟨hgrows, ?_, ?_, ?_, ?_⟩
  · intro e i hi
    exact (hof e i hi).imp id fun ⟨hi, he⟩ => .inr ⟨hi ▸ rfl, o, hunrec e he, hi ▸ rfl⟩
  · intro hclive
    rw [hdead] at hclive
    cases hclive
  · intro e r hr
    cases ho.symm.trans (of_unrecords heff hr).1
    cases he₂.symm.trans hr.2.1
    exact ⟨i₂, hi₂, hshadows⟩
  · intro o' e ho' _ he
    cases ho.symm.trans ho'
    exact .inr (hunrec e he)

/-- **A visible change**, with what the index does about it, keeps the invariant. -/
theorem visible (h : SharedEntries x now v history w) (hv : v.Named x.base)
    (hcov : x.covers c = true) {change : Cell.Change}
    (heff : c.effect now (v key c.name) = .visible change) (hw : Follows x now key change w w') :
    SharedEntries x now (v.set key c) (history ++ [(key, change)]) w' := by
  have hcovers : ∀ o, v key c.name = some o → x.covers o = true := fun o ho =>
    (x.covers_congr (hv key c.name o ho).1).trans hcov
  rcases Cell.visible_cases heff with ⟨hnone, hclive, rfl⟩ | ⟨o, ho, hs, hclive, rfl⟩ |
    ⟨o, ho, hs, hdead, holive, rfl⟩
  · cases hw with
    | inserted hw =>
      refine h.record hcov heff hclive (fun o h => by cases h) (fun o ho => ?_) hw
      cases hnone.symm.trans ho
  · cases hw with
    | revived hdead hw =>
      refine h.record hcov heff hclive (fun o h => by cases h) (fun o' ho' holive => ?_) hw
      cases ho.symm.trans ho'
      rw [hdead] at holive
      cases holive
    | kept holive he he' hw =>
      refine h.record hcov heff hclive (fun o h => by cases h) (fun o' ho' _ => ?_) hw
      cases ho.symm.trans ho'
      exact ⟨he.trans he'.symm, Cell.timestamp_le_of_supersedes hs⟩
    | moved holive he he' hne hw hw' =>
      refine h.move hcov heff hclive ho (hcovers o ho) holive (fun heq => hne ?_) hw hw'
      exact Except.ok.inj (he.symm.trans (heq.symm.trans he'))
  · cases hw with
    | deleted hw => exact h.remove hcov heff hdead ho (hcovers o ho) hw

end SharedEntries

/-! ### What readers see -/

/-- Does the table of an index have a live cell at the entry? -/
def TableStore.Shows (index : TableStore) (now : Int) (e : IndexEntry) : Prop :=
  ∃ i ∈ index.liveCells now e.partitionKey, i.name = e.cellName

/-- Every live cell that the index covers has an entry that readers find. -/
def RecordsAll (x : SecondaryIndex) (base index : TableStore) (now : Int) : Prop :=
  ∀ key c, c ∈ base.liveCells now key → x.covers c = true →
    ∃ e, x.entry key c = .ok e ∧ index.Shows now e

/-- Readers find an entry if and only if one of its live cells is newer than every cell that was
removed there. -/
structure EntriesAgree (x : SecondaryIndex) (base index : TableStore) (now : Int)
    (history : List HookCall) : Prop where
  entries : ∀ key c, c ∈ base.liveCells now key → x.covers c = true → ∃ e, x.entry key c = .ok e
  shows_iff : ∀ e, index.Shows now e ↔
    ∃ key b, b ∈ base.liveCells now key ∧ x.covers b = true ∧ x.entry key b = .ok e ∧
      ∀ r, RemovedAt x now history e r → r.timestamp < b.timestamp

theorem TableStore.shows_iff {index : TableStore} (h : index.layers.WellFormed) {now : Int}
    {e : IndexEntry} :
    index.Shows now e ↔ ∃ i, Ledger.at index.get? e = some i ∧ i.isLive now = true := by
  constructor
  · rintro ⟨i, hi, hname⟩
    obtain ⟨hget, hlive⟩ := (mem_liveCells h).1 hi
    rw [hname] at hget
    exact ⟨i, hget, hlive⟩
  · rintro ⟨i, hi, hlive⟩
    have hname : i.name = e.cellName := h.name_eq hi
    refine ⟨i, (mem_liveCells h).2 ⟨?_, hlive⟩, hname⟩
    rw [hname]
    exact hi

theorem liveAt_iff {x : SecondaryIndex} {base : TableStore} (h : base.layers.WellFormed)
    (hv : Ledger.Named x.base base.get?) {now : Int} {e : IndexEntry} {b : Cell} :
    LiveAt x now base.get? e b ↔ ∃ key, b ∈ base.liveCells now key ∧ x.covers b = true ∧
      x.entry key b = .ok e := by
  constructor
  · rintro ⟨key, name, hb, hcov, hlive, he⟩
    obtain ⟨rfl, -⟩ := hv key name b hb
    exact ⟨key, (TableStore.mem_liveCells h).2 ⟨hb, hlive⟩, hcov, he⟩
  · rintro ⟨key, hb, hcov, he⟩
    obtain ⟨hget, hlive⟩ := (TableStore.mem_liveCells h).1 hb
    exact ⟨key, b.name, hget, hcov, hlive, he⟩

/-- What the invariant says to readers. -/
theorem SharedEntries.agree {x : SecondaryIndex} {base index : TableStore} {now : Int}
    {history : List HookCall} (hbase : base.layers.WellFormed) (hindex : index.layers.WellFormed)
    (hv : Ledger.Named x.base base.get?)
    (h : SharedEntries x now base.get? history index.get?) :
    EntriesAgree x base index now history where
  entries := fun key c hc hcov => by
    obtain ⟨hget, hlive⟩ := (TableStore.mem_liveCells hbase).1 hc
    exact h.entries key c.name c hget hcov hlive
  shows_iff := fun e => by
    rw [TableStore.shows_iff hindex, h.isLive_iff e]
    constructor
    · rintro ⟨b, hb, hnewer⟩
      obtain ⟨key, hb, hcov, he⟩ := (liveAt_iff hbase hv).1 hb
      exact ⟨key, b, hb, hcov, he, hnewer⟩
    · rintro ⟨key, b, hb, hcov, he, hnewer⟩
      exact ⟨b, (liveAt_iff hbase hv).2 ⟨key, hb, hcov, he⟩, hnewer⟩

/-! ### Runs -/

theorem keptByCells_sharedEntries (x : SecondaryIndex) : KeptByCells (SharedEntries x) x where
  unseen := fun {now v log w key c} h _ _ heff => by
    obtain ⟨hold, hdead⟩ := Cell.of_unseen heff
    exact h.unseen (fun _ => hdead) fun o ho _ => (hold o ho).2
  uncovered := fun h hv _ hcov heff => h.uncovered hv hcov heff
  covered := fun h hv _ hcov heff hw => h.visible hv hcov heff hw

/-- **What readers find in an index after writes at one time.**  Take an index that was added
while its base table was empty.  After every run of writes, an entry is found if and only if one
of its live cells is newer than every cell that was removed there. -/
theorem entriesAgree_of_run {x : SecondaryIndex} {others indexes : IndexSet}
    (hadd : others.add x = .ok indexes) {now : Int} {writes : List (Bytes × List Cell)}
    (hnames : ∀ write ∈ writes, ∀ c ∈ write.2, x.base.HasName c.name) {d : Deployment}
    (hrun : (Deployment.start x.base indexes now).run
      (writes.map fun write => .write write.1 write.2) = some d) :
    ∃ k, d.indexes.members.find? x.column = some k ∧
      EntriesAgree x d.base k.store now d.history := by
  obtain ⟨h, hnow⟩ := (Tracks.start hadd now SharedEntries.empty).run_writes
    (keptByCells_sharedEntries x) hnames hrun
  obtain ⟨k, hk, hhealthy, -, hI⟩ := h.index
  rw [hnow] at hI
  exact ⟨k, hk, hI.agree h.base hhealthy.layers h.named⟩

end WideColumn
