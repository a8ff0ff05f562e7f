import WideColumn.Proofs.ValueIndexes

/-!
# Indexes that are being built

An index that was added to a table with cells in it records none of them at first, but follows the
changes of the table from then on.  So it marks entries as deleted that it never had, and records
cells that a later backfill records again.

Whatever an index table holds is a trace of the base cell that counts now: the record of this cell,
or what an older cell has left there, which nobody sees (`Trace`).  A record that the backfill comes
with too late finds such a trace in its place and changes nothing; and one that it comes with a
second time finds itself.

* `Trace`, `Traces` — the invariant while an index is being built;
* `Traces.visible`, `keptBySteps_traces` — **every step keeps it**;
* `Backfilling` — the invariant during a backfill, with the cells that are still to be recorded;
* `keptByCells_backfilling`, `Backfilling.record` — changes of the table keep it, and so does the
  recording of the next cell;
* `Backfilling.mirrors` — when no cell is left, the index table mirrors the column.
-/

namespace WideColumn

open KeptIndex

/-! ### Traces of base cells -/

namespace KeptIndex

/-- What the place of a base cell may hold under a value: the record of the cell, or what a cell
that it supersedes has left there, which nobody sees. -/
inductive Trace (now : Int) (p : Bytes) (b : Cell) (value : Bytes) (i : Cell) : Prop
  | record (hmark : b.isTombstone = false) (hvalue : b.value = value) (hi : i = mirror p b)
  | rest (hdead : i.isLive now = false)
    (hs : b.supersedes (.ofValue [] value i.timestamp) = true)

/-- The record of a live cell supersedes those of older cells with its value. -/
theorem mirror_supersedes_mirror {p : Bytes} {c o : Cell} {now : Int}
    (hlive : c.isLive now = true) (hs : c.supersedes o = true) (hvalue : o.value = c.value) :
    (mirror p c).supersedes (mirror p o) = true := by
  have hself := Cell.ofValue_not_supersedes [] o
  rw [hvalue] at hself
  have hlt : o.timestamp < c.timestamp := Cell.lt_timestamp hlive hs hself
  exact mirror_supersedes hlt

namespace Trace

variable {now : Int} {p value : Bytes} {b c i : Cell}

/-- Of a cell that nobody sees, nobody sees a trace. -/
theorem dead (h : Trace now p b value i) (hdead : b.isLive now = false) :
    i.isLive now = false := by
  cases h with
  | record hmark _ hi => rw [hi, mirror_isLive_eq hmark, hdead]
  | rest hi _ => exact hi

/-- The value of the trace, written when it was, is not newer than the cell. -/
theorem not_newer (h : Trace now p b value i) :
    (Cell.ofValue [] value i.timestamp).supersedes b = false := by
  cases h with
  | record _ hvalue hi =>
    subst hvalue hi
    exact Cell.ofValue_not_supersedes [] b
  | rest _ hs => exact Cell.supersedes_asymm hs

theorem timestamp_le (h : Trace now p b value i) : i.timestamp ≤ b.timestamp := by
  have hle := Cell.timestamp_le_of_not_supersedes h.not_newer
  exact hle

/-- What nobody sees is left behind when another cell comes to count. -/
theorem supersede (h : Trace now p b value i) (hs : c.supersedes b = true)
    (hdead : i.isLive now = false) : Trace now p c value i := by
  refine .rest hdead ?_
  cases h with
  | record hmark hvalue hi =>
    subst hvalue hi
    have hsame : c.supersedes (.ofValue [] b.value b.timestamp) = c.supersedes b :=
      Cell.supersedes_congr_right rfl rfl hmark.symm
    exact hsame.trans hs
  | rest _ hbs => exact Cell.supersedes_trans hs hbs

/-- The place of a live cell that is up to date holds the record of the cell. -/
theorem eq_mirror (h : Trace now p b b.value i) (hlive : b.isLive now = true)
    (hreached : (mirror p b).supersedes i = false) : i = mirror p b := by
  cases h with
  | record _ _ hi => exact hi
  | rest _ hs =>
    have hlt := Cell.lt_timestamp hlive hs (Cell.supersedes_irrefl _)
    rw [mirror_supersedes hlt] at hreached
    cases hreached

theorem later (h : Trace now p b value i) {later : Int} (hle : now ≤ later) :
    Trace later p b value i := by
  cases h with
  | record hmark hvalue hi => exact .record hmark hvalue hi
  | rest hdead hs =>
    refine .rest ?_ hs
    cases hlive : i.isLive later with
    | false => rfl
    | true =>
      rw [Cell.isLive_of_later hle hlive] at hdead
      cases hdead

end Trace

/-! ### What an index does about a change -/

namespace Updates

variable {now : Int} {p : Bytes} {c o : Cell} {old : Option Cell} {w w' : Ledger}

/-- Nothing changes at other places. -/
theorem out (h : Updates now p c old w w') {value q : Bytes} (hq : q ≠ p) :
    w' value q = w value q := by
  cases h with
  | record _ _ => exact w.put_of_ne fun hk => hq hk.2
  | move _ _ _ _ =>
    exact (Ledger.put_of_ne _ fun hk => hq hk.2).trans (w.put_of_ne fun hk => hq hk.2)
  | remove _ _ _ => exact w.put_of_ne fun hk => hq hk.2

/-- What the ledger has come as far as stays so. -/
theorem reaches (h : Updates now p c old w w') {k : Bytes} {d : Cell} (hd : w.Reaches k d) :
    w'.Reaches k d := by
  cases h with
  | record _ _ => exact hd.put _ _
  | move _ _ _ _ => exact (hd.put _ _).put _ _
  | remove _ _ _ => exact hd.put _ _

/-- The new cell is recorded, if it is live. -/
theorem reaches_new (h : Updates now p c old w w') (hlive : c.isLive now = true) :
    w'.Reaches c.value (mirror p c) := by
  cases h with
  | record _ _ => exact w.reaches_put_self c.value (mirror p c)
  | move _ _ _ _ => exact (w.reaches_put_self c.value (mirror p c)).put _ _
  | remove _ _ hdead =>
    rw [hdead] at hlive
    cases hlive

/-- A record of the old cell would come too late. -/
theorem reaches_old (h : Updates now p c old w w') (ho : old = some o)
    (hs : c.supersedes o = true) (hold : o.isLive now = true) :
    w'.Reaches o.value (mirror p o) := by
  have hmarked : ∀ w₁ : Ledger, (w₁.put o.value (.tombstone p o.timestamp now)).Reaches o.value
      (mirror p o) := fun w₁ =>
    (w₁.reaches_put_self o.value (.tombstone p o.timestamp now)).of_supersedes rfl
      tombstone_supersedes_mirror
  cases h with
  | record hlive hsame =>
    have hvalue := hsame o ho hold
    rw [hvalue]
    exact (w.reaches_put_self c.value (mirror p c)).of_supersedes rfl
      (mirror_supersedes_mirror hlive hs hvalue)
  | move ho' _ _ _ =>
    cases ho.symm.trans ho'
    exact hmarked _
  | remove ho' _ _ =>
    cases ho.symm.trans ho'
    exact hmarked _

end Updates

end KeptIndex

/-! ### The invariant -/

/-- All that the look-ups `w` in the table of an index find are traces of the cells that the
look-ups `v` in the base table find. -/
def Traces (x : SecondaryIndex) (now : Int) (v w : Ledger) : Prop :=
  ∀ value p i, w value p = some i → ∃ key name b, v key name = some b ∧ x.covers b = true ∧
    x.place key name = .ok p ∧ Trace now p b value i

namespace Traces

variable {x : SecondaryIndex} {now : Int} {v w w' : Ledger} {key p : Bytes} {c o : Cell}

theorem empty (x : SecondaryIndex) (now : Int) (v : Ledger) : Traces x now v (fun _ _ => none) :=
  nofun

/-- What a place holds are traces of the cell that has the place. -/
theorem at_place (h : Traces x now v w) (hx : x.RecordsValues) (hv : v.Named x.base)
    (hcov : x.covers c = true) (hname : x.base.HasName c.name) (hp : x.place key c.name = .ok p)
    {value : Bytes} {i : Cell} (hi : w value p = some i) :
    ∃ o, v key c.name = some o ∧ Trace now p o value i := by
  obtain ⟨k, name, b, hb, hbcov, hbp, htrace⟩ := h value p i hi
  obtain ⟨rfl, rfl⟩ := hv.eq_of_place hx hcov hname hp hb hbcov hbp
  exact ⟨b, hb, htrace⟩

/-- **One cell in place of another.**  At the cell's place only traces of the new cell may be left,
and nothing new elsewhere. -/
theorem replace (h : Traces x now v w) (hcov : x.covers c = true)
    (hw : ∀ value p i, w' value p = some i →
      (x.place key c.name = .ok p ∧ Trace now p c value i) ∨
      (x.place key c.name ≠ .ok p ∧ w value p = some i)) :
    Traces x now (v.set key c) w' := by
  intro value p i hi
  rcases hw value p i hi with ⟨hp, htrace⟩ | ⟨hp, hold⟩
  · exact ⟨key, c.name, c, v.set_self key c, hcov, hp, htrace⟩
  · obtain ⟨k, name, b, hb, hbcov, hbp, htrace⟩ := h value p i hold
    have hne : ¬ (k = key ∧ name = c.name) := by
      rintro ⟨rfl, rfl⟩
      exact hp hbp
    exact ⟨k, name, b, (v.set_of_ne hne).trans hb, hbcov, hbp, htrace⟩

/-! ### What becomes of one place -/

/-- Under each value, the place holds a trace of the cell or the record of a cell that is stale. -/
def Among (now : Int) (p : Bytes) (c : Cell) (stale : Cell → Prop) (w : Ledger) : Prop :=
  ∀ value i, w value p = some i →
    Trace now p c value i ∨ ∃ o, stale o ∧ o.value = value ∧ i = mirror p o

/-- When a cell comes to count, the record of the live cell that it supersedes is stale. -/
theorem among (h : Traces x now v w) (hx : x.RecordsValues) (hv : v.Named x.base)
    (hcov : x.covers c = true) (hname : x.base.HasName c.name) (hp : x.place key c.name = .ok p)
    (hs : ∀ o, v key c.name = some o → c.supersedes o = true) :
    Among now p c (fun o => v key c.name = some o ∧ o.isLive now = true) w := by
  intro value i hi
  obtain ⟨o, ho, htrace⟩ := h.at_place hx hv hcov hname hp hi
  cases hlive : o.isLive now with
  | false => exact .inl (htrace.supersede (hs o ho) (htrace.dead hlive))
  | true =>
    cases htrace with
    | record _ hvalue hi => exact .inr ⟨o, ⟨ho, hlive⟩, hvalue, hi⟩
    | rest hdead hos => exact .inl ((Trace.rest hdead hos).supersede (hs o ho) hdead)

/-- A live cell is recorded; its record takes the place of a stale one under the same value. -/
theorem Among.record {stale : Cell → Prop} (h : Among now p c stale w)
    (hlive : c.isLive now = true) (hs : ∀ o, stale o → c.supersedes o = true) :
    Among now p c (fun o => stale o ∧ o.value ≠ c.value) (w.put c.value (mirror p c)) := by
  intro value i hi
  rcases Ledger.of_put hi with ⟨rfl, -, rfl⟩ | ⟨hold, hnewer⟩
  · exact .inl (.record (Cell.isTombstone_of_isLive hlive) rfl rfl)
  · rcases h value i hold with htrace | ⟨o, ho, rfl, rfl⟩
    · exact .inl htrace
    · refine .inr ⟨o, ⟨ho, fun heq => ?_⟩, rfl, rfl⟩
      have hnewest := mirror_supersedes_mirror (p := p) hlive (hs o ho) heq
      rw [hnewer heq rfl] at hnewest
      cases hnewest

/-- The entry of the only stale cell is marked as deleted. -/
theorem Among.remove {stale : Cell → Prop} (h : Among now p c stale w)
    (hstale : ∀ o', stale o' → o' = o) (hlive : o.isLive now = true)
    (hs : c.supersedes o = true) {value : Bytes} {i : Cell}
    (hi : w.put o.value (.tombstone p o.timestamp now) value p = some i) :
    Trace now p c value i := by
  rcases Ledger.of_put hi with ⟨rfl, -, rfl⟩ | ⟨hold, hnewer⟩
  · refine .rest rfl ?_
    have hsame : c.supersedes (.ofValue [] o.value o.timestamp) = c.supersedes o :=
      Cell.supersedes_congr_right rfl rfl (Cell.isTombstone_of_isLive hlive).symm
    exact hsame.trans hs
  · rcases h value i hold with htrace | ⟨o', ho', rfl, rfl⟩
    · exact htrace
    · obtain rfl := hstale o' ho'
      have hreached := hnewer rfl rfl
      rw [tombstone_supersedes_mirror] at hreached
      cases hreached

/-- No record of the old cell is left. -/
theorem Among.updates {old : Option Cell}
    (hw : Among now p c (fun o => old = some o ∧ o.isLive now = true) w)
    (h : Updates now p c old w w') (hs : ∀ o, old = some o → c.supersedes o = true) {value : Bytes}
    {i : Cell} (hi : w' value p = some i) : Trace now p c value i := by
  have hsup : ∀ o, old = some o ∧ o.isLive now = true → c.supersedes o = true := fun o ho =>
    hs o ho.1
  cases h with
  | record hlive hsame =>
    rcases hw.record hlive hsup value i hi with htrace | ⟨o, ⟨⟨ho, hold⟩, hne⟩, -, -⟩
    · exact htrace
    · exact absurd (hsame o ho hold) hne
  | move ho hold hlive _ =>
    exact (hw.record hlive hsup).remove
      (fun o' ho' => Option.some.inj (ho'.1.1.symm.trans ho)) hold (hs _ ho) hi
  | remove ho hold hdead =>
    exact hw.remove (fun o' ho' => Option.some.inj (ho'.1.symm.trans ho)) hold (hs _ ho) hi

/-! ### All steps -/

/-- **A visible change**, with what the index does about it, keeps the invariant. -/
theorem visible (h : Traces x now v w) (hx : x.RecordsValues) (hv : v.Named x.base)
    (hcov : x.covers c = true) (hname : x.base.HasName c.name) {change : Cell.Change}
    (heff : c.effect now (v key c.name) = .visible change) (hw : Follows x now key change w w') :
    Traces x now (v.set key c) w' := by
  obtain ⟨hs, p, hp, hw⟩ := updates_of_follows hx hv heff hw
  refine h.replace hcov fun value q i hi => ?_
  by_cases hq : q = p
  · subst hq
    exact .inl ⟨hp, (h.among hx hv hcov hname hp hs).updates hw hs hi⟩
  · refine .inr ⟨fun hpq => hq (Except.ok.inj (hpq.symm.trans hp)), ?_⟩
    rw [← hw.out hq]
    exact hi

/-- A cell that the index does not cover is none of its business. -/
theorem uncovered (h : Traces x now v w) (hv : v.Named x.base) (hcov : x.covers c = false) :
    Traces x now (v.set key c) w := by
  intro value p i hi
  obtain ⟨k, name, b, hb, hbcov, hrest⟩ := h value p i hi
  refine ⟨k, name, b, (v.set_of_ne ?_).trans hb, hbcov, hrest⟩
  rintro ⟨rfl, rfl⟩
  rw [x.covers_congr (hv k c.name b hb).1, hcov] at hbcov
  cases hbcov

/-- A cell that nobody sees replaces none or another such cell. -/
theorem unseen (h : Traces x now v w) (hx : x.RecordsValues) (hv : v.Named x.base)
    (hname : x.base.HasName c.name)
    (hold : ∀ o, v key c.name = some o → c.supersedes o = true ∧ o.isLive now = false) :
    Traces x now (v.set key c) w := by
  cases hcov : x.covers c with
  | false => exact h.uncovered hv hcov
  | true =>
    refine h.replace hcov fun value p i hi => ?_
    by_cases hp : x.place key c.name = .ok p
    · obtain ⟨o, ho, htrace⟩ := h.at_place hx hv hcov hname hp hi
      obtain ⟨hs, hdead⟩ := hold o ho
      exact .inl ⟨hp, htrace.supersede hs (htrace.dead hdead)⟩
    · exact .inr ⟨hp, hi⟩

/-- A truncation that drops a cell drops its traces too. -/
theorem discard (h : Traces x now v w) (timestamp : Int) :
    Traces x now (v.discard timestamp) (w.discard timestamp) := by
  intro value p i hi
  obtain ⟨hi, hnew⟩ := Option.filter_eq_some_iff.1 hi
  obtain ⟨key, name, b, hb, hbcov, hbp, htrace⟩ := h value p i hi
  refine ⟨key, name, b, Option.filter_eq_some_iff.2 ⟨hb, ?_⟩, hbcov, hbp, htrace⟩
  have hle := htrace.timestamp_le
  simp only [decide_eq_true_eq] at hnew ⊢
  omega

theorem later (h : Traces x now v w) {later : Int} (hle : now ≤ later) : Traces x later v w := by
  intro value p i hi
  obtain ⟨key, name, b, hb, hbcov, hbp, htrace⟩ := h value p i hi
  exact ⟨key, name, b, hb, hbcov, hbp, htrace.later hle⟩

end Traces

/-- **Every step keeps the invariant** of an index that is being built. -/
theorem keptBySteps_traces {x : SecondaryIndex} (hx : x.RecordsValues) :
    KeptBySteps (fun now v _ w => Traces x now v w) x where
  unseen := fun h hv hname heff => Traces.unseen h hx hv hname (Cell.of_unseen heff).1
  uncovered := fun h hv _ hcov _ => Traces.uncovered h hv hcov
  covered := fun h hv hname hcov heff hw => Traces.visible h hx hv hcov hname heff hw
  discard := fun timestamp h => Traces.discard h timestamp
  later := fun hle h => Traces.later h hle

/-! ### Backfills -/

/-- The entry of a base cell was recorded, or its record would come too late. -/
def SecondaryIndex.HasReached (x : SecondaryIndex) (w : Ledger) (key : Bytes) (c : Cell) : Prop :=
  ∃ p, x.place key c.name = .ok p ∧ w.Reaches c.value (mirror p c)

/-- The look-ups `w` in the table of an index during a backfill.  The pending cells are those that
the base table held when the backfill began and that it has not come to. -/
structure Backfilling (x : SecondaryIndex) (now : Int) (pending : List (Bytes × Cell))
    (v w : Ledger) : Prop where
  traces : Traces x now v w
  /-- A live cell is recorded, or will be. -/
  due : ∀ key name b, v key name = some b → x.covers b = true → b.isLive now = true →
    x.HasReached w key b ∨ (key, b) ∈ pending
  /-- A pending cell still counts, or its record comes too late. -/
  harmless : ∀ key c, (key, c) ∈ pending → x.covers c = true → c.isLive now = true →
    v key c.name = some c ∨ x.HasReached w key c

namespace Backfilling

variable {x : SecondaryIndex} {now : Int} {pending : List (Bytes × Cell)} {v w w' : Ledger}
  {key : Bytes} {c : Cell}

/-- All cells are pending at first. -/
theorem start (h : Traces x now v w)
    (hpending : ∀ key c, (key, c) ∈ pending ↔ v key c.name = some c) (hv : v.Named x.base) :
    Backfilling x now pending v w where
  traces := h
  due := fun key name b hb _ _ => by
    obtain ⟨rfl, -⟩ := hv key name b hb
    exact .inr ((hpending key b).2 hb)
  harmless := fun key c hc _ _ => .inl ((hpending key c).1 hc)

theorem hasReached_of (hw : ∀ {k d}, w.Reaches k d → w'.Reaches k d) (h : x.HasReached w key c) :
    x.HasReached w' key c := by
  obtain ⟨p, hp, hreached⟩ := h
  exact ⟨p, hp, hw hreached⟩

/-- A change of the base table that the index follows keeps the invariant if no pending cell is
lost. -/
theorem set (h : Backfilling x now pending v w)
    (htraces : Traces x now (v.set key c) w') (hw : ∀ {k d}, w.Reaches k d → w'.Reaches k d)
    (hnew : x.covers c = true → c.isLive now = true → x.HasReached w' key c)
    (hold : ∀ o, v key c.name = some o → x.covers o = true → o.isLive now = true →
      x.HasReached w' key o) :
    Backfilling x now pending (v.set key c) w' where
  traces := htraces
  due := fun k name b hb hcov hlive => by
    by_cases hk : k = key ∧ name = c.name
    · obtain ⟨rfl, rfl⟩ := hk
      cases (v.set_self k c).symm.trans hb
      exact .inl (hnew hcov hlive)
    · rw [v.set_of_ne hk] at hb
      exact (h.due k name b hb hcov hlive).imp_left (hasReached_of hw)
  harmless := fun k d hd hcov hlive => by
    rcases h.harmless k d hd hcov hlive with hcounts | hreached
    · by_cases hk : k = key ∧ d.name = c.name
      · obtain ⟨rfl, hname⟩ := hk
        exact .inr (hold d (hname ▸ hcounts) hcov hlive)
      · exact .inl ((v.set_of_ne hk).trans hcounts)
    · exact .inr (hasReached_of hw hreached)

end Backfilling

/-- **Changes of the base table keep the invariant during a backfill.** -/
theorem keptByCells_backfilling {x : SecondaryIndex} (hx : x.RecordsValues)
    (pending : List (Bytes × Cell)) :
    KeptByCells (fun now v _ w => Backfilling x now pending v w) x where
  unseen := fun {now v log w key c} h hv hname heff => by
    obtain ⟨hold, hdead⟩ := Cell.of_unseen heff
    refine Backfilling.set h (h.traces.unseen hx hv hname hold) id (fun _ hlive => ?_)
      fun o ho _ hlive => ?_
    · rw [hdead] at hlive
      cases hlive
    · rw [(hold o ho).2] at hlive
      cases hlive
  uncovered := fun {now v log w key c change} h hv hname hcov heff => by
    refine Backfilling.set h (h.traces.uncovered hv hcov) id (fun hcov' _ => ?_)
      fun o ho hcov' _ => ?_
    · rw [hcov] at hcov'
      cases hcov'
    · rw [x.covers_congr (hv key c.name o ho).1, hcov] at hcov'
      cases hcov'
  covered := fun {now v log w w' key c change} h hv hname hcov heff hw => by
    obtain ⟨hs, p, hp, hupdates⟩ := updates_of_follows hx hv heff hw
    refine Backfilling.set h (h.traces.visible hx hv hcov hname heff hw) hupdates.reaches
      (fun _ hlive => ⟨p, hp, hupdates.reaches_new hlive⟩) fun o ho _ hlive => ⟨p, ?_, ?_⟩
    · rw [(hv key c.name o ho).1]
      exact hp
    · exact hupdates.reaches_old ho (hs o ho) hlive

namespace Backfilling

variable {x : SecondaryIndex} {now : Int} {rest : List (Bytes × Cell)} {v w w' : Ledger}
  {key : Bytes} {c : Cell}

/-- A pending cell that is not to be recorded is skipped. -/
theorem skip (h : Backfilling x now ((key, c) :: rest) v w)
    (hc : x.covers c = true → c.isLive now = true → False) : Backfilling x now rest v w where
  traces := h.traces
  due := fun k name b hb hcov hlive => by
    rcases h.due k name b hb hcov hlive with hreached | hpending
    · exact .inl hreached
    · rcases List.mem_cons.1 hpending with heq | hpending
      · cases heq
        exact (hc hcov hlive).elim
      · exact .inr hpending
  harmless := fun k d hd => h.harmless k d (List.mem_cons_of_mem _ hd)

/-- **The next cell is recorded**: it still counts, or its record changes nothing. -/
theorem record (h : Backfilling x now ((key, c) :: rest) v w) (hx : x.RecordsValues)
    (hcov : x.covers c = true) (hlive : c.isLive now = true) (hw : Records x key c w w') :
    Backfilling x now rest v w' := by
  obtain ⟨p, hp, rfl⟩ := hw.at_place hx
  have hkept : ∀ {k d}, w.Reaches k d → (w.put c.value (mirror p c)).Reaches k d := fun hd =>
    hd.put _ _
  refine ⟨?_, fun k name b hb hbcov hblive => ?_, fun k d hd hdcov hdlive => ?_⟩
  · rcases h.harmless key c List.mem_cons_self hcov hlive with hcounts | ⟨q, hq, hreached⟩
    · intro value q i hi
      rcases Ledger.of_put hi with ⟨rfl, rfl, rfl⟩ | ⟨hi, -⟩
      · exact ⟨key, c.name, c, hcounts, hcov, hp,
          .record (Cell.isTombstone_of_isLive hlive) rfl rfl⟩
      · exact h.traces value q i hi
    · cases hp.symm.trans hq
      rw [hreached.put_eq_self]
      exact h.traces
  · rcases h.due k name b hb hbcov hblive with hreached | hpending
    · exact .inl (hasReached_of hkept hreached)
    · rcases List.mem_cons.1 hpending with heq | hpending
      · cases heq
        exact .inl ⟨p, hp, w.reaches_put_self c.value (mirror p c)⟩
      · exact .inr hpending
  · exact (h.harmless k d (List.mem_cons_of_mem _ hd) hdcov hdlive).imp_right
      (hasReached_of hkept)

/-- **When no cell is pending, the index mirrors its column.** -/
theorem mirrors (h : Backfilling x now [] v w) (hx : x.RecordsValues) (hv : v.Named x.base) :
    Mirrors x now v w where
  recorded := fun key name b hb hcov hlive => by
    obtain ⟨rfl, hname⟩ := hv key name b hb
    rcases h.due key b.name b hb hcov hlive with ⟨p, hp, i, hi, hreached⟩ | hpending
    · obtain ⟨o, ho, htrace⟩ := h.traces.at_place hx hv hcov hname hp hi
      cases hb.symm.trans ho
      refine ⟨p, hp, ?_⟩
      rw [← htrace.eq_mirror hlive hreached]
      exact hi
    · cases hpending
  recording := fun value p i hi hlive => by
    obtain ⟨key, name, b, hb, hcov, hp, htrace⟩ := h.traces value p i hi
    cases htrace with
    | record hmark hvalue hi =>
      refine ⟨key, name, b, hb, hcov, ?_, hp, hvalue, hi⟩
      rw [← mirror_isLive_eq (p := p) hmark, ← hi]
      exact hlive
    | rest hdead _ =>
      rw [hdead] at hlive
      cases hlive
  bounded := fun key c p hcov hname hp value i hi => by
    obtain ⟨o, ho, htrace⟩ := h.traces.at_place hx hv hcov hname hp hi
    exact ⟨o, ho, htrace.not_newer⟩

end Backfilling

end WideColumn
