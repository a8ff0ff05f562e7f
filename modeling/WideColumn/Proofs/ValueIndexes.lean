import WideColumn.Proofs.Deployments

/-!
# Indexes of values

An index that records each cell under its value, in a place of its own (`RecordsValues`), mirrors
its column: the live cells of the index are those of the base table, each at its entry.

What carries the proof is a bound on all cells of the index table, deleted and expired ones
included: a cell at a place, written at some time, never stands for a base cell that is newer than
the one that counts now (`Mirrors.bounded`).  So a base cell that comes to count supersedes
whatever its entry's place has held under its value.

* `written_at_place`, `Ledger.Named.eq_of_place` — what is written for a cell is written at its
  place, which is that of no other;
* `Updates`, `updates_of_follows` — what an index does at the place of a cell;
* `Mirrors` — the invariant;
* `Mirrors.replace` — **one cell in place of another**, whatever the change;
* `Mirrors.visible`, `keptBySteps_mirrors` — every step keeps the invariant;
* `value_index_exact` — **exactness**: after every run the live cells of an index on a regular or
  static column and those of the column correspond one to one.
-/

namespace WideColumn

open KeptIndex

/-! ### Cells that might have been written -/

namespace Cell

theorem isTombstone_of_isLive {c : Cell} {now : Int} (h : c.isLive now = true) :
    c.isTombstone = false := by
  obtain ⟨name, value, timestamp, kind⟩ := c
  cases kind <;> simp_all [isLive, isTombstone]

/-- A cell that expires does not come back. -/
theorem isLive_of_later {c : Cell} {now later : Int} (hle : now ≤ later)
    (h : c.isLive later = true) : c.isLive now = true := by
  obtain ⟨name, value, timestamp, kind⟩ := c
  cases kind with
  | live => rfl
  | expiring ttl expiresAt =>
    simp only [isLive, decide_eq_true_eq] at h ⊢
    omega
  | tombstone deletedAt => cases h

/-- A value does not supersede the cell that has it. -/
theorem ofValue_not_supersedes (name : Bytes) (c : Cell) :
    (ofValue name c.value c.timestamp).supersedes c = false := by
  rw [Bool.eq_false_iff, ne_eq, supersedes_iff]
  simp [ofValue, isTombstone]

/-- A live cell that supersedes one which its own value, written at some time, does not
supersede, was written after that time. -/
theorem lt_timestamp {c o : Cell} {now timestamp : Int} {name : Bytes} (hlive : c.isLive now = true)
    (hs : c.supersedes o = true) (h : (ofValue name c.value timestamp).supersedes o = false) :
    timestamp < c.timestamp := by
  rcases Int.lt_trichotomy timestamp c.timestamp with hlt | heq | hgt
  · exact hlt
  · have hcongr : (ofValue name c.value timestamp).supersedes o = c.supersedes o :=
      supersedes_congr heq rfl (isTombstone_of_isLive hlive).symm
    rw [hcongr, hs] at h
    cases h
  · have hnewer : (ofValue name c.value timestamp).supersedes c = true :=
      supersedes_iff.2 (.inl hgt)
    rw [supersedes_trans hnewer hs] at h
    cases h

end Cell

namespace KeptIndex

/-- The cell at a place that records a base cell. -/
def mirror (p : Bytes) (c : Cell) : Cell := entryCell ⟨c.value, p⟩ c

/-- The record of a cell that is no tombstone is live when the cell is. -/
theorem mirror_isLive_eq {p : Bytes} {c : Cell} {now : Int} (h : c.isTombstone = false) :
    (mirror p c).isLive now = c.isLive now := by
  obtain ⟨name, value, timestamp, kind⟩ := c
  cases kind <;> simp_all [mirror, entryCell, Cell.isLive, Cell.isTombstone]

theorem mirror_isLive {p : Bytes} {c : Cell} {now : Int} (h : c.isLive now = true) :
    (mirror p c).isLive now = true := by
  rw [mirror_isLive_eq (Cell.isTombstone_of_isLive h), h]

theorem isLive_of_mirror {p : Bytes} {c : Cell} {now later : Int} (h : c.isLive now = true)
    (hm : (mirror p c).isLive later = true) : c.isLive later = true := by
  rwa [mirror_isLive_eq (Cell.isTombstone_of_isLive h)] at hm

/-- A newer cell at a place supersedes an older one. -/
theorem mirror_supersedes {p : Bytes} {c i : Cell} (h : i.timestamp < c.timestamp) :
    (mirror p c).supersedes i = true :=
  Cell.supersedes_iff.2 (.inl h)

/-- The mark of a deletion supersedes the entry that it is for. -/
theorem tombstone_supersedes_mirror {p : Bytes} {c : Cell} {now : Int} :
    (Cell.tombstone p c.timestamp now).supersedes (mirror p c) = true := by
  refine Cell.supersedes_iff.2 (.inr ⟨rfl, .inl ⟨rfl, ?_⟩⟩)
  obtain ⟨name, value, timestamp, kind⟩ := c
  cases kind <;> rfl

/-! ### What an index does at a place -/

section Updates

variable {x : SecondaryIndex} {now : Int} {v w w' : Ledger} {key : Bytes} {c : Cell}

/-- What is written for a cell is written under its value, at its place. -/
theorem written_at_place (hx : x.RecordsValues) (written : IndexEntry → Cell)
    (hw : ∃ e, x.entry key c = .ok e ∧ w' = w.put e.partitionKey (written e)) :
    ∃ p, x.place key c.name = .ok p ∧ w' = w.put c.value (written ⟨c.value, p⟩) := by
  obtain ⟨⟨value, p⟩, he, rfl⟩ := hw
  obtain ⟨hkey, hplace⟩ := (hx.entry_eq_ok key c ⟨value, p⟩).1 he
  obtain rfl : value = c.value := hkey
  exact ⟨p, hplace, rfl⟩

/-- A cell is recorded at its place. -/
theorem Records.at_place (hx : x.RecordsValues) (hw : Records x key c w w') :
    ∃ p, x.place key c.name = .ok p ∧ w' = w.put c.value (mirror p c) :=
  written_at_place hx (entryCell · c) hw

/-- The entry of a cell is marked as deleted at the place of the cell. -/
theorem Removes.at_place (hx : x.RecordsValues) (hw : Removes x now key c w w') :
    ∃ p, x.place key c.name = .ok p ∧
      w' = w.put c.value (.tombstone p c.timestamp now) :=
  written_at_place hx (fun e => .tombstone e.cellName c.timestamp now) hw

/-- What an index does about a cell in place of another one: it records the cell, or it marks the
entry of the other one as deleted, or both. -/
inductive Updates (now : Int) (p : Bytes) (c : Cell) (old : Option Cell) (w : Ledger) :
    Ledger → Prop
  /-- No live cell was there, or one with the same entry. -/
  | record (hlive : c.isLive now = true)
    (hsame : ∀ o, old = some o → o.isLive now = true → o.value = c.value) :
    Updates now p c old w (w.put c.value (mirror p c))
  | move {o : Cell} (ho : old = some o) (hold : o.isLive now = true) (hlive : c.isLive now = true)
    (hvalues : o.value ≠ c.value) :
    Updates now p c old w
      ((w.put c.value (mirror p c)).put o.value (.tombstone p o.timestamp now))
  | remove {o : Cell} (ho : old = some o) (hold : o.isLive now = true)
    (hdead : c.isLive now = false) :
    Updates now p c old w (w.put o.value (.tombstone p o.timestamp now))

/-- **What follows a visible change** does one of these at the place of the cell. -/
theorem updates_of_follows (hx : x.RecordsValues) (hv : v.Named x.base) {change : Cell.Change}
    (heff : c.effect now (v key c.name) = .visible change) (hw : Follows x now key change w w') :
    (∀ o, v key c.name = some o → c.supersedes o = true) ∧
      ∃ p, x.place key c.name = .ok p ∧ Updates now p c (v key c.name) w w' := by
  have hstored : c.effect now (v key c.name) ≠ .superseded := by simp [heff]
  refine ⟨fun o ho => Cell.supersedes_of_effect hstored ho, ?_⟩
  rcases Cell.visible_cases heff with ⟨hnone, hlive, rfl⟩ | ⟨o, ho, -, hlive, rfl⟩ |
    ⟨o, ho, -, hdead, hold, rfl⟩
  · cases hw with
    | inserted hw =>
      obtain ⟨p, hp, rfl⟩ := hw.at_place hx
      exact ⟨p, hp, .record hlive fun o ho => by cases hnone.symm.trans ho⟩
  · have hon : o.name = c.name := (hv key c.name o ho).1
    cases hw with
    | revived hdead hw =>
      obtain ⟨p, hp, rfl⟩ := hw.at_place hx
      refine ⟨p, hp, .record hlive fun o' ho' hold => ?_⟩
      cases ho.symm.trans ho'
      rw [hdead] at hold
      cases hold
    | kept hold he he' hw =>
      obtain ⟨p, hp, rfl⟩ := hw.at_place hx
      refine ⟨p, hp, .record hlive fun o' ho' _ => ?_⟩
      cases ho.symm.trans ho'
      rw [← ((hx.entry_eq_ok key o _).1 he).1, ((hx.entry_eq_ok key c _).1 he').1]
    | moved hold he he' hne hw hw' =>
      obtain ⟨p, hp, rfl⟩ := hw.at_place hx
      obtain ⟨q, hq, rfl⟩ := hw'.at_place hx
      cases hp.symm.trans (hon ▸ hq)
      refine ⟨p, hp, .move ho hold hlive fun heq => hne ?_⟩
      exact Except.ok.inj (he.symm.trans ((x.entry_congr key hon heq).trans he'))
  · cases hw with
    | deleted hw =>
      obtain ⟨p, hp, rfl⟩ := hw.at_place hx
      exact ⟨p, (hv key c.name o ho).1 ▸ hp, .remove ho hold hdead⟩

end Updates

end KeptIndex

/-- The place of a covered cell is that of one key and one name. -/
theorem Ledger.Named.eq_of_place {x : SecondaryIndex} {v : Ledger} (hv : v.Named x.base)
    (hx : x.RecordsValues) {key k p name : Bytes} {c b : Cell} (hcov : x.covers c = true)
    (hname : x.base.HasName c.name) (hp : x.place key c.name = .ok p) (hb : v k name = some b)
    (hbcov : x.covers b = true) (hbp : x.place k name = .ok p) : k = key ∧ name = c.name := by
  obtain ⟨rfl, hbname⟩ := hv k name b hb
  exact hx.place_injective k key b c p hbcov hcov hbname hname hbp hp

/-! ### The invariant -/

/-- The look-ups `w` in the table of an index mirror the look-ups `v` in its base table. -/
structure Mirrors (x : SecondaryIndex) (now : Int) (v w : Ledger) : Prop where
  /-- A live cell is recorded. -/
  recorded : ∀ key name b, v key name = some b → x.covers b = true → b.isLive now = true →
    ∃ p, x.place key name = .ok p ∧ w b.value p = some (mirror p b)
  /-- A live record is one of a live cell. -/
  recording : ∀ value p i, w value p = some i → i.isLive now = true →
    ∃ key name b, v key name = some b ∧ x.covers b = true ∧ b.isLive now = true ∧
      x.place key name = .ok p ∧ b.value = value ∧ i = mirror p b
  /-- No record, live or not, is newer than the cell that counts. -/
  bounded : ∀ key c p, x.covers c = true → x.base.HasName c.name → x.place key c.name = .ok p →
    ∀ value i, w value p = some i → ∃ b, v key c.name = some b ∧
      (Cell.ofValue c.name value i.timestamp).supersedes b = false

namespace Mirrors

variable {x : SecondaryIndex} {now : Int} {v w w' : Ledger}

theorem empty : Mirrors x now (fun _ _ => none) (fun _ _ => none) where
  recorded := fun _ _ _ h => by cases h
  recording := fun _ _ _ h => by cases h
  bounded := fun _ _ _ _ _ _ _ _ h => by cases h

/-! ### What a place holds -/

variable {key : Bytes} {c o : Cell} {p : Bytes}

/-- The live records at a place are those of the cell that has the place. -/
theorem live_at (h : Mirrors x now v w) (hx : x.RecordsValues) (hv : v.Named x.base)
    (hcov : x.covers c = true) (hname : x.base.HasName c.name) (hp : x.place key c.name = .ok p)
    {value : Bytes} {i : Cell} (hi : w value p = some i) (hlive : i.isLive now = true) :
    ∃ o, v key c.name = some o ∧ o.isLive now = true ∧ o.value = value := by
  obtain ⟨k, name, b, hb, hbcov, hblive, hbp, hvalue, -⟩ := h.recording value p i hi hlive
  obtain ⟨rfl, rfl⟩ := hv.eq_of_place hx hcov hname hp hb hbcov hbp
  exact ⟨b, hb, hblive, hvalue⟩

/-- **One cell in place of another.**  The table of the index may change only at the cell's place,
where it then holds a live record exactly if the new cell is live, and no record that is newer. -/
theorem replace (h : Mirrors x now v w) (hx : x.RecordsValues) (hv : v.Named x.base)
    (hcov : x.covers c = true) (hname : x.base.HasName c.name)
    (hout : ∀ value q, x.place key c.name ≠ .ok q → w' value q = w value q)
    (hrec : c.isLive now = true →
      ∃ p, x.place key c.name = .ok p ∧ w' c.value p = some (mirror p c))
    (hlive : ∀ p value i, x.place key c.name = .ok p → w' value p = some i →
      i.isLive now = true → c.isLive now = true ∧ c.value = value ∧ i = mirror p c)
    (hbound : ∀ p value i, x.place key c.name = .ok p → w' value p = some i →
      (Cell.ofValue c.name value i.timestamp).supersedes c = false) :
    Mirrors x now (v.set key c) w' where
  recorded := fun k name b hb hbcov hblive => by
    by_cases hk : k = key ∧ name = c.name
    · obtain ⟨rfl, rfl⟩ := hk
      rw [Ledger.set_self] at hb
      cases hb
      exact hrec hblive
    · rw [Ledger.set_of_ne v hk] at hb
      obtain ⟨q, hq, hw⟩ := h.recorded k name b hb hbcov hblive
      exact ⟨q, hq, (hout b.value q fun hcq =>
        hk (hv.eq_of_place hx hcov hname hcq hb hbcov hq)).trans hw⟩
  recording := fun value q i hi hilive => by
    by_cases hq : x.place key c.name = .ok q
    · obtain ⟨hclive, hvalue, hmirror⟩ := hlive q value i hq hi hilive
      exact ⟨key, c.name, c, Ledger.set_self v key c, hcov, hclive, hq, hvalue, hmirror⟩
    · rw [hout value q hq] at hi
      obtain ⟨k, name, b, hb, hbcov, hblive, hbq, hvalue, hmirror⟩ := h.recording value q i hi hilive
      refine ⟨k, name, b, ?_, hbcov, hblive, hbq, hvalue, hmirror⟩
      rw [Ledger.set_of_ne v ?_]
      · exact hb
      · rintro ⟨rfl, rfl⟩
        exact hq hbq
  bounded := fun k d q hdcov hdname hdq value i hi => by
    by_cases hq : x.place key c.name = .ok q
    · obtain ⟨rfl, hdc⟩ := hx.place_injective k key d c q hdcov hcov hdname hname hdq hq
      rw [hdc, Ledger.set_self]
      exact ⟨c, rfl, hbound q value i hq hi⟩
    · rw [hout value q hq] at hi
      rw [Ledger.set_of_ne v ?_]
      · exact h.bounded k d q hdcov hdname hdq value i hi
      · rintro ⟨rfl, heq⟩
        exact hq (heq ▸ hdq)

/-! ### The kinds of change -/

/-- A cell that comes to count is newer than whatever its place has held under its value. -/
theorem put_mirror (h : Mirrors x now v w) (hcov : x.covers c = true)
    (hname : x.base.HasName c.name) (hp : x.place key c.name = .ok p)
    (hclive : c.isLive now = true) (hsup : ∀ o, v key c.name = some o → c.supersedes o = true) :
    w.put c.value (mirror p c) = w.set c.value (mirror p c) := by
  refine Ledger.put_eq_set fun i hi => mirror_supersedes ?_
  obtain ⟨o, ho, hbound⟩ := h.bounded key c p hcov hname hp c.value i hi
  exact Cell.lt_timestamp hclive (hsup o ho) hbound

/-- The mark of a deletion takes the place of a live cell's entry. -/
theorem tombstone_supersedes (h : Mirrors x now v w) (hcov : x.covers o = true)
    (ho : v key o.name = some o) (holive : o.isLive now = true) (hp : x.place key o.name = .ok p)
    {i : Cell} (hi : w o.value p = some i) :
    (Cell.tombstone p o.timestamp now).supersedes i = true := by
  obtain ⟨q, hq, hw⟩ := h.recorded key o.name o ho hcov holive
  cases hp.symm.trans hq
  cases hw.symm.trans hi
  exact tombstone_supersedes_mirror

/-- What a place may hold after a cell was replaced: the record of the new cell, the mark of the
old one's deletion, and what it held before under values that are not the old cell's. -/
theorem replace_at (h : Mirrors x now v w) (hx : x.RecordsValues) (hv : v.Named x.base)
    (hcov : x.covers c = true) (hname : x.base.HasName c.name)
    (hsup : ∀ o, v key c.name = some o → c.supersedes o = true) (hp : x.place key c.name = .ok p)
    (hout : ∀ value q, q ≠ p → w' value q = w value q)
    (hrec : c.isLive now = true → w' c.value p = some (mirror p c))
    (hplace : ∀ value i, w' value p = some i →
      (c.isLive now = true ∧ c.value = value ∧ i = mirror p c) ∨
      (i.isLive now = false ∧ ∃ o, v key c.name = some o ∧ o.value = value ∧
        i.timestamp = o.timestamp) ∨
      (w value p = some i ∧ ∀ o, v key c.name = some o → o.isLive now = true → o.value ≠ value)) :
    Mirrors x now (v.set key c) w' := by
  refine h.replace hx hv hcov hname ?_ (fun hclive => ⟨p, hp, hrec hclive⟩) ?_ ?_
  · intro value q hq
    refine hout value q fun heq => hq ?_
    rw [heq]
    exact hp
  · intro q value i hq hi hilive
    cases hp.symm.trans hq
    rcases hplace value i hi with hnew | ⟨hdead, -⟩ | ⟨hi, hvalues⟩
    · exact hnew
    · rw [hdead] at hilive
      cases hilive
    · obtain ⟨o, ho, holive, hvalue⟩ := h.live_at hx hv hcov hname hp hi hilive
      exact absurd hvalue (hvalues o ho holive)
  · intro q value i hq hi
    cases hp.symm.trans hq
    rcases hplace value i hi with ⟨-, rfl, rfl⟩ | ⟨-, o, ho, rfl, htime⟩ | ⟨hi, -⟩
    · exact Cell.ofValue_not_supersedes c.name c
    · rw [htime]
      exact Cell.not_supersedes_of_supersedes (Cell.ofValue_not_supersedes c.name o) (hsup o ho)
    · obtain ⟨o, ho, hbound⟩ := h.bounded key c p hcov hname hp value i hi
      exact Cell.not_supersedes_of_supersedes hbound (hsup o ho)

/-- A live cell is recorded, and no live cell with another value was there before. -/
theorem record (h : Mirrors x now v w) (hx : x.RecordsValues) (hv : v.Named x.base)
    (hcov : x.covers c = true) (hname : x.base.HasName c.name) (hclive : c.isLive now = true)
    (hsup : ∀ o, v key c.name = some o → c.supersedes o = true)
    (hsame : ∀ o, v key c.name = some o → o.isLive now = true → o.value = c.value)
    (hp : x.place key c.name = .ok p) :
    Mirrors x now (v.set key c) (w.put c.value (mirror p c)) := by
  rw [h.put_mirror hcov hname hp hclive hsup]
  have hnew : Ledger.set w c.value (mirror p c) c.value p = some (mirror p c) :=
    Ledger.set_self w c.value (mirror p c)
  refine h.replace_at hx hv hcov hname hsup hp ?_ (fun _ => hnew) ?_
  · exact fun value q hq => Ledger.set_of_ne w fun hk => hq hk.2
  · intro value i hi
    by_cases hvalue : c.value = value
    · subst hvalue
      cases hnew.symm.trans hi
      exact .inl ⟨hclive, rfl, rfl⟩
    · rw [Ledger.set_of_ne w fun hk => hvalue hk.1.symm] at hi
      exact .inr (.inr ⟨hi, fun o ho holive heq => hvalue ((hsame o ho holive).symm.trans heq)⟩)

/-- A live cell is replaced by one that is not live, and its entry is marked as deleted. -/
theorem remove (h : Mirrors x now v w) (hx : x.RecordsValues) (hv : v.Named x.base)
    (hcov : x.covers c = true) (hname : x.base.HasName c.name) (hdead : c.isLive now = false)
    (ho : v key c.name = some o) (holive : o.isLive now = true) (hs : c.supersedes o = true)
    (hp : x.place key c.name = .ok p) :
    Mirrors x now (v.set key c) (w.put o.value (.tombstone p o.timestamp now)) := by
  have hon : o.name = c.name := (hv key c.name o ho).1
  have hold : ∀ o', v key c.name = some o' → o' = o := fun o' ho' =>
    Option.some.inj (ho'.symm.trans ho)
  rw [Ledger.put_eq_set fun i hi =>
    h.tombstone_supersedes (x.covers_congr hon ▸ hcov) (hon ▸ ho) holive (hon ▸ hp) hi]
  refine h.replace_at hx hv hcov hname (fun o' ho' => hold o' ho' ▸ hs) hp ?_ ?_ ?_
  · exact fun value q hq => Ledger.set_of_ne w fun hk => hq hk.2
  · intro hclive
    rw [hdead] at hclive
    cases hclive
  · intro value i hi
    by_cases hvalue : o.value = value
    · subst hvalue
      cases (Ledger.set_self w o.value (.tombstone p o.timestamp now)).symm.trans hi
      exact .inr (.inl ⟨rfl, o, ho, rfl, rfl⟩)
    · rw [Ledger.set_of_ne w fun hk => hvalue hk.1.symm] at hi
      exact .inr (.inr ⟨hi, fun o' ho' _ => hold o' ho' ▸ hvalue⟩)

/-- A live cell is replaced by one with another value: that one is recorded first, and the entry
of the old one is then marked as deleted. -/
theorem move (h : Mirrors x now v w) (hx : x.RecordsValues) (hv : v.Named x.base)
    (hcov : x.covers c = true) (hname : x.base.HasName c.name) (hclive : c.isLive now = true)
    (ho : v key c.name = some o) (holive : o.isLive now = true) (hs : c.supersedes o = true)
    (hvalues : o.value ≠ c.value) (hp : x.place key c.name = .ok p) :
    Mirrors x now (v.set key c)
      ((w.put c.value (mirror p c)).put o.value (.tombstone p o.timestamp now)) := by
  have hon : o.name = c.name := (hv key c.name o ho).1
  have hold : ∀ o', v key c.name = some o' → o' = o := fun o' ho' =>
    Option.some.inj (ho'.symm.trans ho)
  have hsup : ∀ o', v key c.name = some o' → c.supersedes o' = true := fun o' ho' =>
    hold o' ho' ▸ hs
  rw [h.put_mirror hcov hname hp hclive hsup]
  -- The first write concerns another value, so the entry of the old cell is still there.
  rw [Ledger.put_eq_set fun i hi => h.tombstone_supersedes (x.covers_congr hon ▸ hcov) (hon ▸ ho)
    holive (hon ▸ hp) ((Ledger.set_of_ne w fun hk => hvalues hk.1).symm.trans hi)]
  have htomb : Ledger.set (w.set c.value (mirror p c)) o.value (.tombstone p o.timestamp now)
      o.value p = some (.tombstone p o.timestamp now) := Ledger.set_self _ _ _
  have hnew : Ledger.set (w.set c.value (mirror p c)) o.value (.tombstone p o.timestamp now)
      c.value p = some (mirror p c) :=
    (Ledger.set_of_ne _ fun hk => hvalues hk.1.symm).trans (Ledger.set_self w c.value (mirror p c))
  refine h.replace_at hx hv hcov hname hsup hp ?_ (fun _ => hnew) ?_
  · intro value r hr
    exact (Ledger.set_of_ne _ fun hk => hr hk.2).trans (Ledger.set_of_ne w fun hk => hr hk.2)
  · intro value i hi
    by_cases hvalue : o.value = value
    · subst hvalue
      cases htomb.symm.trans hi
      exact .inr (.inl ⟨rfl, o, ho, rfl, rfl⟩)
    · by_cases hvalue' : c.value = value
      · subst hvalue'
        cases hnew.symm.trans hi
        exact .inl ⟨hclive, rfl, rfl⟩
      · rw [Ledger.set_of_ne _ fun hk => hvalue hk.1.symm,
          Ledger.set_of_ne w fun hk => hvalue' hk.1.symm] at hi
        exact .inr (.inr ⟨hi, fun o' ho' _ => hold o' ho' ▸ hvalue⟩)

/-- A cell that the index does not cover is none of its business. -/
theorem uncovered (h : Mirrors x now v w) (hv : v.Named x.base) (hcov : x.covers c = false) :
    Mirrors x now (v.set key c) w where
  recorded := fun k name b hb hbcov hblive => by
    unfold Ledger.set at hb
    split at hb
    · cases hb
      rw [hcov] at hbcov
      cases hbcov
    · exact h.recorded k name b hb hbcov hblive
  recording := fun value p i hi hilive => by
    obtain ⟨k, name, b, hb, hbcov, hrest⟩ := h.recording value p i hi hilive
    refine ⟨k, name, b, ?_, hbcov, hrest⟩
    rw [Ledger.set_of_ne v ?_]
    · exact hb
    · rintro ⟨rfl, rfl⟩
      rw [x.covers_congr (hv k c.name b hb).1, hcov] at hbcov
      cases hbcov
  bounded := fun k d p hdcov hdname hdp value i hi => by
    rw [Ledger.set_of_ne v ?_]
    · exact h.bounded k d p hdcov hdname hdp value i hi
    · rintro ⟨rfl, heq⟩
      rw [x.covers_congr heq, hcov] at hdcov
      cases hdcov

/-- A cell that nobody sees replaces none or another such cell. -/
theorem unseen (h : Mirrors x now v w) (hx : x.RecordsValues) (hv : v.Named x.base)
    (hname : x.base.HasName c.name) (hdead : c.isLive now = false)
    (hold : ∀ o, v key c.name = some o → c.supersedes o = true ∧ o.isLive now = false) :
    Mirrors x now (v.set key c) w := by
  cases hcov : x.covers c with
  | false => exact h.uncovered hv hcov
  | true =>
    refine h.replace hx hv hcov hname (fun _ _ _ => rfl) ?_ ?_ ?_
    · intro hclive
      rw [hdead] at hclive
      cases hclive
    · intro p value i hp hi hilive
      obtain ⟨o, ho, holive, -⟩ := h.live_at hx hv hcov hname hp hi hilive
      rw [(hold o ho).2] at holive
      cases holive
    · intro p value i hp hi
      obtain ⟨o, ho, hbound⟩ := h.bounded key c p hcov hname hp value i hi
      exact Cell.not_supersedes_of_supersedes hbound (hold o ho).1

/-! ### All steps -/

/-- **A visible change**, with what the index does about it, keeps the invariant. -/
theorem visible (h : Mirrors x now v w) (hx : x.RecordsValues) (hv : v.Named x.base)
    (hcov : x.covers c = true) (hname : x.base.HasName c.name) {change : Cell.Change}
    (heff : c.effect now (v key c.name) = .visible change) (hw : Follows x now key change w w') :
    Mirrors x now (v.set key c) w' := by
  obtain ⟨hs, p, hp, hw⟩ := updates_of_follows hx hv heff hw
  cases hw with
  | record hlive hsame => exact h.record hx hv hcov hname hlive hs hsame hp
  | move ho hold hlive hvalues =>
    exact h.move hx hv hcov hname hlive ho hold (hs _ ho) hvalues hp
  | remove ho hold hdead => exact h.remove hx hv hcov hname hdead ho hold (hs _ ho) hp

/-- A truncation drops a cell and its entry together. -/
theorem discard (h : Mirrors x now v w) (timestamp : Int) :
    Mirrors x now (v.discard timestamp) (w.discard timestamp) where
  recorded := fun key name b hb hbcov hblive => by
    obtain ⟨hb, hnew⟩ := Option.filter_eq_some_iff.1 hb
    obtain ⟨p, hp, hw⟩ := h.recorded key name b hb hbcov hblive
    exact ⟨p, hp, Option.filter_eq_some_iff.2 ⟨hw, hnew⟩⟩
  recording := fun value p i hi hilive => by
    obtain ⟨hi, hnew⟩ := Option.filter_eq_some_iff.1 hi
    obtain ⟨key, name, b, hb, hbcov, hblive, hbp, hvalue, rfl⟩ := h.recording value p i hi hilive
    exact ⟨key, name, b, Option.filter_eq_some_iff.2 ⟨hb, hnew⟩, hbcov, hblive, hbp, hvalue, rfl⟩
  bounded := fun key c p hcov hname hp value i hi => by
    obtain ⟨hi, hnew⟩ := Option.filter_eq_some_iff.1 hi
    obtain ⟨b, hb, hbound⟩ := h.bounded key c p hcov hname hp value i hi
    refine ⟨b, Option.filter_eq_some_iff.2 ⟨hb, ?_⟩, hbound⟩
    have hle := Cell.timestamp_le_of_not_supersedes hbound
    simp only [Cell.ofValue, decide_eq_true_eq] at hle hnew ⊢
    omega

/-- A cell and its entry expire together. -/
theorem later (h : Mirrors x now v w) {later : Int} (hle : now ≤ later) :
    Mirrors x later v w where
  recorded := fun key name b hb hbcov hblive =>
    h.recorded key name b hb hbcov (Cell.isLive_of_later hle hblive)
  recording := fun value p i hi hilive => by
    obtain ⟨key, name, b, hb, hbcov, hblive, hbp, hvalue, rfl⟩ :=
      h.recording value p i hi (Cell.isLive_of_later hle hilive)
    exact ⟨key, name, b, hb, hbcov, isLive_of_mirror hblive hilive, hbp, hvalue, rfl⟩
  bounded := h.bounded

end Mirrors

/-! ### Runs -/

/-- The invariant of an index of values. -/
def Mirrors.invariant (x : SecondaryIndex) : IndexInvariant := fun now v _ w => Mirrors x now v w

theorem keptBySteps_mirrors {x : SecondaryIndex} (hx : x.RecordsValues) :
    KeptBySteps (Mirrors.invariant x) x where
  unseen := fun {now v log w key c} h hv hname heff => by
    obtain ⟨hold, hdead⟩ := Cell.of_unseen heff
    exact Mirrors.unseen h hx hv hname hdead hold
  uncovered := fun h hv _ hcov _ => Mirrors.uncovered h hv hcov
  covered := fun h hv hname hcov heff hw => Mirrors.visible h hx hv hcov hname heff hw
  discard := fun timestamp h => Mirrors.discard h timestamp
  later := fun hle h => Mirrors.later h hle

/-! ### Exactness -/

/-- The live cells of an index and those of its column correspond one to one: a live cell of the
column has, at its entry, a live cell with its timestamp that expires with it; there are no other
live cells in the index; and no two cells share one. -/
structure IndexExact (x : SecondaryIndex) (base index : TableStore) (now : Int) : Prop where
  recorded : ∀ key c, c ∈ base.liveCells now key → x.base.IsCellOf x.column c →
    ∃ e, x.entry key c = .ok e ∧
      ⟨e.cellName, [], c.timestamp, c.kind⟩ ∈ index.liveCells now e.partitionKey
  recording : ∀ value i, i ∈ index.liveCells now value →
    ∃ key c e, c ∈ base.liveCells now key ∧ x.base.IsCellOf x.column c ∧
      x.entry key c = .ok e ∧ e.partitionKey = value ∧ i = ⟨e.cellName, [], c.timestamp, c.kind⟩
  distinct : ∀ key key' c c' e e', c ∈ base.liveCells now key → c' ∈ base.liveCells now key' →
    x.base.IsCellOf x.column c → x.base.IsCellOf x.column c' → x.entry key c = .ok e →
    x.entry key' c' = .ok e' → e.cellName = e'.cellName → key = key' ∧ c = c'
  single : ∀ value, ((index.liveCells now value).map Cell.name).Nodup

theorem mirror_eq {p : Bytes} {c : Cell} {now : Int} (h : c.isLive now = true) :
    mirror p c = ⟨p, [], c.timestamp, c.kind⟩ := by
  obtain ⟨name, value, timestamp, kind⟩ := c
  cases kind <;> simp_all [mirror, entryCell, Cell.isLive]

/-- What the invariant says to readers. -/
theorem Mirrors.exact {x : SecondaryIndex} (hx : x.RecordsValues) (hresolved : x.IsResolved)
    (hcolumn : x.IsOnValueColumn) {base index : TableStore} {now : Int}
    (hbase : base.layers.WellFormed) (hindex : index.layers.WellFormed)
    (hv : Ledger.Named x.base base.get?) (h : Mirrors x now base.get? index.get?) :
    IndexExact x base index now where
  recorded := fun key c hc hof => by
    obtain ⟨hget, hlive⟩ := (TableStore.mem_liveCells hbase).1 hc
    have hcov := (SecondaryIndex.covers_iff_isCellOf hresolved hcolumn (hv _ _ _ hget).2).2 hof
    obtain ⟨p, hp, hw⟩ := h.recorded key c.name c hget hcov hlive
    refine ⟨⟨c.value, p⟩, (hx.entry_eq_ok key c _).2 ⟨rfl, hp⟩, ?_⟩
    rw [← mirror_eq hlive]
    exact (TableStore.mem_liveCells hindex).2 ⟨hw, mirror_isLive hlive⟩
  recording := fun value i hi => by
    obtain ⟨hget, hilive⟩ := (TableStore.mem_liveCells hindex).1 hi
    obtain ⟨key, name, b, hb, hcov, hlive, hp, rfl, hmirror⟩ :=
      h.recording value i.name i hget hilive
    obtain ⟨rfl, hname⟩ := hv key name b hb
    refine ⟨key, b, ⟨b.value, i.name⟩, (TableStore.mem_liveCells hbase).2 ⟨hb, hlive⟩,
      (SecondaryIndex.covers_iff_isCellOf hresolved hcolumn hname).1 hcov,
      (hx.entry_eq_ok key b _).2 ⟨rfl, hp⟩, rfl, ?_⟩
    rw [← mirror_eq hlive]
    exact hmirror
  distinct := fun key key' c c' e e' hc hc' hof hof' he he' heq => by
    obtain ⟨hget, -⟩ := (TableStore.mem_liveCells hbase).1 hc
    obtain ⟨hget', -⟩ := (TableStore.mem_liveCells hbase).1 hc'
    have hname := (hv _ _ _ hget).2
    have hname' := (hv _ _ _ hget').2
    have hp := ((hx.entry_eq_ok key c e).1 he).2
    have hp' := ((hx.entry_eq_ok key' c' e').1 he').2
    rw [heq] at hp
    obtain ⟨rfl, hsame⟩ := hx.place_injective key key' c c' _
      ((SecondaryIndex.covers_iff_isCellOf hresolved hcolumn hname).2 hof)
      ((SecondaryIndex.covers_iff_isCellOf hresolved hcolumn hname').2 hof') hname hname' hp hp'
    rw [hsame, hget'] at hget
    exact ⟨rfl, (Option.some.inj hget).symm⟩
  single := fun value =>
    (TableStore.read_names_nodup hindex value).sublist (List.filter_sublist.map Cell.name)

/-- **Exactness of indexes on values.**  Take an index on a regular or a static column, added
while its base table is empty.  After every run of writes, flushes, truncations and passing time,
the live cells of the index and those of the column correspond one to one. -/
theorem value_index_exact {schema : TableSchema} {column : String} {indexName : Option String}
    {x : SecondaryIndex} (hx : SecondaryIndex.ofColumn schema column indexName = .ok x)
    (hrole : schema.role? column = some .regular ∨ schema.role? column = some .static)
    {others indexes : IndexSet} (hadd : others.add x = .ok indexes) (now : Int)
    {steps : List DeploymentStep}
    (hnames : ∀ key mutation, .write key mutation ∈ steps → ∀ c ∈ mutation, schema.HasName c.name)
    {d : Deployment} (hrun : (Deployment.start schema indexes now).run steps = some d) :
    ∃ k, d.indexes.members.find? column = some k ∧ IndexExact x d.base k.store d.now := by
  obtain ⟨rfl, rfl, hresolved⟩ := SecondaryIndex.ofColumn_ok hx
  have hcolumn := SecondaryIndex.isOnValueColumn_of_role hresolved hrole
  have hrecords := SecondaryIndex.recordsValues_of_value_column hcolumn
  have h := (Tracks.start hadd now Mirrors.empty).run (keptBySteps_mirrors hrecords) hnames hrun
  obtain ⟨k, hk, hhealthy, -, hI⟩ := h.index
  exact ⟨k, hk, Mirrors.exact hrecords hresolved hcolumn h.base hhealthy.layers h.named hI⟩

/-! ### Levels that are corrected -/

/-- A level is read twice and corrected; the tables are flushed, and what is old is dropped. -/
def levelSteps : List DeploymentStep :=
  [.write [65] [reading "level" 49 1, reading "level" 50 2], .issueFlush .base {},
    .write [65] [reading "level" 51 3], .issueFlush (.index "level") {},
    .finishFlush .base ⟨0, ⟨0⟩⟩, .truncate 2, .wait 60]

theorem hasName_of_levelSteps : ∀ key mutation, .write key mutation ∈ levelSteps →
    ∀ c ∈ mutation, readings.HasName c.name := by
  intro key mutation hmem c hc
  simp only [levelSteps, List.mem_cons, DeploymentStep.write.injEq, reduceCtorEq, false_or,
    or_false, List.not_mem_nil] at hmem
  rcases hmem with ⟨-, rfl⟩ | ⟨-, rfl⟩
  · simp only [List.mem_cons, List.not_mem_nil, or_false] at hc
    rcases hc with rfl | rfl <;> exact hasName_level
  · cases List.mem_singleton.1 hc
    exact hasName_level

/-- The corrected level is the one that counts, and the index has it alone. -/
theorem value_index_exact_of_levels :
    SecondaryIndex.ofColumn readings "level" none = .ok readingsByLevel ∧
      readings.role? "level" = some .regular ∧
      ∃ d k, (Deployment.ofReadings readingsByLevel).run levelSteps = some d ∧
        d.indexes.members.find? "level" = some k ∧
        d.base.liveCells d.now [65] = [reading "level" 51 3] ∧
        IndexExact readingsByLevel d.base k.store d.now := by
  have hlive : ((Deployment.ofReadings readingsByLevel).run levelSteps).map
      (fun d => d.base.liveCells d.now [65]) = some [reading "level" 51 3] := by decide +kernel
  obtain ⟨d, hrun, hd⟩ := Option.map_eq_some_iff.1 hlive
  have hadd : IndexSet.add {} readingsByLevel =
      .ok { members := [("level", .ofIndex readingsByLevel)] } := rfl
  obtain ⟨k, hk, hexact⟩ :=
    value_index_exact readingsByLevel_ofColumn (.inl rfl) hadd 0 hasName_of_levelSteps hrun
  exact ⟨readingsByLevel_ofColumn, rfl, d, k, hrun, hk, hd, hexact⟩

end WideColumn
