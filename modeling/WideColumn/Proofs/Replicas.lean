import WideColumn.Proofs.Deployments

/-!
# Replicas of a table

Two copies of a table get the same writes of single cells, each in an order of its own.  A copy
keeps of the cells of one name the newest, and of those that tie for the newest the one that came
first.  Cells that tie agree in all that readers see but their expiry, so the copies can differ in
that alone.

* `receiveAll_ok` — every delivery of writes that fit succeeds, and which cells it leaves;
* `newest_content_congr` — the newest cell in any order, up to its expiry;
* `replicas_agree_iff` — **when two replicas agree**: always in the content of their cells, and in
  the cells themselves if and only if no two different cells tie for the newest;
* `replicas_differ` — two cells that tie, and two copies that keep different ones.
-/

namespace WideColumn

open Effects

/-! ### Writes and their delivery -/

/-- A cell that is written to a partition. -/
structure CellWrite where
  key : Bytes
  cell : Cell
deriving DecidableEq, Repr

/-- A write that reaches a copy of the table, at some time of the copy's clock. -/
structure Delivery where
  write : CellWrite
  now : Int
deriving DecidableEq, Repr

/-- The write as it reaches a copy whose clock stands at zero. -/
def CellWrite.delivered (w : CellWrite) : Delivery := ⟨w, 0⟩

theorem map_write_delivered (writes : List CellWrite) :
    (writes.map CellWrite.delivered).map Delivery.write = writes := by
  rw [List.map_map]
  exact List.map_id writes

/-- The key and the name of the cell can be unpacked in the table's layout. -/
structure TableSchema.Admits (s : TableSchema) (w : CellWrite) : Prop where
  key : ∃ parts, s.keyLayout.decode w.key = .ok parts
  name : ∃ parts, s.cellLayout.decode w.cell.name = .ok parts

/-- The cells that are written under a name of a partition, in order. -/
def cellsWritten (writes : List CellWrite) (key name : Bytes) : List (Option Cell) :=
  (writes.filter fun w => w.key = key ∧ w.cell.name = name).map fun w => some w.cell

theorem mem_cellsWritten {writes : List CellWrite} {key name : Bytes} {c : Cell} :
    some c ∈ cellsWritten writes key name ↔ ⟨key, c⟩ ∈ writes ∧ c.name = name := by
  simp only [cellsWritten, List.mem_map, List.mem_filter, decide_eq_true_eq, Option.some.injEq]
  constructor
  · rintro ⟨⟨k, d⟩, ⟨hmem, rfl, rfl⟩, rfl⟩
    exact ⟨hmem, rfl⟩
  · rintro ⟨hmem, rfl⟩
    exact ⟨_, ⟨hmem, rfl, rfl⟩, rfl⟩

theorem cellsWritten_cons_self (w : CellWrite) (rest : List CellWrite) :
    cellsWritten (w :: rest) w.key w.cell.name =
      some w.cell :: cellsWritten rest w.key w.cell.name := by
  simp [cellsWritten]

namespace TableStore

/-- The copy after a write has reached it. -/
def receive (s : TableStore) (d : Delivery) : Except EngineError TableStore :=
  s.write d.now d.write.key [d.write.cell]

/-- The copy after writes have reached it, in this order. -/
def receiveAll (s : TableStore) (deliveries : List Delivery) : Except EngineError TableStore :=
  deliveries.foldlM receive s

/-- One more cell is reconciled with the one that counted. -/
theorem receive_ok {s : TableStore} (h : s.layers.WellFormed) (hvalid : s.isInvalidated = false)
    {d : Delivery} (hd : s.schema.Admits d.write) :
    ∃ s', s.receive d = .ok s' ∧ s'.layers.WellFormed ∧ s'.schema = s.schema ∧
      s'.isInvalidated = false ∧ s'.get? = Ledger.put s.get? d.write.key d.write.cell := by
  have hcheck : s.checkWrite d.write.key [d.write.cell] = .ok () :=
    checkWrite_eq_ok.2 ⟨hvalid, hd.key, by simpa using hd.name⟩
  have hwrite : s.receive d = .ok (s.written d.now d.write.key [d.write.cell]) :=
    write_eq_ok hcheck
  obtain ⟨hwf, hget⟩ := write_ok h hwrite
  exact ⟨_, hwrite, hwf, rfl, hvalid, hget⟩

/-- **Every delivery succeeds**, and the cell that counts is reconciled with all that came, one
after the other. -/
theorem receiveAll_ok {s : TableStore} (h : s.layers.WellFormed)
    (hvalid : s.isInvalidated = false) {deliveries : List Delivery}
    (hall : ∀ d ∈ deliveries, s.schema.Admits d.write) :
    ∃ s', s.receiveAll deliveries = .ok s' ∧ s'.layers.WellFormed ∧ s'.schema = s.schema ∧
      ∀ key name, s'.get? key name =
        (cellsWritten (deliveries.map Delivery.write) key name).foldl Layers.reconcile
          (s.get? key name) := by
  induction deliveries generalizing s with
  | nil => exact ⟨s, rfl, h, rfl, fun _ _ => rfl⟩
  | cons d rest ih =>
    obtain ⟨s₁, hfirst, hwf, hschema, hvalid₁, hget⟩ := receive_ok h hvalid
      (hall d List.mem_cons_self)
    obtain ⟨s', hrest, hwf', hschema', hget'⟩ := ih hwf hvalid₁ fun e he =>
      hschema ▸ hall e (List.mem_cons_of_mem _ he)
    refine ⟨s', ?_, hwf', hschema'.trans hschema, fun key name => ?_⟩
    · show (s.receive d >>= fun s₁ => s₁.receiveAll rest) = _
      rw [hfirst]
      exact hrest
    · rw [hget', hget]
      unfold Ledger.put
      by_cases hw : key = d.write.key ∧ name = d.write.cell.name
      · obtain ⟨rfl, rfl⟩ := hw
        rw [if_pos ⟨rfl, rfl⟩, List.map_cons, cellsWritten_cons_self, List.foldl_cons]
      · have hskip : cellsWritten ((d :: rest).map Delivery.write) key name =
            cellsWritten (rest.map Delivery.write) key name := by
          have hne : ¬ (d.write.key = key ∧ d.write.cell.name = name) :=
            fun heq => hw ⟨heq.1.symm, heq.2.symm⟩
          simp [cellsWritten, hne]
        rw [if_neg hw, hskip]

/-- What an empty table holds after a delivery. -/
theorem receiveAll_ofSchema (schema : TableSchema) {deliveries : List Delivery}
    (hall : ∀ d ∈ deliveries, schema.Admits d.write) :
    ∃ s, (ofSchema schema).receiveAll deliveries = .ok s ∧ s.layers.WellFormed ∧
      s.schema = schema ∧ ∀ key name, s.get? key name =
        newest (cellsWritten (deliveries.map Delivery.write) key name) :=
  receiveAll_ok Layers.WellFormed.empty rfl hall

end TableStore

/-! ### What readers see of a cell -/

/-- What a cell holds apart from its expiry, or from when its deletion was noted. -/
structure CellContent where
  name : Bytes
  value : Bytes
  timestamp : Int
  isTombstone : Bool
deriving DecidableEq, Repr

/-- The content of a cell. -/
def Cell.content (c : Cell) : CellContent := ⟨c.name, c.value, c.timestamp, c.isTombstone⟩

/-- Cells of one name that tie have one content. -/
theorem Cell.content_eq_of_tie {c d : Cell} (hname : c.name = d.name)
    (hcd : c.supersedes d = false) (hdc : d.supersedes c = false) : c.content = d.content := by
  obtain ⟨htime, hvalue, hmark⟩ := Cell.not_supersedes_iff.1 ⟨hcd, hdc⟩
  unfold Cell.content
  rw [hname, htime, hvalue, hmark]

/-- **The newest cell in any order**, up to its expiry. -/
theorem newest_content_congr {a b : List (Option Cell)} (h : ∀ c, some c ∈ a ↔ some c ∈ b)
    (hnames : ∀ c d, some c ∈ a → some d ∈ a → c.name = d.name) :
    (newest a).map Cell.content = (newest b).map Cell.content := by
  cases ha : newest a with
  | none =>
    have hb : newest b = none :=
      newest_eq_none_iff.2 fun c hc => newest_eq_none_iff.1 ha c ((h c).2 hc)
    rw [hb]
  | some c =>
    have hc := newest_mem ha
    cases hb : newest b with
    | none => exact absurd ((h c).1 hc) (newest_eq_none_iff.1 hb c)
    | some d =>
      have hd := (h d).2 (newest_mem hb)
      exact congrArg some (Cell.content_eq_of_tie (hnames c d hc hd)
        (not_supersedes_newest hb ((h c).1 hc)) (not_supersedes_newest ha hd))

/-! ### Reads of two copies -/

/-- Copies whose look-ups agree in some respect agree in it in all reads, if it tells the names of
cells. -/
theorem TableStore.read_map_congr {β : Type} {f : Cell → β} (nameOf : β → Bytes)
    (hname : ∀ c, nameOf (f c) = c.name) {s s' : TableStore} (h : s.layers.WellFormed)
    (h' : s'.layers.WellFormed) (hschema : s.schema = s'.schema) {key : Bytes}
    (hget : ∀ name, (s.get? key name).map f = (s'.get? key name).map f) :
    (s.read key).map f = (s'.read key).map f := by
  have hparts : Bindings.mapValues f (s.layers.partition key) =
      Bindings.mapValues f (s'.layers.partition key) := by
    refine (Bindings.mapValues_sorted f (h.partition key).sorted).ext
      (Bindings.mapValues_sorted f (h'.partition key).sorted) fun name => ?_
    rw [Bindings.find?_mapValues, Bindings.find?_mapValues, Layers.find?_partition h,
      Layers.find?_partition h']
    exact hget name
  have hvalues : ∀ p : Partition, p.values.map f = (Bindings.mapValues f p).map Prod.snd := by
    intro p
    simp [Bindings.values, Bindings.mapValues]
  have hsort : ∀ cells : List Cell, (s.sorted cells).map f =
      sortBy (fun a b => s.schema.cellLayout.order (nameOf a) (nameOf b)) (cells.map f) :=
    fun cells => sortBy_map (fun a b => by rw [hname, hname]) cells
  have hsort' : s'.sorted = s.sorted := by
    unfold TableStore.sorted
    rw [hschema]
  unfold TableStore.read
  rw [hsort', hsort, hsort, hvalues, hvalues, hparts]

/-! ### When replicas agree -/

/-- A cell written to a partition that no other cell written under its name supersedes. -/
structure IsNewest (writes : List CellWrite) (key : Bytes) (c : Cell) : Prop where
  written : ⟨key, c⟩ ∈ writes
  unbeaten : ∀ d, ⟨key, d⟩ ∈ writes → d.name = c.name → d.supersedes c = false

/-- A cell that came first and that no other one supersedes stays. -/
theorem newest_of_first {writes : List CellWrite} {key : Bytes} {c : Cell}
    (h : IsNewest writes key c) :
    newest (cellsWritten (⟨key, c⟩ :: writes.erase ⟨key, c⟩) key c.name) = some c := by
  rw [cellsWritten_cons_self ⟨key, c⟩]
  refine newest_cons_of_unbeaten fun d hd => ?_
  obtain ⟨hmem, hname⟩ := mem_cellsWritten.1 hd
  exact h.unbeaten d (List.mem_of_mem_erase hmem) hname

/-- Both copies of an empty table take the writes, and all their reads agree in some respect. -/
def CopiesAgree {β : Type} (schema : TableSchema) (f : Cell → β)
    (deliveries deliveries' : List Delivery) : Prop :=
  ∃ s s', (TableStore.ofSchema schema).receiveAll deliveries = .ok s ∧
    (TableStore.ofSchema schema).receiveAll deliveries' = .ok s' ∧
    ∀ key, (s.read key).map f = (s'.read key).map f

/-- Deliveries of all the writes, each once and at any times. -/
def IsDeliveryOf (writes : List CellWrite) (deliveries : List Delivery) : Prop :=
  (deliveries.map Delivery.write).Perm writes

theorem IsDeliveryOf.admits {schema : TableSchema} {writes : List CellWrite}
    {deliveries : List Delivery} (h : IsDeliveryOf writes deliveries)
    (hall : ∀ w ∈ writes, schema.Admits w) : ∀ d ∈ deliveries, schema.Admits d.write :=
  fun _ hd => hall _ (h.mem_iff.1 (List.mem_map_of_mem hd))

theorem IsDeliveryOf.mem_iff {writes : List CellWrite} {deliveries : List Delivery}
    (h : IsDeliveryOf writes deliveries) {key name : Bytes} {c : Cell} :
    some c ∈ cellsWritten (deliveries.map Delivery.write) key name ↔
      some c ∈ cellsWritten writes key name := by
  rw [mem_cellsWritten, mem_cellsWritten, List.Perm.mem_iff h]

theorem IsDeliveryOf.isNewest {writes : List CellWrite} {deliveries : List Delivery}
    (h : IsDeliveryOf writes deliveries) {key name : Bytes} {c : Cell}
    (hc : newest (cellsWritten (deliveries.map Delivery.write) key name) = some c) :
    IsNewest writes key c ∧ c.name = name := by
  obtain ⟨hmem, hname⟩ := mem_cellsWritten.1 (h.mem_iff.1 (newest_mem hc))
  refine ⟨⟨hmem, fun d hd hdn => ?_⟩, hname⟩
  exact not_supersedes_newest hc (h.mem_iff.2 (mem_cellsWritten.2 ⟨hd, hdn.trans hname⟩))

/-- Two deliveries leave the same cells if no two different ones tie for the newest. -/
theorem IsDeliveryOf.newest_eq {writes : List CellWrite} {deliveries deliveries' : List Delivery}
    (h : IsDeliveryOf writes deliveries) (h' : IsDeliveryOf writes deliveries')
    (hties : ∀ key c d, IsNewest writes key c → IsNewest writes key d → c.name = d.name → c = d)
    (key name : Bytes) :
    newest (cellsWritten (deliveries.map Delivery.write) key name) =
      newest (cellsWritten (deliveries'.map Delivery.write) key name) := by
  have hmem : ∀ c, some c ∈ cellsWritten (deliveries.map Delivery.write) key name ↔
      some c ∈ cellsWritten (deliveries'.map Delivery.write) key name := fun c => by
    rw [h.mem_iff, h'.mem_iff]
  cases ha : newest (cellsWritten (deliveries.map Delivery.write) key name) with
  | none =>
    exact (newest_eq_none_iff.2 fun c hc => newest_eq_none_iff.1 ha c ((hmem c).2 hc)).symm
  | some c =>
    cases hb : newest (cellsWritten (deliveries'.map Delivery.write) key name) with
    | none => exact absurd ((hmem c).1 (newest_mem ha)) (newest_eq_none_iff.1 hb c)
    | some d =>
      obtain ⟨hc, hcn⟩ := h.isNewest ha
      obtain ⟨hd, hdn⟩ := h'.isNewest hb
      rw [hties key c d hc hd (hcn.trans hdn.symm)]

/-- Copies agree if their newest cells do. -/
theorem copiesAgree_of_newest {β : Type} {schema : TableSchema} {f : Cell → β} (nameOf : β → Bytes)
    (hname : ∀ c, nameOf (f c) = c.name) {deliveries deliveries' : List Delivery}
    (hall : ∀ d ∈ deliveries, schema.Admits d.write)
    (hall' : ∀ d ∈ deliveries', schema.Admits d.write)
    (h : ∀ key name, (newest (cellsWritten (deliveries.map Delivery.write) key name)).map f =
      (newest (cellsWritten (deliveries'.map Delivery.write) key name)).map f) :
    CopiesAgree schema f deliveries deliveries' := by
  obtain ⟨s, hs, hwf, hschema, hget⟩ := TableStore.receiveAll_ofSchema schema hall
  obtain ⟨s', hs', hwf', hschema', hget'⟩ := TableStore.receiveAll_ofSchema schema hall'
  refine ⟨s, s', hs, hs', fun key => TableStore.read_map_congr nameOf hname hwf hwf'
    (hschema.trans hschema'.symm) fun name => ?_⟩
  rw [hget, hget']
  exact h key name

/-- A cell that no other one supersedes is read if it came first. -/
theorem mem_read_of_first {schema : TableSchema} {writes : List CellWrite}
    (hall : ∀ w ∈ writes, schema.Admits w) {key : Bytes} {c : Cell} (h : IsNewest writes key c) :
    ∃ deliveries s, IsDeliveryOf writes deliveries ∧
      (TableStore.ofSchema schema).receiveAll deliveries = .ok s ∧ s.layers.WellFormed ∧
      c ∈ s.read key := by
  have hdelivers : IsDeliveryOf writes
      ((⟨key, c⟩ :: writes.erase ⟨key, c⟩).map CellWrite.delivered) := by
    unfold IsDeliveryOf
    rw [map_write_delivered]
    exact (List.perm_cons_erase h.written).symm
  obtain ⟨s, hs, hwf, -, hget⟩ := TableStore.receiveAll_ofSchema schema (hdelivers.admits hall)
  refine ⟨_, s, hdelivers, hs, hwf, (TableStore.mem_read hwf).2 ?_⟩
  rw [hget, map_write_delivered]
  exact newest_of_first h

/-- **When replicas agree.**  Take any writes that fit a table, and any two orders in which they
reach two empty copies of it.  The copies always agree in the content of their cells.  They agree in
the cells themselves, whatever the orders, if and only if no two different cells tie for the
newest of their name. -/
theorem replicas_agree_iff {schema : TableSchema} {writes : List CellWrite}
    (hall : ∀ w ∈ writes, schema.Admits w) :
    (∀ deliveries deliveries', IsDeliveryOf writes deliveries → IsDeliveryOf writes deliveries' →
      CopiesAgree schema Cell.content deliveries deliveries') ∧
    ((∀ deliveries deliveries', IsDeliveryOf writes deliveries → IsDeliveryOf writes deliveries' →
        CopiesAgree schema id deliveries deliveries') ↔
      ∀ key c d, IsNewest writes key c → IsNewest writes key d → c.name = d.name → c = d) := by
  refine ⟨fun ds ds' hds hds' => ?_, fun h key c d hc hd hname => ?_, fun h ds ds' hds hds' => ?_⟩
  · refine copiesAgree_of_newest CellContent.name (fun _ => rfl) (hds.admits hall)
      (hds'.admits hall) fun key name => newest_content_congr (fun c => ?_) fun c d hc hd => ?_
    · rw [hds.mem_iff, hds'.mem_iff]
    · exact (mem_cellsWritten.1 hc).2.trans (mem_cellsWritten.1 hd).2.symm
  · obtain ⟨ds, s, hds, hs, hwf, hread⟩ := mem_read_of_first hall hc
    obtain ⟨ds', s', hds', hs', hwf', hread'⟩ := mem_read_of_first hall hd
    obtain ⟨s₁, s₁', hs₁, hs₁', hagree⟩ := h ds ds' hds hds'
    cases hs.symm.trans hs₁
    cases hs'.symm.trans hs₁'
    have hsame : s.read key = s'.read key := by simpa using hagree key
    rw [hsame] at hread
    have hget := (TableStore.mem_read hwf').1 hread
    rw [hname, (TableStore.mem_read hwf').1 hread'] at hget
    exact (Option.some.inj hget).symm
  · refine copiesAgree_of_newest Cell.name (fun _ => rfl) (hds.admits hall)
      (hds'.admits hall) fun key name => ?_
    rw [hds.newest_eq hds' h]

/-! ### Notes that expire -/

/-- A note on river 65 that is written at one time and expires after another. -/
def expiringNote (timestamp : Int) (ttl : UInt32) : CellWrite :=
  ⟨[65], .expiring (readingName "note") [97] timestamp ttl 0⟩

theorem admits_expiringNote (timestamp : Int) (ttl : UInt32) :
    readings.Admits (expiringNote timestamp ttl) where
  key := ⟨[[65]], rfl⟩
  name := ⟨_, CellLayout.decode_of_encode (hasName_note).choose_spec⟩

/-- The later of two notes is newest, so copies keep it in whichever order the notes come. -/
theorem replicas_agree_of_later_note :
    (∀ w ∈ [expiringNote 1 10, expiringNote 2 20], readings.Admits w) ∧
      CopiesAgree readings id [⟨expiringNote 1 10, 0⟩, ⟨expiringNote 2 20, 0⟩]
        [⟨expiringNote 2 20, 5⟩, ⟨expiringNote 1 10, 7⟩] := by
  have hall : ∀ w ∈ [expiringNote 1 10, expiringNote 2 20], readings.Admits w := by
    intro w hw
    simp only [List.mem_cons, List.not_mem_nil, or_false] at hw
    rcases hw with rfl | rfl <;> exact admits_expiringNote _ _
  have hlater : ∀ key c, IsNewest [expiringNote 1 10, expiringNote 2 20] key c →
      c = (expiringNote 2 20).cell := by
    intro key c hc
    have hwritten := hc.written
    simp only [expiringNote, List.mem_cons, CellWrite.mk.injEq, List.not_mem_nil, or_false]
      at hwritten
    rcases hwritten with ⟨rfl, rfl⟩ | ⟨rfl, rfl⟩
    · have hbeaten := hc.unbeaten (expiringNote 2 20).cell (by simp [expiringNote]) rfl
      exact absurd hbeaten (by decide)
    · rfl
  refine ⟨hall, (replicas_agree_iff hall).2.2 (fun key c d hc hd _ => ?_) _ _ (.refl _)
    (.swap _ _ _)⟩
  rw [hlater key c hc, hlater key d hd]

/-- **Two copies that differ.**  Two notes have one time and one value and expire at different
times: neither supersedes the other, and each copy keeps the one that came first. -/
theorem replicas_differ :
    readingsDefinition.compile = .ok readings ∧
      (∀ w ∈ [expiringNote 1 10, expiringNote 1 20], readings.Admits w) ∧
      IsDeliveryOf [expiringNote 1 10, expiringNote 1 20]
        [⟨expiringNote 1 10, 0⟩, ⟨expiringNote 1 20, 0⟩] ∧
      IsDeliveryOf [expiringNote 1 10, expiringNote 1 20]
        [⟨expiringNote 1 20, 0⟩, ⟨expiringNote 1 10, 0⟩] ∧
      ¬ CopiesAgree readings id [⟨expiringNote 1 10, 0⟩, ⟨expiringNote 1 20, 0⟩]
        [⟨expiringNote 1 20, 0⟩, ⟨expiringNote 1 10, 0⟩] := by
  refine ⟨readings_compile, ?_, .refl _, .swap _ _ _, ?_⟩
  · intro w hw
    simp only [List.mem_cons, List.not_mem_nil, or_false] at hw
    rcases hw with rfl | rfl <;> exact admits_expiringNote _ _
  · rintro ⟨s, s', hs, hs', hagree⟩
    have hread : ((TableStore.ofSchema readings).receiveAll
        [⟨expiringNote 1 10, 0⟩, ⟨expiringNote 1 20, 0⟩]).map (·.read [65]) =
        .ok [(expiringNote 1 10).cell] := by decide +kernel
    have hread' : ((TableStore.ofSchema readings).receiveAll
        [⟨expiringNote 1 20, 0⟩, ⟨expiringNote 1 10, 0⟩]).map (·.read [65]) =
        .ok [(expiringNote 1 20).cell] := by decide +kernel
    rw [hs] at hread
    rw [hs'] at hread'
    have hcells : s.read [65] = [(expiringNote 1 10).cell] := Except.ok.inj hread
    have hcells' : s'.read [65] = [(expiringNote 1 20).cell] := Except.ok.inj hread'
    have hkey := hagree [65]
    rw [hcells, hcells'] at hkey
    exact absurd hkey (by decide)

end WideColumn
