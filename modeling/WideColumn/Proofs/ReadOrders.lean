import WideColumn.Proofs.Deployments
import WideColumn.Proofs.PendingFlushes
import WideColumn.Proofs.ReversedComparisons

/-!
# The order of reads

A read sorts the cells of a partition by the comparison of their names.  Sorting gives what it
promises if the comparison is transitive, and that depends on the names which are stored: a table
takes every name that it can unpack, be its values valid or not, and decimals whose scales are far
apart are compared byte by byte.

* `sortBy_pairwise_of_preorder` — items that the comparison preorders are sorted;
* `CellLayout.properParts_preorder` — names with valid values are preordered, unless decimals are
  among them;
* `CellLayout.InOrder`, `CellLayout.Cyclic` — cells in order, and cells that cannot be put in order;
* `reads_in_order` — **where the names are compared transitively, reads and scans come out in
  order**; where no two names are equal, reads are in order if and only if no three names run in a
  circle;
* `reads_out_of_order` — a read of valid decimals that is not in order.
-/

namespace WideColumn

open Effects

/-! ### Sorting what is preordered -/

theorem sortBy_pairwise_of_preorder {α : Type} {p : α → Prop} {order : α → α → Ordering}
    (h : PreorderOn p order) {items : List α} (hitems : ∀ a ∈ items, p a) :
    (sortBy order items).Pairwise fun a b => order a b ≠ .gt := by
  have hsorted := @sortBy_pairwise {a // p a} (fun a b => order a b)
    (fun a b hnot hgt => ?_) (fun a b c hab hbc => ?_) (items.attachWith p hitems)
  · rw [← List.attachWith_map_subtype_val (l := items) hitems,
      ← sortBy_map (f := Subtype.val) fun _ _ => rfl]
    exact List.pairwise_map.2 hsorted
  · rw [h.swap a b a.2 b.2] at hgt
    cases hab : order a b <;> simp_all
  · have htrans := h.trans a b c a.2 b.2 c.2
    simp_all [Ordering.isLE_iff_ne_gt]

namespace CellLayout

variable {layout : CellLayout} {cells : List Cell}

/-! ### Names with valid values -/

/-- The name has parts, and the values among them are valid. -/
def HasProperParts (layout : CellLayout) (packed : Bytes) : Prop :=
  ∃ name, layout.decode packed = .ok name ∧ layout.IsProper name

theorem properParts_of_isPacked {packed : Bytes} (h : layout.IsPacked packed) :
    layout.HasProperParts packed := by
  obtain ⟨name, hname, hcolumn⟩ := h
  exact ⟨_, decode_of_encode hname, isProper_of_encode hname hcolumn⟩

/-- **Names with valid values are preordered**, unless decimals are among them, whether they were
packed or not. -/
theorem properParts_preorder (h : layout.AvoidsDecimals) :
    PreorderOn layout.HasProperParts layout.order :=
  (logicalOrder_preorder h).of_related (fun packed name => layout.decode packed = .ok name)
    (fun _ ⟨name, hname, hproper⟩ => ⟨name, hproper, hname⟩)
    fun _ _ _ _ hm hn => order_of_decode hm hn

/-! ### Cells in order -/

/-- No cell comes before a smaller one. -/
def InOrder (layout : CellLayout) (cells : List Cell) : Prop :=
  cells.Pairwise fun a b => layout.order a.name b.name ≠ .gt

instance : Decidable (layout.InOrder cells) :=
  inferInstanceAs (Decidable (cells.Pairwise fun a b => layout.order a.name b.name ≠ .gt))

/-- The names of the cells are compared transitively. -/
def Transitive (layout : CellLayout) (cells : List Cell) : Prop :=
  ∀ a ∈ cells, ∀ b ∈ cells, ∀ c ∈ cells, layout.order a.name b.name ≠ .gt →
    layout.order b.name c.name ≠ .gt → layout.order a.name c.name ≠ .gt

/-- Three of the cells run in a circle: each comes before the next one, and the last before the
first. -/
def Cyclic (layout : CellLayout) (cells : List Cell) : Prop :=
  ∃ a ∈ cells, ∃ b ∈ cells, ∃ c ∈ cells, layout.order a.name b.name = .lt ∧
    layout.order b.name c.name = .lt ∧ layout.order c.name a.name = .lt

theorem order_self (layout : CellLayout) (a : Bytes) : layout.order a a = .eq := by
  have hswap := layout.order_swap a a
  cases ha : layout.order a a <;> simp_all

/-- Where it is transitive, the comparison is a preorder. -/
theorem Transitive.preorder (h : layout.Transitive cells) :
    PreorderOn (· ∈ cells) fun a b => layout.order a.name b.name where
  self a _ := layout.order_self a.name
  swap a b _ _ := layout.order_swap a.name b.name
  trans a b c ha hb hc hab hbc := by
    rw [Ordering.isLE_iff_ne_gt] at hab hbc ⊢
    exact h a ha b hb c hc hab hbc

/-- Of cells in order the smaller one comes first. -/
theorem InOrder.lt_of_order_lt (h : layout.InOrder cells) {i j : Nat} (hi : i < cells.length)
    (hj : j < cells.length) (hlt : layout.order cells[i].name cells[j].name = .lt) : i < j := by
  rcases Nat.lt_trichotomy i j with hij | rfl | hji
  · exact hij
  · rw [order_self] at hlt
    cases hlt
  · have hle := List.pairwise_iff_getElem.1 h j i hj hi hji
    rw [layout.order_swap, hlt] at hle
    exact absurd rfl hle

/-- **Cells that run in a circle are never in order.** -/
theorem InOrder.not_cyclic (h : layout.InOrder cells) : ¬layout.Cyclic cells := by
  rintro ⟨a, ha, b, hb, c, hc, hab, hbc, hca⟩
  obtain ⟨i, hi, rfl⟩ := List.mem_iff_getElem.1 ha
  obtain ⟨j, hj, rfl⟩ := List.mem_iff_getElem.1 hb
  obtain ⟨k, hk, rfl⟩ := List.mem_iff_getElem.1 hc
  have hij := h.lt_of_order_lt hi hj hab
  have hjk := h.lt_of_order_lt hj hk hbc
  have hki := h.lt_of_order_lt hk hi hca
  omega

/-- Without a circle, cells of which no two are equal are compared transitively. -/
theorem transitive_of_not_cyclic
    (hapart : ∀ a ∈ cells, ∀ b ∈ cells, layout.order a.name b.name = .eq → a = b)
    (h : ¬layout.Cyclic cells) : layout.Transitive cells := by
  have hsmaller {a b : Cell} (ha : a ∈ cells) (hb : b ∈ cells)
      (hle : layout.order a.name b.name ≠ .gt) : a = b ∨ layout.order a.name b.name = .lt := by
    cases hab : layout.order a.name b.name with
    | lt => exact .inr rfl
    | eq => exact .inl (hapart a ha b hb hab)
    | gt => exact absurd hab hle
  intro a ha b hb c hc hab hbc hac
  rcases hsmaller ha hb hab with rfl | hlt
  · exact hbc hac
  · rcases hsmaller hb hc hbc with rfl | hlt'
    · exact hab hac
    · refine h ⟨a, ha, b, hb, c, hc, hlt, hlt', ?_⟩
      rw [layout.order_swap, hac]
      rfl

end CellLayout

/-! ### Reads -/

namespace TableStore

/-- Cells that the comparison preorders are read in order. -/
theorem read_inOrder (s : TableStore) (key : Bytes) {p : Cell → Prop}
    (h : PreorderOn p fun a b => s.schema.cellLayout.order a.name b.name)
    (hcells : ∀ c ∈ s.read key, p c) : s.schema.cellLayout.InOrder (s.read key) :=
  sortBy_pairwise_of_preorder h fun c hc => hcells c ((sortBy_perm _ _).mem_iff.2 hc)

end TableStore

/-- **Reads come out in order where names are compared transitively.**  At any time in the life of a
table: if the names in a partition are compared transitively, its cells are read in order; so it is
if their parts are valid values, and no decimals are among these.  A partition that is read in order
has no three names that run in a circle, and if no two of its names are equal, this is enough.  A
scan reads one partition after the other and has the cells of each as a read has them. -/
theorem reads_in_order {σ : Type} {schema : TableSchema} {steps : List (ServedStep σ)}
    {t : ServedTable} (hreached : (ServedTable.ofSchema schema).run steps = some t) (key : Bytes) :
    let layout := t.store.schema.cellLayout
    let cells := t.store.read key
    (layout.Transitive cells → layout.InOrder cells) ∧
    (layout.AvoidsDecimals → (∀ c ∈ cells, layout.HasProperParts c.name) → layout.InOrder cells) ∧
    (layout.InOrder cells → ¬layout.Cyclic cells) ∧
    ((∀ a ∈ cells, ∀ b ∈ cells, layout.order a.name b.name = .eq → a = b) →
      (layout.InOrder cells ↔ ¬layout.Cyclic cells)) ∧
    (t.store.scan.filter fun b => b.1 = key).map Prod.snd = cells ∧
    t.store.scan = (t.store.layers.merged.map Prod.fst).flatMap fun k =>
      (t.store.read k).map (k, ·) := by
  intro layout cells
  have hwf : t.store.layers.WellFormed :=
    ((ServedTable.Sound.ofSchema schema).run hreached).kept.layers
  have htransitive (h : layout.Transitive cells) : layout.InOrder cells :=
    t.store.read_inOrder key h.preorder fun _ hc => hc
  refine ⟨htransitive, fun hdecimals hproper => ?_, CellLayout.InOrder.not_cyclic,
    fun hapart => ⟨CellLayout.InOrder.not_cyclic, fun h => ?_⟩,
    TableStore.scan_partition hwf key, TableStore.scan_eq_flatMap hwf⟩
  · exact t.store.read_inOrder key
      ((CellLayout.properParts_preorder hdecimals).comap Cell.name fun _ hc => hc) hproper
  · exact htransitive (CellLayout.transitive_of_not_cyclic hapart h)

/-- A note of river 65 that was flushed, and a level. -/
def noteThenLevel : List (ServedStep Unit) :=
  [.apply 0 .none () [65] [reading "note" 97 1], .flush,
    .apply 0 .none () [65] [reading "level" 49 2]]

/-- They are read in order, the level first. -/
theorem reads_in_order_readings :
    ∃ t, (ServedTable.ofSchema readings).run noteThenLevel = some t ∧
      t.store.read [65] = [reading "level" 49 2, reading "note" 97 1] ∧
      t.store.schema.cellLayout.AvoidsDecimals ∧
      (∀ c ∈ t.store.read [65], t.store.schema.cellLayout.HasProperParts c.name) ∧
      t.store.schema.cellLayout.InOrder (t.store.read [65]) := by
  have hview : ((ServedTable.ofSchema readings).run noteThenLevel).map (fun t =>
      (t.store.schema, t.store.read [65])) =
        some (readings, [reading "level" 49 2, reading "note" 97 1]) := by decide +kernel
  obtain ⟨t, ht, hparts⟩ := Option.map_eq_some_iff.1 hview
  have hread : t.store.read [65] = [reading "level" 49 2, reading "note" 97 1] :=
    congrArg Prod.snd hparts
  have hlayout : t.store.schema.cellLayout = .compoundSparse [.text] none :=
    congrArg (fun parts => parts.1.cellLayout) hparts
  have hdecimals : t.store.schema.cellLayout.AvoidsDecimals := by
    rw [hlayout]
    exact ⟨by decide, nofun, nofun⟩
  have hproper : ∀ c ∈ t.store.read [65], t.store.schema.cellLayout.HasProperParts c.name := by
    rw [hlayout, hread, List.forall_mem_cons, List.forall_mem_singleton]
    exact ⟨CellLayout.properParts_of_isPacked ⟨.regular [[56]] "level", rfl, nofun⟩,
      CellLayout.properParts_of_isPacked ⟨.regular [[56]] "note", rfl, nofun⟩⟩
  exact ⟨t, ht, hread, hdecimals, hproper, (reads_in_order ht [65]).2.1 hdecimals hproper⟩

/-! ### Reads out of order -/

/-- Readings at rivers: a row for each rate of flow, with a level. -/
def ratesDefinition : TableDefinition where
  keyspace := "rivers"
  name := "rates"
  columns := [⟨"river", .text, false⟩, ⟨"rate", .scalar .decimal, false⟩, ⟨"level", .text, false⟩]
  partitionKeys := [["river"]]
  clusteringColumns := ["rate"]

/-- The table of the rates. -/
def rates : TableSchema where
  keyspace := "rivers"
  name := "rates"
  keyLayout := .single .text
  cellLayout := .compoundSparse [.scalar .decimal] none
  defaultType := .blob
  isDense := false
  isCompact := false
  columns := [⟨"river", .text, .partitionKey, none⟩,
    ⟨"rate", .scalar .decimal, .clusteringKey, some 0⟩, ⟨"level", .text, .regular, some 1⟩]
  compactValue := none
  properties := {}

/-- The name of the level at a rate. -/
def rateName (rate : Bytes) : Bytes :=
  ((rates.cellLayout.encode (.regular [rate] "level")).toOption).getD []

/-- A level at a rate. -/
def levelAt (rate : Bytes) : Cell := .ofValue (rateName rate) [49] 1

/-- Zero at the scale -39, one at the scale 0, and zero at the scale -1. -/
def farApart : List Bytes :=
  [[0xff, 0xff, 0xff, 0xd9, 0], [0, 0, 0, 0, 1], [0xff, 0xff, 0xff, 0xff, 0]]

/-- **A read need not be in order**, even if all names were packed from valid values, and although
there is an order: the scales of the first zero and of the one are too far apart, so that these two
are compared byte by byte.  The one is read first, but it is greater than the zero that is read
last.  Besides, one itself and one at the scales 20 and 40 run in a circle. -/
theorem reads_out_of_order :
    ∃ t, ratesDefinition.compile = .ok rates ∧
      (∀ rate ∈ farApart, (ColumnType.scalar .decimal).validate rate = .ok () ∧
        rates.cellLayout.encode (.regular [rate] "level") = .ok (rateName rate)) ∧
      (ServedTable.ofSchema rates).run
        [ServedStep.apply 0 (WriteHook.none (σ := Unit)) () [65] (farApart.map levelAt)] = some t ∧
      t.store.read [65] = [levelAt [0, 0, 0, 0, 1], levelAt [0xff, 0xff, 0xff, 0xd9, 0],
        levelAt [0xff, 0xff, 0xff, 0xff, 0]] ∧
      ¬rates.cellLayout.InOrder (t.store.read [65]) ∧
      rates.cellLayout.InOrder [levelAt [0xff, 0xff, 0xff, 0xff, 0], levelAt [0, 0, 0, 0, 1],
        levelAt [0xff, 0xff, 0xff, 0xd9, 0]] ∧
      rates.cellLayout.Cyclic
        ([[0, 0, 0, 40, 1], [0, 0, 0, 20, 1], [0, 0, 0, 0, 1]].map levelAt) := by
  have hview : ((ServedTable.ofSchema rates).run
      [ServedStep.apply 0 (WriteHook.none (σ := Unit)) () [65] (farApart.map levelAt)]).map
        (fun t => t.store.read [65]) =
      some [levelAt [0, 0, 0, 0, 1], levelAt [0xff, 0xff, 0xff, 0xd9, 0],
        levelAt [0xff, 0xff, 0xff, 0xff, 0]] := by decide +kernel
  obtain ⟨t, ht, hread⟩ := Option.map_eq_some_iff.1 hview
  refine ⟨t, by decide, by decide, ht, hread, ?_, by decide +kernel, ?_⟩
  · rw [hread]
    decide +kernel
  · exact ⟨_, .head _, _, .tail _ (.head _), _, .tail _ (.tail _ (.head _)), by decide +kernel,
      by decide +kernel, by decide +kernel⟩

end WideColumn
