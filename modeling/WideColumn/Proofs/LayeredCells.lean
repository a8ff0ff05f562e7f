import WideColumn.Proofs.SortedBindings
import WideColumn.Proofs.Supersession

/-!
# Cells in layers

What the operations on `Layers` do to the cell that counts.  Partitions are sorted, named after
their cells and never empty (`WellFormed`), and the cells of one name in different layers can be
told apart by `Cell.supersedes`.  Under this invariant:

* `find?_merge`, `find?_extend`, `cell?_discard` — one name of one partition at a time;
* `lookup_store` — a cell that was stored counts from then on;
* `lookup_takeMemtable`, `lookup_finishFlush` — **a flush changes no look-up**, at whatever time
  and in whatever order flushes are finished;
* `lookup_discard` — what is left are the cells that counted, if they are new enough.

Each of these operations keeps the invariant.
-/

namespace WideColumn

/-! ### One partition -/

namespace Partition

/-- Sorted by name, each cell under its own name. -/
structure WellFormed (p : Partition) : Prop where
  sorted : Bindings.Sorted p
  named : ∀ name c, (name, c) ∈ p → c.name = name

theorem WellFormed.nil : WellFormed [] :=
  ⟨List.Pairwise.nil, fun _ _ h => by simp at h⟩

theorem WellFormed.name_eq {p : Partition} (h : p.WellFormed) {name : Bytes} {c : Cell}
    (hc : p.find? name = some c) : c.name = name :=
  h.named name c (Bindings.mem_of_find? hc)

theorem WellFormed.insert {p : Partition} (h : p.WellFormed) (c : Cell) :
    WellFormed (Bindings.insert c.name c p) where
  sorted := Bindings.insert_sorted c.name c h.sorted
  named := fun name d hd => by
    rcases Bindings.eq_or_mem_of_mem_insert hd with heq | hd
    · cases heq
      rfl
    · exact h.named name d hd

theorem WellFormed.filter {p : Partition} (h : p.WellFormed) (q : Bytes × Cell → Bool) :
    WellFormed (List.filter q p) where
  sorted := Bindings.filter_sorted q h.sorted
  named := fun name c hc => h.named name c (List.mem_filter.1 hc).1

theorem find?_absorb (p : Partition) (c : Cell) (name : Bytes) :
    (p.absorb c).find? name =
      if name = c.name then Layers.reconcile (p.find? c.name) (some c) else p.find? name := by
  unfold absorb
  by_cases hname : name = c.name
  · subst hname
    cases hf : p.find? c.name with
    | none => simp [Bindings.find?_insert]
    | some old =>
      cases hs : c.supersedes old <;> simp [Layers.reconcile, Bindings.find?_insert, hs, hf]
  · rw [if_neg hname]
    cases hf : p.find? c.name with
    | none => simp [Bindings.find?_insert, hname]
    | some old => cases hs : c.supersedes old <;> simp [Bindings.find?_insert, hname, hs]

theorem WellFormed.absorb {p : Partition} (h : p.WellFormed) (c : Cell) :
    (p.absorb c).WellFormed := by
  unfold Partition.absorb
  split
  · split
    · exact h.insert c
    · exact h
  · exact h.insert c

theorem WellFormed.merge {p : Partition} (h : p.WellFormed) (q : Partition) :
    (p.merge q).WellFormed := by
  unfold Partition.merge
  induction q.values generalizing p with
  | nil => exact h
  | cons c rest ih => exact ih (h.absorb c)

theorem find?_merge (p : Partition) {q : Partition} (hq : q.WellFormed) (name : Bytes) :
    (p.merge q).find? name = Layers.reconcile (p.find? name) (q.find? name) := by
  unfold merge Bindings.values
  induction q generalizing p with
  | nil => simp
  | cons head rest ih =>
    obtain ⟨n, c⟩ := head
    have hn : c.name = n := hq.named n c List.mem_cons_self
    have hrest : WellFormed rest :=
      ⟨hq.sorted.tail, fun name d hd => hq.named name d (List.mem_cons_of_mem _ hd)⟩
    rw [List.map_cons, List.foldl_cons, ih _ hrest, find?_absorb]
    by_cases hname : name = n
    · subst hname
      have hnone : Bindings.find? name rest = none :=
        Bindings.find?_eq_none_iff.2 fun d hd => hq.sorted.head_ne hd rfl
      rw [if_pos hn.symm, hn, hnone, Bindings.find?_cons_self, reconcile_none_right]
    · rw [if_neg (hn ▸ hname), Bindings.find?_cons_ne hname]

theorem merge_ne_nil {p q : Partition} (hq : q.WellFormed) (hne : q ≠ []) :
    p.merge q ≠ [] := by
  cases q with
  | nil => exact absurd rfl hne
  | cons head rest =>
    obtain ⟨n, c⟩ := head
    intro hnil
    have hfind := find?_merge p hq n
    rw [hnil, Bindings.find?_nil, Bindings.find?_cons_self] at hfind
    have hnone := (reconcile_eq_none_iff.1 hfind.symm).2
    cases hnone

theorem find?_extend (p : Partition) {q : Partition} (hq : q.WellFormed) (name : Bytes) :
    (p.extend q).find? name = (q.find? name).or (p.find? name) :=
  Bindings.find?_foldl_insert name hq.sorted p

theorem WellFormed.extend {p q : Partition} (hp : p.WellFormed) (hq : q.WellFormed) :
    (p.extend q).WellFormed := by
  refine ⟨Bindings.foldl_insert_sorted q hp.sorted, fun name c hc => ?_⟩
  have hfind := (Bindings.find?_eq_some_iff (Bindings.foldl_insert_sorted q hp.sorted)).2 hc
  have hor := (find?_extend p hq name).symm.trans hfind
  rcases Option.or_eq_some_iff.1 hor with h | ⟨-, h⟩
  · exact hq.name_eq h
  · exact hp.name_eq h

end Partition

/-! ### One layer -/

namespace Partitions

/-- Sorted by key, with partitions that are well formed and not empty. -/
structure WellFormed (ps : Partitions) : Prop where
  sorted : Bindings.Sorted ps
  partitions : ∀ key p, (key, p) ∈ ps → p.WellFormed ∧ p ≠ []

/-- The cell of a name in a partition. -/
def cell? (ps : Partitions) (key name : Bytes) : Option Cell := (ps.partition key).find? name

theorem WellFormed.nil : WellFormed [] :=
  ⟨List.Pairwise.nil, fun _ _ h => by simp at h⟩

theorem WellFormed.partition {ps : Partitions} (h : ps.WellFormed) (key : Bytes) :
    (ps.partition key).WellFormed := by
  unfold Partitions.partition
  cases hf : ps.find? key with
  | none => exact Partition.WellFormed.nil
  | some p => exact (h.partitions key p (Bindings.mem_of_find? hf)).1

theorem WellFormed.name_eq {ps : Partitions} (h : ps.WellFormed) {key name : Bytes} {c : Cell}
    (hc : ps.cell? key name = some c) : c.name = name :=
  (h.partition key).name_eq hc

theorem partition_insert (ps : Partitions) (key key' : Bytes) (p : Partition) :
    partition (Bindings.insert key p ps) key' = if key' = key then p else ps.partition key' := by
  unfold partition
  rw [Bindings.find?_insert]
  split <;> rfl

theorem WellFormed.insert {ps : Partitions} (h : ps.WellFormed) (key : Bytes) {p : Partition}
    (hp : p.WellFormed) (hne : p ≠ []) : WellFormed (Bindings.insert key p ps) where
  sorted := Bindings.insert_sorted key p h.sorted
  partitions := fun key' q hq => by
    rcases Bindings.eq_or_mem_of_mem_insert hq with heq | hq
    · cases heq
      exact ⟨hp, hne⟩
    · exact h.partitions key' q hq

/-! ### Several layers into one -/

theorem partition_merge (ps : Partitions) {qs : Partitions} (hqs : Bindings.Sorted qs)
    (key : Bytes) : (ps.merge qs).partition key = (ps.partition key).merge (qs.partition key) := by
  unfold merge
  induction qs generalizing ps with
  | nil => rfl
  | cons head rest ih =>
    obtain ⟨k, q⟩ := head
    rw [List.foldl_cons, ih _ hqs.tail, partition_insert]
    by_cases hk : key = k
    · subst hk
      have hnone : Bindings.find? key rest = none :=
        Bindings.find?_eq_none_iff.2 fun p hp => hqs.head_ne hp rfl
      have hrest : partition rest key = [] := by unfold partition; rw [hnone]; rfl
      have hself : partition ((key, q) :: rest) key = q := by
        unfold partition
        rw [Bindings.find?_cons_self]
        rfl
      rw [if_pos rfl, hrest, hself]
      rfl
    · have hne : partition ((k, q) :: rest) key = partition rest key := by
        unfold partition
        rw [Bindings.find?_cons_ne hk]
      rw [if_neg hk, hne]

theorem WellFormed.merge {ps qs : Partitions} (hps : ps.WellFormed) (hqs : qs.WellFormed) :
    (ps.merge qs).WellFormed := by
  unfold Partitions.merge
  induction qs generalizing ps with
  | nil => exact hps
  | cons head rest ih =>
    obtain ⟨hq, hne⟩ := hqs.partitions head.1 head.2 List.mem_cons_self
    have hrest : WellFormed rest :=
      ⟨hqs.sorted.tail, fun key p hp => hqs.partitions key p (List.mem_cons_of_mem _ hp)⟩
    exact ih (hps.insert head.1 ((hps.partition head.1).merge head.2)
      (Partition.merge_ne_nil hq hne)) hrest

/-! ### Truncation of one layer -/

theorem partition_discard {ps : Partitions} (h : ps.WellFormed) (timestamp : Int) (key : Bytes) :
    (ps.discard timestamp).partition key =
      (ps.partition key).filter fun b => timestamp < b.2.timestamp := by
  unfold discard partition
  rw [Bindings.find?_filter _ _ (Bindings.mapValues_sorted _ h.sorted), Bindings.find?_mapValues]
  cases Bindings.find? key ps with
  | none => rfl
  | some p =>
    show ((some (p.filter fun b => timestamp < b.2.timestamp)).filter fun q => !q.isEmpty).getD []
      = p.filter fun b => timestamp < b.2.timestamp
    cases p.filter fun b => timestamp < b.2.timestamp <;> rfl

theorem cell?_discard {ps : Partitions} (h : ps.WellFormed) (timestamp : Int)
    (key name : Bytes) :
    (ps.discard timestamp).cell? key name =
      (ps.cell? key name).filter fun c => timestamp < c.timestamp := by
  unfold cell?
  rw [partition_discard h, Bindings.find?_filter _ _ (h.partition key).sorted]

theorem WellFormed.discard {ps : Partitions} (h : ps.WellFormed) (timestamp : Int) :
    (ps.discard timestamp).WellFormed where
  sorted := Bindings.filter_sorted _ (Bindings.mapValues_sorted _ h.sorted)
  partitions := fun key p hp => by
    obtain ⟨hmem, hne⟩ := List.mem_filter.1 hp
    obtain ⟨⟨k, q⟩, hq, heq⟩ := List.mem_map.1 hmem
    cases heq
    refine ⟨(h.partitions key q hq).1.filter _, fun hnil => ?_⟩
    rw [hnil] at hne
    cases hne

end Partitions

/-! ### All layers -/

namespace Layers

/-- The cells of one name in a partition, one for each layer. -/
def cellsOf (l : Layers) (key name : Bytes) : List (Option Cell) :=
  l.sources.map fun ps => ps.cell? key name

/-- **The invariant of the layers.**  Each layer is well formed, and the cells of one name in
different layers can be told apart.  Nothing is said of which layer holds the newer one. -/
structure WellFormed (l : Layers) : Prop where
  sources : ∀ ps ∈ l.sources, ps.WellFormed
  distinguished : ∀ key name, Distinguished (l.cellsOf key name)

theorem WellFormed.empty : WellFormed {} where
  sources := fun ps hps => by
    obtain rfl : ps = [] := by simpa [Layers.sources] using hps
    exact Partitions.WellFormed.nil
  distinguished := fun _ _ => List.pairwise_singleton _ _

theorem mem_cellsOf {l : Layers} {key name : Bytes} {x : Option Cell} :
    x ∈ l.cellsOf key name ↔ ∃ ps ∈ l.sources, ps.cell? key name = x :=
  List.mem_map

theorem lookup_eq_newest (l : Layers) (key name : Bytes) :
    l.lookup key name = newest (l.cellsOf key name) := by
  unfold lookup newest cellsOf
  rw [List.foldl_map]
  rfl

theorem WellFormed.memtable {l : Layers} (h : l.WellFormed) : l.memtable.WellFormed :=
  h.sources _ (by simp [Layers.sources])

theorem WellFormed.name_eq {l : Layers} (h : l.WellFormed) {key name : Bytes} {c : Cell}
    (hc : l.lookup key name = some c) : c.name = name := by
  rw [lookup_eq_newest] at hc
  obtain ⟨ps, hps, hcell⟩ := mem_cellsOf.1 (newest_mem hc)
  exact (h.sources ps hps).name_eq hcell

/-! ### Writes -/

/-- The layers below the memtable. -/
def below (l : Layers) : List Partitions := l.segments ++ l.flushing.map Prod.snd

theorem cellsOf_eq (l : Layers) (key name : Bytes) :
    l.cellsOf key name =
      (l.below.map fun ps => ps.cell? key name) ++ [l.memtable.cell? key name] := by
  simp [cellsOf, sources, below]

/-- A cell in the last place that supersedes the newest one is the newest one. -/
theorem newest_snoc {front : List (Option Cell)} {last : Option Cell} {c : Cell}
    (h : Distinguished (front ++ [last]))
    (hc : ∀ d, newest (front ++ [last]) = some d → c.supersedes d = true) :
    Distinguished (front ++ [some c]) ∧ newest (front ++ [some c]) = some c := by
  have hall : ∀ d, some d ∈ front → c.supersedes d = true := fun d hd =>
    supersedes_of_supersedes_newest hc (List.mem_append_left _ hd)
  have hdist : Distinguished (front ++ [some c]) := by
    refine List.pairwise_append.2 ⟨(List.pairwise_append.1 h).1, List.pairwise_singleton _ _, ?_⟩
    intro a ha b hb x y hx hy
    rw [List.mem_singleton.1 hb] at hy
    cases hy
    exact .inr (hall x (hx ▸ ha))
  refine ⟨hdist, (newest_eq_some_iff hdist).2 ⟨by simp, fun d hd => ?_⟩⟩
  rcases List.mem_append.1 hd with hd | hd
  · exact Cell.supersedes_asymm (hall d hd)
  · cases List.mem_singleton.1 hd
    exact Cell.supersedes_irrefl c

/-- Every cell supersedes the one that counts under its name. -/
def Supersede (l : Layers) (key : Bytes) (cells : Partition) : Prop :=
  ∀ name c d, cells.find? name = some c → l.lookup key name = some d → c.supersedes d = true

theorem cell?_memtable_store (l : Layers) (key : Bytes) {cells : Partition}
    (hcells : cells.WellFormed) (key' name : Bytes) :
    (l.store key cells).memtable.cell? key' name =
      if key' = key then (cells.find? name).or (l.memtable.cell? key name)
      else l.memtable.cell? key' name := by
  unfold store Partitions.cell?
  cases cells with
  | nil => split <;> simp_all
  | cons head rest =>
    show (Partitions.partition (Bindings.insert key _ l.memtable) key').find? name = _
    rw [Partitions.partition_insert]
    split
    · exact Partition.find?_extend _ hcells name
    · rfl

theorem find?_memtable_store (l : Layers) {key key' : Bytes} (hkey : key' ≠ key)
    (cells : Partition) : (l.store key cells).memtable.find? key' = l.memtable.find? key' := by
  unfold store
  split
  · rfl
  · exact (Bindings.find?_insert _ _ _ _).trans (if_neg hkey)

theorem flushing_store (l : Layers) (key : Bytes) (cells : Partition) :
    (l.store key cells).flushing = l.flushing := by
  unfold store
  split <;> rfl

theorem segments_store (l : Layers) (key : Bytes) (cells : Partition) :
    (l.store key cells).segments = l.segments := by
  unfold store
  split <;> rfl

theorem nextGeneration_store (l : Layers) (key : Bytes) (cells : Partition) :
    (l.store key cells).nextGeneration = l.nextGeneration := by
  unfold store
  split <;> rfl

theorem below_store (l : Layers) (key : Bytes) (cells : Partition) :
    (l.store key cells).below = l.below := by
  unfold below
  rw [flushing_store, segments_store]

theorem cellsOf_store (l : Layers) (key : Bytes) {cells : Partition} (hcells : cells.WellFormed)
    (key' name : Bytes) :
    (l.store key cells).cellsOf key' name =
      (l.below.map fun ps => ps.cell? key' name) ++
        [if key' = key then (cells.find? name).or (l.memtable.cell? key name)
          else l.memtable.cell? key' name] := by
  rw [cellsOf_eq, below_store, cell?_memtable_store l key hcells]

/-- What comes of one name when cells are stored. -/
theorem store_spec {l : Layers} (h : l.WellFormed) (key : Bytes) {cells : Partition}
    (hcells : cells.WellFormed) (hsup : l.Supersede key cells) (key' name : Bytes) :
    Distinguished ((l.store key cells).cellsOf key' name) ∧
      (l.store key cells).lookup key' name =
        if key' = key then (cells.find? name).or (l.lookup key name)
        else l.lookup key' name := by
  rw [lookup_eq_newest, lookup_eq_newest, lookup_eq_newest, cellsOf_store l key hcells]
  have hdist := h.distinguished key' name
  rw [cellsOf_eq] at hdist
  by_cases hkey : key' = key
  · subst hkey
    rw [if_pos rfl, if_pos rfl]
    cases hc : cells.find? name with
    | none =>
      rw [Option.none_or, Option.none_or, ← cellsOf_eq]
      exact ⟨h.distinguished key' name, rfl⟩
    | some c =>
      refine newest_snoc hdist fun d hd => hsup name c d hc ?_
      rw [lookup_eq_newest, cellsOf_eq]
      exact hd
  · rw [if_neg hkey, if_neg hkey, ← cellsOf_eq]
    exact ⟨h.distinguished key' name, rfl⟩

theorem WellFormed.store {l : Layers} (h : l.WellFormed) (key : Bytes) {cells : Partition}
    (hcells : cells.WellFormed) (hsup : l.Supersede key cells) :
    (l.store key cells).WellFormed where
  sources := fun ps hps => by
    have hmem : ps ∈ l.below ∨ ps = (l.store key cells).memtable := by
      have hsources : (l.store key cells).sources =
          (l.store key cells).below ++ [(l.store key cells).memtable] := rfl
      rw [hsources, below_store] at hps
      simpa using hps
    rcases hmem with hmem | rfl
    · exact h.sources ps (List.mem_append_left _ hmem)
    · cases cells with
      | nil => exact h.memtable
      | cons head rest =>
        refine h.memtable.insert key ((h.memtable.partition key).extend hcells) fun hnil => ?_
        have hfind := Partition.find?_extend (l.memtable.partition key) hcells head.1
        rw [hnil, Bindings.find?_cons_self] at hfind
        cases hfind
  distinguished := fun key' name => (store_spec h key hcells hsup key' name).1

/-- A cell that was stored counts from then on; all else stays. -/
theorem lookup_store {l : Layers} (h : l.WellFormed) (key : Bytes) {cells : Partition}
    (hcells : cells.WellFormed) (hsup : l.Supersede key cells) (key' name : Bytes) :
    (l.store key cells).lookup key' name =
      if key' = key then (cells.find? name).or (l.lookup key name) else l.lookup key' name :=
  (store_spec h key hcells hsup key' name).2

/-! ### Flushes -/

/-- Layers that are those of another table in another order. -/
theorem lookup_of_perm {l l' : Layers} (h : l.WellFormed) (hp : l'.sources.Perm l.sources) :
    l'.WellFormed ∧ ∀ key name, l'.lookup key name = l.lookup key name := by
  have hcells : ∀ key name, (l.cellsOf key name).Perm (l'.cellsOf key name) :=
    fun key name => hp.symm.map _
  have hdist : ∀ key name, Distinguished (l'.cellsOf key name) :=
    fun key name => (h.distinguished key name).perm (hcells key name)
  refine ⟨⟨fun ps hps => h.sources ps (hp.mem_iff.1 hps), hdist⟩, fun key name => ?_⟩
  rw [lookup_eq_newest, lookup_eq_newest]
  exact newest_congr (hdist key name) (h.distinguished key name)
    fun c => (hcells key name).mem_iff.symm

theorem sources_takeMemtable (l : Layers) : l.takeMemtable.2.sources = l.sources ++ [[]] := by
  simp [takeMemtable, sources]

theorem WellFormed.takeMemtable {l : Layers} (h : l.WellFormed) :
    l.takeMemtable.2.WellFormed where
  sources := fun ps hps => by
    rw [sources_takeMemtable] at hps
    rcases List.mem_append.1 hps with hps | hps
    · exact h.sources ps hps
    · rw [List.mem_singleton.1 hps]
      exact Partitions.WellFormed.nil
  distinguished := fun key name => by
    unfold cellsOf
    rw [sources_takeMemtable, List.map_append]
    refine List.pairwise_append.2 ⟨h.distinguished key name, List.pairwise_singleton _ _, ?_⟩
    intro a _ b hb x y _ hy
    rw [List.mem_singleton.1 hb] at hy
    cases hy

theorem lookup_takeMemtable (l : Layers) (key name : Bytes) :
    l.takeMemtable.2.lookup key name = l.lookup key name := by
  unfold lookup
  rw [sources_takeMemtable, List.foldl_append]
  exact reconcile_none_right _

theorem sources_finishFlush {l l' : Layers} {generation : Nat}
    (hf : l.finishFlush? generation = some l') : l'.sources.Perm l.sources := by
  unfold finishFlush? at hf
  cases hfind : l.flushing.find? (·.1 = generation) with
  | none => simp [hfind] at hf
  | some found =>
    obtain ⟨g, ps⟩ := found
    simp only [hfind, Option.some.injEq] at hf
    subst hf
    obtain ⟨hg, front, rest, hsplit, hfront⟩ := List.find?_eq_some_iff_append.1 hfind
    have herase : l.flushing.eraseP (fun b => decide (b.1 = generation)) = front ++ rest := by
      rw [hsplit, List.eraseP_append_right _ (fun b hb => by simpa using hfront b hb),
        List.eraseP_cons_of_pos (by simpa using hg)]
    have hbefore : l.sources =
        l.segments ++ (front.map Prod.snd ++ ps :: (rest.map Prod.snd ++ [l.memtable])) := by
      simp [sources, hsplit]
    rw [hbefore]
    show (l.segments ++ [ps] ++ (l.flushing.eraseP _).map Prod.snd ++ [l.memtable]).Perm _
    rw [herase, List.map_append, List.append_assoc, List.append_assoc, List.append_assoc,
      List.singleton_append]
    exact (List.perm_middle.symm).append_left l.segments

/-- **A flush that is finished changes no look-up**, whichever flush it is. -/
theorem lookup_finishFlush {l l' : Layers} (h : l.WellFormed) {generation : Nat}
    (hf : l.finishFlush? generation = some l') :
    l'.WellFormed ∧ ∀ key name, l'.lookup key name = l.lookup key name :=
  lookup_of_perm h (sources_finishFlush hf)

/-! ### Truncation -/

/-- Cells that stay cells of a later time than `timestamp` stay apart. -/
theorem apart_filter (timestamp : Int) {a b : Option Cell} (h : Apart a b) :
    Apart (a.filter fun c => timestamp < c.timestamp) (b.filter fun c => timestamp < c.timestamp) :=
  fun c d hc hd => h c d (Option.filter_eq_some_iff.1 hc).1 (Option.filter_eq_some_iff.1 hd).1

theorem mem_sources_discard {l : Layers} {timestamp : Int} {ps : Partitions} :
    ps ∈ (l.discard timestamp).sources →
      ∃ ps₀ ∈ l.sources, ps = Partitions.discard ps₀ timestamp := by
  intro hps
  simp only [sources, discard, List.mem_append, List.mem_filter, List.mem_map,
    List.mem_singleton] at hps
  rcases hps with (⟨⟨ps₀, h₀, rfl⟩, -⟩ | ⟨-, ⟨⟨g, ps₀⟩, h₀, rfl⟩, rfl⟩) | rfl
  · exact ⟨ps₀, by simp [sources, h₀], rfl⟩
  · refine ⟨ps₀, ?_, rfl⟩
    simp only [sources, List.mem_append, List.mem_map]
    exact .inl (.inr ⟨_, h₀, rfl⟩)
  · exact ⟨l.memtable, by simp [sources], rfl⟩

/-- The layers that are left are those of before, truncated, less some that are empty. -/
theorem sources_discard_sublist (l : Layers) (timestamp : Int) :
    (l.discard timestamp).sources.Sublist
      (l.sources.map fun ps => ps.discard timestamp) := by
  simp only [sources, discard, List.map_append, List.map_map]
  refine (List.Sublist.append ?_ (List.Sublist.refl _)).append (List.Sublist.refl _)
  exact List.filter_sublist

theorem distinguished_discard {l : Layers} (h : l.WellFormed) (timestamp : Int)
    (key name : Bytes) : Distinguished ((l.discard timestamp).cellsOf key name) := by
  have hsub := (sources_discard_sublist l timestamp).map fun ps => ps.cell? key name
  refine List.Pairwise.sublist hsub ?_
  rw [List.map_map]
  have heq : l.sources.map ((fun ps => ps.cell? key name) ∘ fun ps => ps.discard timestamp) =
      (l.cellsOf key name).map fun x => x.filter fun c => timestamp < c.timestamp := by
    unfold cellsOf
    rw [List.map_map]
    exact List.map_congr_left fun ps hps => Partitions.cell?_discard (h.sources ps hps) _ _ _
  rw [heq]
  exact List.pairwise_map.2 ((h.distinguished key name).imp (apart_filter timestamp))

theorem WellFormed.discard {l : Layers} (h : l.WellFormed) (timestamp : Int) :
    (l.discard timestamp).WellFormed where
  sources := fun ps hps => by
    obtain ⟨ps₀, h₀, rfl⟩ := mem_sources_discard hps
    exact (h.sources ps₀ h₀).discard timestamp
  distinguished := distinguished_discard h timestamp

/-- The cells that a truncation leaves are those that are new enough. -/
theorem mem_cellsOf_discard {l : Layers} (h : l.WellFormed) (timestamp : Int) (key name : Bytes)
    (c : Cell) :
    some c ∈ (l.discard timestamp).cellsOf key name ↔
      some c ∈ l.cellsOf key name ∧ timestamp < c.timestamp := by
  constructor
  · intro hc
    obtain ⟨ps, hps, hcell⟩ := mem_cellsOf.1 hc
    obtain ⟨ps₀, h₀, rfl⟩ := mem_sources_discard hps
    rw [Partitions.cell?_discard (h.sources ps₀ h₀), Option.filter_eq_some_iff] at hcell
    exact ⟨mem_cellsOf.2 ⟨ps₀, h₀, hcell.1⟩, of_decide_eq_true hcell.2⟩
  · rintro ⟨hc, hnew⟩
    obtain ⟨ps, hps, hcell⟩ := mem_cellsOf.1 hc
    have hleft : (ps.discard timestamp).cell? key name = some c := by
      rw [Partitions.cell?_discard (h.sources ps hps), Option.filter_eq_some_iff]
      exact ⟨hcell, decide_eq_true hnew⟩
    refine mem_cellsOf.2 ⟨ps.discard timestamp, ?_, hleft⟩
    have hne : (!(ps.discard timestamp).isEmpty) = true := by
      cases hnil : ps.discard timestamp with
      | nil =>
        rw [hnil] at hleft
        cases hleft
      | cons => rfl
    simp only [sources, List.mem_append, List.mem_map, List.mem_singleton] at hps
    simp only [sources, Layers.discard, List.mem_append, List.mem_filter, List.mem_map,
      List.mem_singleton]
    rcases hps with (hps | ⟨b, hb, rfl⟩) | rfl
    · exact .inl (.inl ⟨⟨ps, hps, rfl⟩, hne⟩)
    · exact .inl (.inr ⟨_, ⟨b, hb, rfl⟩, rfl⟩)
    · exact .inr rfl

/-- What is left after a truncation are the cells that counted, if they are new enough. -/
theorem lookup_discard {l : Layers} (h : l.WellFormed) (timestamp : Int) (key name : Bytes) :
    (l.discard timestamp).lookup key name =
      (l.lookup key name).filter fun c => timestamp < c.timestamp := by
  ext c
  rw [lookup_eq_newest, lookup_eq_newest, Option.filter_eq_some_iff,
    newest_eq_some_iff (distinguished_discard h timestamp key name),
    newest_eq_some_iff (h.distinguished key name), mem_cellsOf_discard h]
  constructor
  · rintro ⟨⟨hc, hnew⟩, hmax⟩
    refine ⟨⟨hc, fun d hd => ?_⟩, decide_eq_true hnew⟩
    -- A cell that superseded `c` would be at least as new, so it would have stayed.
    by_cases hd' : timestamp < d.timestamp
    · exact hmax d ((mem_cellsOf_discard h timestamp key name d).2 ⟨hd, hd'⟩)
    · rw [Bool.eq_false_iff]
      intro hs
      have := Cell.timestamp_le_of_supersedes hs
      omega
  · rintro ⟨⟨hc, hmax⟩, hnew⟩
    exact ⟨⟨hc, of_decide_eq_true hnew⟩,
      fun d hd => hmax d ((mem_cellsOf_discard h timestamp key name d).1 hd).1⟩

/-! ### Partitions of all layers -/

theorem foldl_merge_wellFormed {sources : List Partitions} (h : ∀ ps ∈ sources, ps.WellFormed)
    {first : Partitions} (hfirst : first.WellFormed) :
    (sources.foldl Partitions.merge first).WellFormed := by
  induction sources generalizing first with
  | nil => exact hfirst
  | cons ps rest ih =>
    exact ih (fun qs hqs => h qs (List.mem_cons_of_mem _ hqs))
      (hfirst.merge (h ps List.mem_cons_self))

theorem WellFormed.merged {l : Layers} (h : l.WellFormed) : l.merged.WellFormed :=
  foldl_merge_wellFormed h.sources Partitions.WellFormed.nil

theorem partition_foldl_merge {sources : List Partitions} (h : ∀ ps ∈ sources, ps.WellFormed)
    (first : Partitions) (key : Bytes) :
    (sources.foldl Partitions.merge first).partition key =
      sources.foldl (fun p ps => p.merge (ps.partition key)) (first.partition key) := by
  induction sources generalizing first with
  | nil => rfl
  | cons ps rest ih =>
    rw [List.foldl_cons, List.foldl_cons, ih fun qs hqs => h qs (List.mem_cons_of_mem _ hqs),
      Partitions.partition_merge _ (h ps List.mem_cons_self).sorted]

/-- One partition of all layers is the partition of the merged ones. -/
theorem partition_merged {l : Layers} (h : l.WellFormed) (key : Bytes) :
    l.merged.partition key = l.partition key :=
  partition_foldl_merge h.sources [] key

theorem find?_foldl_merge {sources : List Partitions} (h : ∀ ps ∈ sources, ps.WellFormed)
    (first : Partition) (key name : Bytes) :
    (sources.foldl (fun p ps => p.merge (ps.partition key)) first).find? name =
      sources.foldl (fun current ps => reconcile current ((ps.partition key).find? name))
        (first.find? name) := by
  induction sources generalizing first with
  | nil => rfl
  | cons ps rest ih =>
    rw [List.foldl_cons, List.foldl_cons, ih fun qs hqs => h qs (List.mem_cons_of_mem _ hqs),
      Partition.find?_merge _ ((h ps List.mem_cons_self).partition key)]

/-- The partition of all layers holds the cells that count. -/
theorem find?_partition {l : Layers} (h : l.WellFormed) (key name : Bytes) :
    (l.partition key).find? name = l.lookup key name :=
  find?_foldl_merge h.sources [] key name

theorem WellFormed.partition {l : Layers} (h : l.WellFormed) (key : Bytes) :
    (l.partition key).WellFormed :=
  partition_merged h key ▸ h.merged.partition key

end Layers

end WideColumn
