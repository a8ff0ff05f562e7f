import WideColumn.Proofs.BuildingIndexes
import WideColumn.Proofs.RetiredIndexes

/-!
# Backfills

An index that was added to a table with cells in it is brought up to date by a backfill, which
records the cells that a scan of the table finds.  The index follows the changes of the table all
the while, so the backfill comes too late with some cells, and a second time with others.

* `recordAll_ok`, `build_ok` — what the recording of cells leaves in the index table, and its count;
* `build_again` — to record again what was recorded leaves the table as it is;
* `Mirrors.records_perm`, `Mirrors.count` — the live cells of an index that mirrors its column are
  the records of the cells of the column, and as many;
* `Deployment.build`, `Deployment.backfill` — backfills in one go, and in parts with writes to the
  table between them;
* `Deployment.IndexIs.run`, `Deployment.Grounded.run` — what runs keep of an index, and of the base
  table before there is one;
* `backfill_exact` — **backfills are exact, and a second one changes nothing**.
-/

namespace WideColumn

open Effects KeptIndex

/-! ### Recording cells -/

namespace KeptIndex

variable {x : SecondaryIndex} {k k' : KeptIndex} {env : Environment} {v : Ledger}

/-- Is the cell to be recorded? -/
def Counts (x : SecondaryIndex) (now : Int) (b : Bytes × Cell) : Bool :=
  b.2.isLive now && x.covers b.2

/-- Recording starts with the first cell. -/
theorem runFrom_recordAll_cons (hindex : k.index = x) (b : Bytes × Cell)
    (rest : List (Bytes × Cell)) :
    runFrom (recordAll env (b :: rest)) k =
      if Counts x env.now b then
        runFrom (do insert env b.1 b.2; return (← recordAll env rest) + 1) k
      else runFrom (recordAll env rest) k := by
  obtain ⟨key, c⟩ := b
  have hcounts : Counts x env.now (key, c) = (c.isLive env.now && k.index.covers c) := by
    rw [hindex]
    rfl
  rw [hcounts]
  conv => lhs; unfold recordAll
  rw [runFrom_bind, runFrom_get]
  cases hc : c.isLive env.now && k.index.covers c <;> simp only [hc] <;> rfl

theorem recordAll_cons_ok {b : Bytes × Cell} {rest : List (Bytes × Cell)} {count : Nat}
    (hindex : k.index = x) (hrun : runFrom (recordAll env (b :: rest)) k = (.ok count, k')) :
    (Counts x env.now b = false ∧ runFrom (recordAll env rest) k = (.ok count, k')) ∨
      (Counts x env.now b = true ∧ ∃ n k₁, count = n + 1 ∧
        runFrom (insert env b.1 b.2) k = (.ok (), k₁) ∧
        runFrom (recordAll env rest) k₁ = (.ok n, k')) := by
  rw [runFrom_recordAll_cons hindex] at hrun
  cases hcounts : Counts x env.now b with
  | false =>
    rw [hcounts, if_neg Bool.false_ne_true] at hrun
    exact .inl ⟨rfl, hrun⟩
  | true =>
    rw [hcounts, if_pos rfl] at hrun
    obtain ⟨⟨⟩, k₁, hinsert, hrest⟩ := bind_eq_ok.1 hrun
    obtain ⟨n, k₂, hrest, hcount⟩ := bind_eq_ok.1 hrest
    cases hcount
    exact .inr ⟨rfl, n, k₁, rfl, hinsert, hrest⟩

/-- **Cell by cell**, the pending cells are recorded, and counted. -/
theorem recordAll_ok (hx : x.RecordsValues) {cells rest : List (Bytes × Cell)} {count : Nat}
    (hk : k.Healthy) (hindex : k.index = x)
    (h : Backfilling x env.now (cells ++ rest) v k.store.get?)
    (hrun : runFrom (recordAll env cells) k = (.ok count, k')) :
    ∃ w, Became k k' w ∧ Backfilling x env.now rest v w ∧
      count = (cells.filter (Counts x env.now)).length := by
  induction cells generalizing k count with
  | nil =>
    cases hrun
    exact ⟨_, hk.became, h, rfl⟩
  | cons b cells ih =>
    rcases recordAll_cons_ok hindex hrun with ⟨hcounts, hrun⟩ | ⟨hcounts, n, k₁, rfl, hinsert, hrun⟩
    · have hskipped := h.skip fun hcov hlive => by simp [Counts, hcov, hlive] at hcounts
      obtain ⟨w, hbecame, hw, hcount⟩ := ih hk hindex hskipped hrun
      exact ⟨w, hbecame, hw, by rw [List.filter_cons_of_neg (by simp [hcounts]), hcount]⟩
    · obtain ⟨hlive, hcov⟩ := Bool.and_eq_true_iff.1 hcounts
      rw [insert_eq_writeInPlace] at hinsert
      obtain ⟨e, he, hbecame₁⟩ := writeInPlace_ok hk hinsert hlive
      rw [hindex] at he
      have hrecorded := h.record hx hcov hlive ⟨e, he, rfl⟩
      rw [← hbecame₁.get?] at hrecorded
      obtain ⟨w, hbecame, hw, hcount⟩ :=
        ih hbecame₁.healthy (hbecame₁.index.trans hindex) hrecorded hrun
      refine ⟨w, hbecame₁.trans hbecame, hw, ?_⟩
      rw [List.filter_cons_of_pos hcounts, hcount]
      rfl

/-- A backfill records what a scan of the table finds, and then the index is active. -/
theorem build_ok {s : TableStore} {count : Nat} (hk : k.Healthy)
    (hrun : runFrom (build env s) k = (.ok count, k')) :
    ∃ k₁, runFrom (recordAll env s.scan) k = (.ok count, k₁) ∧
      (k₁.Healthy → k' = { k₁ with state := .active }) := by
  unfold build at hrun
  rw [runFrom_bind, hk.lasting.isRetired] at hrun
  simp only [Bool.false_eq_true, if_false] at hrun
  obtain ⟨n, k₁, hrecord, hrest⟩ := bind_eq_ok.1 hrun
  simp only [runFrom_bind, runFrom_modify, runFrom_pure] at hrest
  cases hrest
  refine ⟨k₁, hrecord, fun hk₁ => ?_⟩
  rw [hk₁.lasting.disturb]
  split
  · rfl
  · rename_i hstate
    have hactive : k₁.state = .active := by
      cases hs : k₁.state with
      | building => exact absurd hs hstate
      | active => rfl
      | invalidated => exact absurd hs hk₁.state
    rw [← hactive]

/-! ### Recording again -/

end KeptIndex

/-- To write a cell that is superseded leaves the table as it is. -/
theorem TableStore.written_of_reaches {s : TableStore} {key : Bytes} {c : Cell} (now : Int)
    (h : Ledger.Reaches s.get? key c) : s.written now key [c] = s := by
  obtain ⟨o, ho, hs⟩ := h
  have heff : c.effect now (s.get? key c.name) = .superseded := by simp [Cell.effect, ho, hs]
  have hpending : ((Bindings.find? c.name ([] : Partition)).or (s.layers.lookup key c.name)) =
      s.get? key c.name := rfl
  have hwinners : s.winners now key [c] = [] := by
    unfold winners planCells
    rw [hpending, heff]
    rfl
  unfold written
  rw [hwinners]
  rfl

namespace KeptIndex

variable {x : SecondaryIndex} {k : KeptIndex} {env : Environment}

/-- What was recorded can be recorded again, which changes nothing but the journal. -/
theorem insert_again (hx : x.RecordsValues) (hk : k.Healthy) (hready : k.Ready x) {key : Bytes}
    {c : Cell} (hfits : ∀ e, x.entry key c = .ok e → x.Fits key c) (hlive : c.isLive env.now = true)
    (h : x.HasReached k.store.get? key c) :
    ∃ journal, runFrom (insert env key c) k = (.ok (), { k with journal }) := by
  obtain ⟨p, hp, hreached⟩ := h
  have he : x.entry key c = .ok ⟨c.value, p⟩ := (hx.entry_eq_ok key c _).2 ⟨rfl, hp⟩
  obtain ⟨e, he', hkey, hname⟩ := hfits _ he
  cases he.symm.trans he'
  have hopen : k.store.isInvalidated = false := by
    cases hinvalidated : k.store.isInvalidated with
    | false => rfl
    | true => exact absurd (hready.retired hinvalidated) hk.state
  have hcheck : k.store.checkWrite c.value [mirror p c] = .ok () := by
    rw [TableStore.checkWrite_eq_ok, hready.schema]
    exact ⟨hopen, hkey, List.forall_mem_singleton.2 hname⟩
  have hwrite : k.tableWrite env.now c.value (mirror p c) = .ok k.store := by
    rw [hready.tableWrite, TableStore.write_eq_ok hcheck,
      TableStore.written_of_reaches env.now hreached]
  have hentry : k.index.entry key c = .ok ⟨c.value, p⟩ := by rw [hready.index, he]
  refine ⟨k.journal ++ [.write true c.value [mirror p c]], ?_⟩
  rw [insert_eq_writeInPlace, runFrom_writeInPlace hk.lasting _ hlive, hentry]
  exact attempt_ok hwrite

theorem recordAll_again (hx : x.RecordsValues) {cells : List (Bytes × Cell)} (hk : k.Healthy)
    (hready : k.Ready x) (hfits : ∀ key c e, x.entry key c = .ok e → x.Fits key c)
    (hcells : ∀ b ∈ cells, Counts x env.now b = true → x.HasReached k.store.get? b.1 b.2) :
    ∃ journal, runFrom (recordAll env cells) k =
      (.ok (cells.filter (Counts x env.now)).length, { k with journal }) := by
  induction cells generalizing k with
  | nil => exact ⟨k.journal, rfl⟩
  | cons b rest ih =>
    have hrest := fun b hb => hcells b (List.mem_cons_of_mem _ hb)
    rw [runFrom_recordAll_cons hready.index]
    cases hcounts : Counts x env.now b with
    | false =>
      rw [if_neg Bool.false_ne_true, List.filter_cons_of_neg (by simp [hcounts])]
      exact ih hk hready hrest
    | true =>
      rw [if_pos rfl, List.filter_cons_of_pos hcounts]
      obtain ⟨journal, hinsert⟩ := insert_again hx hk hready (hfits b.1 b.2)
        (Bool.and_eq_true_iff.1 hcounts).1 (hcells b List.mem_cons_self hcounts)
      obtain ⟨journal', hrun⟩ := ih (k := { k with journal }) ⟨hk.state, hk.undisturbed, hk.layers⟩
        (hready.setJournal journal) hrest
      refine ⟨journal', ?_⟩
      simp only [runFrom_bind, hinsert, hrun, runFrom_pure, List.length_cons]

/-- **A backfill of an index that has all records** changes nothing in its table. -/
theorem build_again (hx : x.RecordsValues) (hk : k.Healthy) (hready : k.Ready x)
    (hfits : ∀ key c e, x.entry key c = .ok e → x.Fits key c) {s : TableStore}
    (hcells : ∀ b ∈ s.scan, Counts x env.now b = true → x.HasReached k.store.get? b.1 b.2) :
    ∃ journal, runFrom (build env s) k =
      (.ok (s.scan.filter (Counts x env.now)).length, { k with journal, state := .active }) := by
  obtain ⟨journal, hrun⟩ := recordAll_again hx hk hready hfits hcells
  refine ⟨journal, ?_⟩
  have hsame : runFrom (build env s) k =
      (.ok (s.scan.filter (Counts x env.now)).length, (runFrom (build env s) k).2) := by
    unfold build
    rw [runFrom_bind, hk.lasting.isRetired]
    simp only [Bool.false_eq_true, if_false, runFrom_bind, hrun, runFrom_modify, runFrom_pure]
  obtain ⟨k₁, hrun₁, hactive⟩ := build_ok hk hsame
  cases hrun.symm.trans hrun₁
  rw [hsame, hactive ⟨hk.state, hk.undisturbed, hk.layers⟩]

end KeptIndex

/-! ### Counting entries -/

/-- The number of cells of a table that are live at `now`. -/
def TableStore.liveCount (s : TableStore) (now : Int) : Nat :=
  (s.scan.filter fun b => b.2.isLive now).length

/-- The record of a base cell, with the key that it has in the table of the index. -/
def SecondaryIndex.recordOf (x : SecondaryIndex) (b : Bytes × Cell) : Bytes × Cell :=
  (b.2.value, mirror ((x.place b.1 b.2.name).toOption.getD []) b.2)

theorem SecondaryIndex.recordOf_eq {x : SecondaryIndex} {b : Bytes × Cell} {p : Bytes}
    (hp : x.place b.1 b.2.name = .ok p) : x.recordOf b = (b.2.value, mirror p b.2) := by
  rw [recordOf, hp]
  rfl

namespace Mirrors

variable {x : SecondaryIndex} {base index : TableStore} {now : Int} {b b' : Bytes × Cell}

/-- The record of a cell that is to be recorded is there. -/
theorem counted (h : Mirrors x now base.get? index.get?) (hbase : base.layers.WellFormed)
    (hb : b ∈ base.scan.filter (Counts x now)) :
    base.get? b.1 b.2.name = some b.2 ∧ x.covers b.2 = true ∧ b.2.isLive now = true ∧
      ∃ p, x.place b.1 b.2.name = .ok p ∧ index.get? b.2.value p = some (mirror p b.2) := by
  obtain ⟨hmem, hcounts⟩ := List.mem_filter.1 hb
  obtain ⟨hlive, hcov⟩ := Bool.and_eq_true_iff.1 hcounts
  have hget := (TableStore.mem_scan hbase).1 hmem
  exact ⟨hget, hcov, hlive, h.recorded b.1 b.2.name b.2 hget hcov hlive⟩

/-- Cells that are to be recorded have records of their own. -/
theorem recordOf_injective (h : Mirrors x now base.get? index.get?) (hx : x.RecordsValues)
    (hbase : base.layers.WellFormed) (hv : Ledger.Named x.base base.get?)
    (hb : b ∈ base.scan.filter (Counts x now)) (hb' : b' ∈ base.scan.filter (Counts x now))
    (heq : x.recordOf b = x.recordOf b') : b = b' := by
  obtain ⟨hget, hcov, -, p, hp, -⟩ := h.counted hbase hb
  obtain ⟨hget', hcov', -, p', hp', -⟩ := h.counted hbase hb'
  rw [SecondaryIndex.recordOf_eq hp, SecondaryIndex.recordOf_eq hp'] at heq
  have hplace : p = p' := congrArg (fun r : Bytes × Cell => r.2.name) heq
  subst hplace
  obtain ⟨hkey, hname⟩ := hx.place_injective b.1 b'.1 b.2 b'.2 p hcov hcov'
    (hv _ _ _ hget).2 (hv _ _ _ hget').2 hp hp'
  rw [hkey, hname, hget'] at hget
  exact Prod.ext hkey (Option.some.inj hget).symm

/-- A live cell is found in the table of the index if and only if it is a record. -/
theorem mem_records (h : Mirrors x now base.get? index.get?) (hbase : base.layers.WellFormed)
    (hindex : index.layers.WellFormed) (hv : Ledger.Named x.base base.get?) (r : Bytes × Cell) :
    r ∈ (base.scan.filter (Counts x now)).map x.recordOf ↔
      r ∈ index.scan.filter fun b => b.2.isLive now := by
  obtain ⟨value, i⟩ := r
  rw [List.mem_filter, TableStore.mem_scan hindex, List.mem_map]
  constructor
  · rintro ⟨b, hb, heq⟩
    obtain ⟨-, -, hlive, p, hp, hw⟩ := h.counted hbase hb
    cases (SecondaryIndex.recordOf_eq hp).symm.trans heq
    exact ⟨hw, mirror_isLive hlive⟩
  · rintro ⟨hget, hlive⟩
    obtain ⟨key, name, b, hb, hcov, hblive, hp, rfl, hi⟩ := h.recording value i.name i hget hlive
    obtain ⟨rfl, -⟩ := hv key name b hb
    refine ⟨(key, b), List.mem_filter.2 ⟨(TableStore.mem_scan hbase).2 hb, ?_⟩, ?_⟩
    · simp only [Counts, hblive, hcov, Bool.and_self]
    · rw [SecondaryIndex.recordOf_eq (b := (key, b)) hp, ← hi]

/-- **The live cells of an index that mirrors its column are the records**, one for each cell. -/
theorem records_perm (h : Mirrors x now base.get? index.get?) (hx : x.RecordsValues)
    (hbase : base.layers.WellFormed) (hindex : index.layers.WellFormed)
    (hv : Ledger.Named x.base base.get?) :
    ((base.scan.filter (Counts x now)).map x.recordOf).Perm
      (index.scan.filter fun b => b.2.isLive now) := by
  have hscan : ∀ {s : TableStore}, s.layers.WellFormed → ∀ p : Bytes × Cell → Bool,
      (s.scan.filter p).Nodup := fun hs p => (TableStore.scan_nodup hs).of_map.filter p
  refine (List.perm_ext_iff_of_nodup ?_ (hscan hindex _)).2 (h.mem_records hbase hindex hv)
  exact List.Nodup.map_on (fun _ hb _ hb' heq => h.recordOf_injective hx hbase hv hb hb' heq)
    (hscan hbase _)

/-- **An index that mirrors its column has as many live cells.** -/
theorem count (hx : x.RecordsValues) (hbase : base.layers.WellFormed)
    (hindex : index.layers.WellFormed) (hv : Ledger.Named x.base base.get?)
    (h : Mirrors x now base.get? index.get?) :
    (base.scan.filter (Counts x now)).length = index.liveCount now := by
  have hlength := (h.records_perm hx hbase hindex hv).length_eq
  rw [List.length_map] at hlength
  exact hlength

end Mirrors

/-! ### Tables with their indexes -/

/-- All cells that are written have names that the layout of the table makes. -/
def WritesNames (s : TableSchema) (steps : List DeploymentStep) : Prop :=
  ∀ key mutation, .write key mutation ∈ steps → ∀ c ∈ mutation, s.HasName c.name

namespace Deployment

variable {d d' : Deployment} {P : KeptIndex → Prop} {column : String}

/-- Does work on the index of a column, if it succeeds. -/
def onIndex {α : Type} (d : Deployment) (column : String) (work : Upkeep α) :
    Option (α × Deployment) :=
  match d.indexes.members.find? column with
  | none => none
  | some k =>
    match runFrom work k with
    | (.ok a, k) =>
      let members := d.indexes.members.insert column k
      some (a, { d with indexes := { d.indexes with members } })
    | (.error _, _) => none

/-- Records the base table in the index of a column; also the number of entries. -/
def build (d : Deployment) (column : String) : Option (Nat × Deployment) :=
  d.onIndex column (KeptIndex.build d.environment d.base)

/-- Records cells that the base table held when a backfill began, in several parts.  After each
part there may be writes to the table. -/
def backfill (d : Deployment) (column : String) :
    List (List (Bytes × Cell) × List (Bytes × List Cell)) → Option Deployment
  | [] => some d
  | (cells, writes) :: rest => do
    let (_, d) ← d.onIndex column (recordAll d.environment cells)
    let d ← d.run (writes.map fun write => .write write.1 write.2)
    d.backfill column rest

theorem onIndex_eq_some {α : Type} {work : Upkeep α} {a : α} :
    d.onIndex column work = some (a, d') ↔ ∃ k k', d.indexes.members.find? column = some k ∧
      runFrom work k = (.ok a, k') ∧
      d' = { d with
        indexes := { d.indexes with members := d.indexes.members.insert column k' } } := by
  unfold onIndex
  cases hk : d.indexes.members.find? column with
  | none => simp
  | some k =>
    rcases hrun : runFrom work k with ⟨e | a', k'⟩
    · simp [hrun]
    · simp only [hrun, Option.some.injEq, Prod.mk.injEq]
      constructor
      · rintro ⟨rfl, rfl⟩
        exact ⟨k, k', rfl, hrun, rfl⟩
      · rintro ⟨_, _, rfl, hrun', rfl⟩
        cases hrun.symm.trans hrun'
        exact ⟨rfl, rfl⟩

/-! ### The base table -/

/-- The base table is sound, and its cells have names that its layout makes. -/
def Grounded (s : TableSchema) (d : Deployment) : Prop :=
  d.base.layers.WellFormed ∧ Ledger.Named s d.base.get?

theorem setStore_base (d : Deployment) (table : TableRef) (s : TableStore) :
    (d.setStore table s).base = if table = .base then s else d.base := by
  cases table with
  | base => rfl
  | index column =>
    simp only [setStore, reduceCtorEq, if_false]
    split <;> rfl

theorem Grounded.setStore {schema : TableSchema} (h : d.Grounded schema) {table : TableRef}
    {s s' : TableStore} (hs : d.store? table = some s)
    (hsame : s.layers.WellFormed → s.Rearranged s') : (d.setStore table s').Grounded schema := by
  unfold Grounded
  rw [setStore_base]
  split
  · rename_i htable
    subst htable
    cases hs
    have hsame := hsame h.1
    exact ⟨hsame.layers, hsame.get? ▸ h.2⟩
  · exact h

theorem Grounded.step {schema : TableSchema} (h : d.Grounded schema) {a : DeploymentStep}
    (hnames : ∀ key mutation, a = .write key mutation → ∀ c ∈ mutation, schema.HasName c.name)
    (hstep : d.step a = some d') : d'.Grounded schema := by
  cases a with
  | write key mutation =>
    obtain ⟨base, indexes, hrun, rfl⟩ := step_write hstep
    have hnamed := TableStore.apply_induction h.1 hrun (fun v _ _ => Ledger.Named schema v)
      (fun _ _ _ c hc hv _ => hv.set key (hnames key mutation rfl c hc))
      (fun _ _ _ _ c _ hc hv _ _ => hv.set key (hnames key mutation rfl c hc)) h.2
    obtain ⟨-, rfl, -⟩ := TableStore.apply_ok hrun
    exact ⟨TableStore.written_wellFormed h.1 d.now key mutation, hnamed⟩
  | issueFlush table order =>
    obtain ⟨s, ticket, s', order', hs, hissue, rfl⟩ := step_issueFlush hstep
    exact h.setStore hs fun hwf => TableStore.rearranged_of_issueFlush hwf hissue
  | finishFlush table ticket =>
    obtain ⟨s, hs, rfl⟩ := step_finishFlush hstep
    exact h.setStore hs fun hwf => TableStore.finishFlush_rearranged hwf ticket
  | truncate timestamp =>
    obtain ⟨base, indexes, hdiscard, -, rfl⟩ := step_truncate hstep
    have hbase := TableStore.truncated_of_discard h.1 hdiscard
    refine ⟨hbase.layers, ?_⟩
    show Ledger.Named schema base.get?
    rw [hbase.get?]
    exact h.2.discard timestamp
  | wait seconds =>
    cases hstep
    exact h

theorem Grounded.run {schema : TableSchema} (h : d.Grounded schema) {steps : List DeploymentStep}
    (hnames : WritesNames schema steps) (hrun : d.run steps = some d') : d'.Grounded schema := by
  induction steps generalizing d with
  | nil =>
    cases hrun
    exact h
  | cons a rest ih =>
    obtain ⟨d₁, hstep, hrest⟩ := run_cons.1 hrun
    have h₁ := h.step (fun key mutation ha => hnames key mutation (ha ▸ List.mem_cons_self)) hstep
    exact ih h₁ (fun key mutation hmem => hnames key mutation (List.mem_cons_of_mem _ hmem)) hrest

/-! ### The index of a column -/

/-- The column has an index with a property. -/
def IndexIs (d : Deployment) (column : String) (P : KeptIndex → Prop) : Prop :=
  ∃ k, d.indexes.members.find? column = some k ∧ P k

theorem IndexIs.setStore (h : d.IndexIs column P) {table : TableRef} {s s' : TableStore}
    (hs : d.store? table = some s) (hP : ∀ {k}, k.store = s → P k → P { k with store := s' }) :
    (d.setStore table s').IndexIs column P := by
  obtain ⟨k, hk, hkP⟩ := h
  cases table with
  | base => exact ⟨k, hk, hkP⟩
  | index other =>
    cases hfind : d.indexes.members.find? other with
    | none => simp [store?, hfind] at hs
    | some k₁ =>
      simp only [store?, hfind, Option.map_some, Option.some.injEq] at hs
      simp only [Deployment.setStore, hfind, IndexIs, Bindings.find?_insert]
      by_cases hc : column = other
      · subst hc
        cases hfind.symm.trans hk
        exact ⟨_, if_pos rfl, hP hs hkP⟩
      · exact ⟨k, by rw [if_neg hc]; exact hk, hkP⟩

/-- **What upkeep keeps of an index, every step keeps.** -/
theorem IndexIs.step (hP : KeptByUpkeep P) (hforgotten : ∀ {k}, P k → P { k with journal := [] })
    (hfinished : ∀ {k} ticket, P k → P { k with store := (k.store.finishFlush ticket).2 })
    (h : d.IndexIs column P) {a : DeploymentStep} (hstep : d.step a = some d') :
    d'.IndexIs column P := by
  cases a with
  | write key mutation =>
    obtain ⟨base, indexes, hrun, rfl⟩ := step_write hstep
    have hkept : Keeps (fun s : IndexSet => ∃ k, s.members.find? column = some k ∧ P k)
        (d.base.apply d.now (IndexSet.hook d.environment) key mutation) :=
      TableStore.apply_keeps _ _ fun change _ s ⟨k, hk, hkP⟩ =>
        IndexSet.performAll_keeps ((hP.access d.now).followCovered rfl key change) hforgotten hk hkP
    have hdone := hkept d.indexes h
    rw [hrun] at hdone
    exact hdone
  | issueFlush table order =>
    obtain ⟨s, ticket, s', order', hs, hissue, rfl⟩ := step_issueFlush hstep
    exact h.setStore hs fun hks hkP => hP.issued hkP (hks ▸ hissue)
  | finishFlush table ticket =>
    obtain ⟨s, hs, rfl⟩ := step_finishFlush hstep
    exact h.setStore hs fun hks hkP => hks ▸ hfinished ticket hkP
  | truncate timestamp =>
    obtain ⟨base, indexes, -, hall, rfl⟩ := step_truncate hstep
    obtain ⟨k, hk, hkP⟩ := h
    have hdone := IndexSet.performAll_keeps (hP.truncate timestamp) hforgotten hk hkP
    have hindexes : indexes = (d.indexes.truncateAll timestamp).2 := by rw [hall]
    rw [hindexes]
    exact hdone
  | wait seconds =>
    cases hstep
    exact h

theorem IndexIs.run (hP : KeptByUpkeep P) (hforgotten : ∀ {k}, P k → P { k with journal := [] })
    (hfinished : ∀ {k} ticket, P k → P { k with store := (k.store.finishFlush ticket).2 })
    (h : d.IndexIs column P) {steps : List DeploymentStep} (hrun : d.run steps = some d') :
    d'.IndexIs column P :=
  foldlM_some_keeps (P := fun d : Deployment => d.IndexIs column P)
    (fun _ _ _ h hstep => IndexIs.step hP hforgotten hfinished h hstep) hrun h

theorem IndexIs.onIndex {α : Type} {work : Upkeep α} (hwork : Keeps P work)
    (h : d.IndexIs column P) {a : α} (hrun : d.onIndex column work = some (a, d')) :
    d'.IndexIs column P := by
  obtain ⟨k, hk, hkP⟩ := h
  obtain ⟨_, k', hk₁, hwork', rfl⟩ := onIndex_eq_some.1 hrun
  cases hk.symm.trans hk₁
  have hdone := hwork k hkP
  rw [hwork'] at hdone
  exact ⟨k', by simp [Bindings.find?_insert], hdone⟩

end Deployment

/-! ### Backfills of a column -/

namespace Tracks

variable {x : SecondaryIndex} {d d' : Deployment}

/-- The pending cells come first, part by part. -/
theorem record (hx : x.RecordsValues) {cells rest : List (Bytes × Cell)} {count : Nat}
    (h : Tracks (fun now v _ w => Backfilling x now (cells ++ rest) v w) x d)
    (hrun : d.onIndex x.column (recordAll d.environment cells) = some (count, d')) :
    Tracks (fun now v _ w => Backfilling x now rest v w) x d' ∧ d'.base = d.base ∧
      d'.now = d.now ∧ count = (cells.filter (Counts x d.now)).length := by
  obtain ⟨k, hk, hhealthy, hindex, hI⟩ := h.index
  obtain ⟨_, k', hk₁, hwork, rfl⟩ := Deployment.onIndex_eq_some.1 hrun
  cases hk.symm.trans hk₁
  obtain ⟨w, hbecame, hw, hcount⟩ := recordAll_ok hx hhealthy hindex hI hwork
  refine ⟨⟨h.base, h.named, k', ?_, hbecame.healthy, hbecame.index.trans hindex, ?_⟩, rfl, rfl,
    hcount⟩
  · simp [Bindings.find?_insert]
  · rw [hbecame.get?]
    exact hw

/-- **A backfill**, with writes between its parts. -/
theorem backfill (hx : x.RecordsValues)
    {parts : List (List (Bytes × Cell) × List (Bytes × List Cell))}
    (hnames : ∀ part ∈ parts, ∀ write ∈ part.2, ∀ c ∈ write.2, x.base.HasName c.name)
    (h : Tracks (fun now v _ w => Backfilling x now (parts.flatMap Prod.fst) v w) x d)
    (hrun : d.backfill x.column parts = some d') :
    Tracks (fun now v _ w => Backfilling x now [] v w) x d' := by
  induction parts generalizing d with
  | nil =>
    cases hrun
    exact h
  | cons part rest ih =>
    obtain ⟨⟨count, d₁⟩, hrecord, hrun⟩ := Option.bind_eq_some_iff.1 hrun
    obtain ⟨d₂, hwrites, hrest⟩ := Option.bind_eq_some_iff.1 hrun
    obtain ⟨h₁, -⟩ := h.record hx hrecord
    obtain ⟨h₂, -⟩ := h₁.run_writes (keptByCells_backfilling hx _)
      (hnames part List.mem_cons_self) hwrites
    exact ih (fun part hpart => hnames part (List.mem_cons_of_mem _ hpart)) h₂ hrest

/-- All cells that a scan finds are pending at first. -/
theorem beginBackfill (h : Tracks (fun now v _ w => Traces x now v w) x d)
    {pending : List (Bytes × Cell)} (hpending : pending = d.base.scan) :
    Tracks (fun now v _ w => Backfilling x now pending v w) x d := by
  obtain ⟨k, hk, hhealthy, hindex, hI⟩ := h.index
  subst hpending
  exact ⟨h.base, h.named, k, hk, hhealthy, hindex,
    .start hI (fun _ _ => TableStore.mem_scan h.base) h.named⟩

/-- **When no cell is pending, the index mirrors its column.** -/
theorem endBackfill (hx : x.RecordsValues)
    (h : Tracks (fun now v _ w => Backfilling x now [] v w) x d) :
    Tracks (Mirrors.invariant x) x d := by
  obtain ⟨k, hk, hhealthy, hindex, hI⟩ := h.index
  exact ⟨h.base, h.named, k, hk, hhealthy, hindex, hI.mirrors hx h.named⟩

/-- **A backfill without interruption** makes the index active. -/
theorem build (hx : x.RecordsValues) {count : Nat}
    (h : Tracks (fun now v _ w => Traces x now v w) x d)
    (hbuild : d.build x.column = some (count, d')) :
    Tracks (Mirrors.invariant x) x d' ∧ d'.base = d.base ∧ d'.now = d.now ∧
      count = (d.base.scan.filter (Counts x d.now)).length ∧
      d'.IndexIs x.column fun k => k.state = .active := by
  have hbegun := h.beginBackfill (List.append_nil d.base.scan)
  obtain ⟨k, hk, hhealthy, hindex, -⟩ := h.index
  obtain ⟨_, k', hk₁, hwork, rfl⟩ := Deployment.onIndex_eq_some.1 hbuild
  cases hk.symm.trans hk₁
  obtain ⟨k₁, hrecord, hactive⟩ := build_ok hhealthy hwork
  obtain ⟨hrecorded, -, -, hcount⟩ := hbegun.record hx
    (Deployment.onIndex_eq_some.2 ⟨k, k₁, hk, hrecord, rfl⟩)
  have hmirrors := hrecorded.endBackfill hx
  obtain ⟨k₂, hk₂, hhealthy₁, hindex₁, hI⟩ := hmirrors.index
  have hsame : k₂ = k₁ := by simpa [Bindings.find?_insert] using hk₂.symm
  subst hsame
  obtain rfl := hactive hhealthy₁
  have hfind : Bindings.find? x.column (d.indexes.members.insert x.column
      { k₂ with state := .active }) = some { k₂ with state := .active } := by
    simp [Bindings.find?_insert]
  refine ⟨⟨h.base, h.named, _, hfind, ⟨?_, hhealthy₁.undisturbed, hhealthy₁.layers⟩, hindex₁, hI⟩,
    rfl, rfl, hcount, _, hfind, rfl⟩
  show IndexState.active ≠ IndexState.invalidated
  decide

end Tracks

/-- A backfill succeeds if all cells that are to be recorded have entries that fit. -/
theorem Deployment.build_succeeds {d : Deployment} {x : SecondaryIndex} {I : IndexInvariant}
    (h : Tracks I x d) (hready : d.IndexIs x.column (Ready x))
    (hfits : ∀ b ∈ d.base.scan, b.2.isLive d.now = true → x.covers b.2 = true → x.Fits b.1 b.2) :
    ∃ count d', d.build x.column = some (count, d') := by
  obtain ⟨k, hk, hhealthy, -, -⟩ := h.index
  obtain ⟨_, hk₁, hready⟩ := hready
  cases hk.symm.trans hk₁
  have hresult := build_result hready d.environment hfits
  rw [if_neg] at hresult
  · obtain ⟨count, hcount⟩ := hresult
    exact ⟨count, _, Deployment.onIndex_eq_some.2 ⟨k, _, hk, Prod.ext hcount rfl, rfl⟩⟩
  · rw [hhealthy.lasting.disturb]
    exact hhealthy.state

/-! ### Exactness -/

namespace Deployment

/-- The index is exact.  A backfill finds as many entries as there are live cells in the table of
the index, and leaves the table as it is. -/
def InStep (x : SecondaryIndex) (d : Deployment) : Prop :=
  ∃ k, d.indexes.members.find? x.column = some k ∧ IndexExact x d.base k.store d.now ∧
    ∃ d', d.build x.column = some (k.store.liveCount d.now, d') ∧ d'.base = d.base ∧
      d'.IndexIs x.column fun k' => k'.store = k.store ∧ k'.state = .active

/-- The index is in step with its table, and stays so. -/
def StaysInStep (x : SecondaryIndex) (d : Deployment) : Prop :=
  ∀ later d', WritesNames x.base later → d.run later = some d' → d'.InStep x

end Deployment

/-- **An index that mirrors its column is in step.** -/
theorem Tracks.inStep {x : SecondaryIndex} {d : Deployment} (hx : x.RecordsValues)
    (hresolved : x.IsResolved) (hcolumn : x.IsOnValueColumn)
    (hfits : ∀ key c e, x.entry key c = .ok e → x.Fits key c)
    (h : Tracks (Mirrors.invariant x) x d) (hready : d.IndexIs x.column (Ready x)) :
    d.InStep x := by
  obtain ⟨k, hk, hhealthy, hindex, hI⟩ := h.index
  obtain ⟨_, hk₁, hready⟩ := hready
  cases hk.symm.trans hk₁
  have hcells : ∀ b ∈ d.base.scan, Counts x d.now b = true →
      x.HasReached k.store.get? b.1 b.2 := by
    intro b hb hcounts
    obtain ⟨hlive, hcov⟩ := Bool.and_eq_true_iff.1 hcounts
    obtain ⟨p, hp, hw⟩ :=
      hI.recorded b.1 b.2.name b.2 ((TableStore.mem_scan h.base).1 hb) hcov hlive
    exact ⟨p, hp, mirror p b.2, hw, Cell.supersedes_irrefl _⟩
  obtain ⟨journal, hrun⟩ : ∃ journal, runFrom (KeptIndex.build d.environment d.base) k =
      (.ok (d.base.scan.filter (Counts x d.now)).length, { k with journal, state := .active }) :=
    build_again hx hhealthy hready hfits hcells
  refine ⟨k, hk, Mirrors.exact hx hresolved hcolumn h.base hhealthy.layers h.named hI, _,
    Deployment.onIndex_eq_some.2 ⟨k, { k with journal, state := .active }, hk, ?_, rfl⟩, rfl,
    { k with journal, state := .active }, ?_, rfl, rfl⟩
  · rw [hrun, ← Mirrors.count hx h.base hhealthy.layers h.named hI]
  · simp [Bindings.find?_insert]

theorem ready_run {x : SecondaryIndex} {d d' : Deployment} (h : d.IndexIs x.column (Ready x))
    {steps : List DeploymentStep} (hrun : d.run steps = some d') :
    d'.IndexIs x.column (Ready x) :=
  h.run (ready_keptByUpkeep x) (fun h => h.setJournal []) (fun ticket h => h.finished ticket) hrun

theorem ready_backfill {x : SecondaryIndex} {d d' : Deployment}
    (h : d.IndexIs x.column (Ready x))
    {parts : List (List (Bytes × Cell) × List (Bytes × List Cell))}
    (hrun : d.backfill x.column parts = some d') : d'.IndexIs x.column (Ready x) := by
  induction parts generalizing d with
  | nil =>
    cases hrun
    exact h
  | cons part rest ih =>
    obtain ⟨⟨count, d₁⟩, hrecord, hrun⟩ := Option.bind_eq_some_iff.1 hrun
    obtain ⟨d₂, hwrites, hrest⟩ := Option.bind_eq_some_iff.1 hrun
    exact ih (ready_run (h.onIndex ((ready_keptByUpkeep x).recordAll _ _) hrecord) hwrites) hrest

/-- **An index that mirrors its column stays in step.** -/
theorem Tracks.staysInStep {x : SecondaryIndex} {d : Deployment} (hx : x.RecordsValues)
    (hresolved : x.IsResolved) (hcolumn : x.IsOnValueColumn)
    (hfits : ∀ key c e, x.entry key c = .ok e → x.Fits key c)
    (h : Tracks (Mirrors.invariant x) x d) (hready : d.IndexIs x.column (Ready x)) :
    d.StaysInStep x := by
  intro later d' hnames hrun
  have hlater := h.run (keptBySteps_mirrors hx) hnames hrun
  exact hlater.inStep hx hresolved hcolumn hfits (ready_run hready hrun)

/-- **Backfills are exact, and a second one changes nothing.**  Let an index on a regular or a
static column be added to a table after any run of writes, flushes and truncations, and let it
follow any such run before its backfill.  The backfill succeeds if and only if every live cell of
the column has an entry.  Its count is the number of live cells that are then in the table of the
index; these correspond one to one to those of the column, and do so after any later run; and a
further backfill leaves the table of the index as it is.  All the same holds if the cells that the
scan has found are recorded in several parts, with writes to the table between them. -/
theorem backfill_exact {schema : TableSchema} {column : String} {indexName : Option String}
    {x : SecondaryIndex} (hx : SecondaryIndex.ofColumn schema column indexName = .ok x)
    (hrole : schema.role? column = some .regular ∨ schema.role? column = some .static)
    (earlier : IndexSet) (now : Int) {before : List DeploymentStep}
    (hbefore : WritesNames schema before) {d₀ : Deployment}
    (hstarted : (Deployment.start schema earlier now).run before = some d₀) {indexes : IndexSet}
    (hadd : d₀.indexes.add x = .ok indexes) {building : List DeploymentStep}
    (hbuilding : WritesNames schema building) {d₁ : Deployment}
    (hfollowed : Deployment.run { d₀ with indexes } building = some d₁) :
    ((∃ count d₂, d₁.build column = some (count, d₂)) ↔
      ∀ key c, c ∈ d₁.base.liveCells d₁.now key → schema.IsCellOf column c →
        ∃ e, x.entry key c = .ok e) ∧
    (∀ count d₂, d₁.build column = some (count, d₂) →
      d₂.base = d₁.base ∧ d₂.StaysInStep x ∧
        d₂.IndexIs column fun k => k.state = .active ∧ count = k.store.liveCount d₂.now) ∧
    ∀ parts d₂, parts.flatMap Prod.fst = d₁.base.scan →
      (∀ part ∈ parts, ∀ write ∈ part.2, ∀ c ∈ write.2, schema.HasName c.name) →
      d₁.backfill column parts = some d₂ → d₂.StaysInStep x := by
  obtain ⟨rfl, rfl, hresolved⟩ := SecondaryIndex.ofColumn_ok hx
  have hcolumn := SecondaryIndex.isOnValueColumn_of_role hresolved hrole
  have hrecords := SecondaryIndex.recordsValues_of_value_column hcolumn
  have hfits : ∀ key c e, x.entry key c = .ok e → x.Fits key c := by
    intro key c e he
    obtain ⟨target, col, -, hmade⟩ := SecondaryIndex.ofColumn_parts hx
    exact ⟨e, he, SecondaryIndex.entry_decodes ⟨_, _, _, by rw [hmade]⟩ he⟩
  have hground : (Deployment.start x.base earlier now).Grounded x.base :=
    ⟨Layers.WellFormed.empty, fun _ _ _ h => by cases h⟩
  obtain ⟨hbase, hnamed⟩ := hground.run hbefore hstarted
  have hadded : Tracks (fun now v _ w => Traces x now v w) x { d₀ with indexes } :=
    .add hbase hnamed hadd (Traces.empty x d₀.now d₀.base.get?)
  have hready₀ : Deployment.IndexIs { d₀ with indexes } x.column (Ready x) :=
    ⟨ofIndex x, IndexSet.find?_of_add hadd, ready_ofIndex x⟩
  have h₁ := hadded.run (keptBySteps_traces hrecords) hbuilding hfollowed
  have hready₁ := ready_run hready₀ hfollowed
  have hstays : ∀ {d}, Tracks (Mirrors.invariant x) x d → d.IndexIs x.column (Ready x) →
      d.StaysInStep x := fun h hready => h.staysInStep hrecords hresolved hcolumn hfits hready
  refine ⟨⟨?_, fun hentries => ?_⟩, fun count d₂ hbuild => ?_,
    fun parts d₂ hparts hnames hrun => ?_⟩
  · rintro ⟨count, d₂, hbuild⟩ key c hc hof
    obtain ⟨h₂, hsame, hnow, -, -⟩ := h₁.build hrecords hbuild
    obtain ⟨k, -, hhealthy, -, hI⟩ := h₂.index
    have hexact := Mirrors.exact hrecords hresolved hcolumn h₂.base hhealthy.layers h₂.named hI
    rw [← hsame, ← hnow] at hc
    obtain ⟨e, he, -⟩ := hexact.recorded key c hc hof
    exact ⟨e, he⟩
  · refine Deployment.build_succeeds h₁ hready₁ fun b hb hlive hcov => ?_
    have hget := (TableStore.mem_scan h₁.base).1 hb
    have hname := (h₁.named _ _ _ hget).2
    have hof := (SecondaryIndex.covers_iff_isCellOf hresolved hcolumn hname).1 hcov
    obtain ⟨e, he⟩ := hentries b.1 b.2 ((TableStore.mem_liveCells h₁.base).2 ⟨hget, hlive⟩) hof
    exact hfits b.1 b.2 e he
  · obtain ⟨h₂, hsame, hnow, hcount, hactive⟩ := h₁.build hrecords hbuild
    have hready₂ := hready₁.onIndex ((ready_keptByUpkeep x).build _ _) hbuild
    obtain ⟨k, hk, hhealthy, -, hI⟩ := h₂.index
    obtain ⟨_, hk', hactive⟩ := hactive
    cases hk.symm.trans hk'
    refine ⟨hsame, hstays h₂ hready₂, k, hk, hactive, ?_⟩
    rw [hcount, ← hsame, ← hnow]
    exact Mirrors.count hrecords h₂.base hhealthy.layers h₂.named hI
  · have h₂ := (h₁.beginBackfill hparts).backfill hrecords hnames hrun
    exact hstays (h₂.endBackfill hrecords) (ready_backfill hready₁ hrun)

/-! ### A level that is corrected meanwhile -/

/-- The levels of two rivers are written before there is an index of them. -/
def levelsBefore : List DeploymentStep :=
  [.write [65] [reading "level" 49 1], .write [66] [reading "level" 49 1]]

/-- One is corrected while the index is being built.  The index marks an entry as deleted that it
never had. -/
def levelsMeanwhile : List DeploymentStep :=
  [.write [65] [reading "level" 50 2], .issueFlush (.index "level") {}]

/-- The other one is corrected after the scan, so the cell that the scan found is recorded too
late. -/
def interruptedParts (d : Deployment) : List (List (Bytes × Cell) × List (Bytes × List Cell)) :=
  [([], [([66], [reading "level" 50 3])]), (d.base.scan, [])]

/-- The readings with the index of the levels, just before its backfill. -/
def followedLevels : Option Deployment := do
  let d ← (Deployment.start readings {} 0).run levelsBefore
  let indexes ← (d.indexes.add readingsByLevel).toOption
  Deployment.run { d with indexes } levelsMeanwhile

theorem writesNames_levelsBefore : WritesNames readings levelsBefore := by
  intro key mutation hmem c hc
  simp only [levelsBefore, List.mem_cons, DeploymentStep.write.injEq, List.not_mem_nil,
    or_false] at hmem
  rcases hmem with ⟨-, rfl⟩ | ⟨-, rfl⟩
  all_goals
    cases List.mem_singleton.1 hc
    exact hasName_level

theorem writesNames_levelsMeanwhile : WritesNames readings levelsMeanwhile := by
  intro key mutation hmem c hc
  simp only [levelsMeanwhile, List.mem_cons, DeploymentStep.write.injEq, reduceCtorEq,
    List.not_mem_nil, or_false] at hmem
  obtain ⟨-, rfl⟩ := hmem
  cases List.mem_singleton.1 hc
  exact hasName_level

/-- Both levels are recorded as they were corrected, in one go as well as in parts. -/
theorem backfill_exact_of_corrected_levels :
    SecondaryIndex.ofColumn readings "level" none = .ok readingsByLevel ∧
      readings.role? "level" = some .regular ∧ WritesNames readings levelsBefore ∧
      WritesNames readings levelsMeanwhile ∧
      ∃ d₀ indexes d₁ d₂ d₃, (Deployment.start readings {} 0).run levelsBefore = some d₀ ∧
        d₀.indexes.add readingsByLevel = .ok indexes ∧
        Deployment.run { d₀ with indexes } levelsMeanwhile = some d₁ ∧
        d₁.build "level" = some (2, d₂) ∧ d₂.StaysInStep readingsByLevel ∧
        d₁.backfill "level" (interruptedParts d₁) = some d₃ ∧
        d₃.base.liveCells 0 [66] = [reading "level" 50 3] ∧ d₃.StaysInStep readingsByLevel := by
  have hbuilt : (followedLevels.bind fun d => d.build "level").map Prod.fst = some 2 := by
    decide +kernel
  have hparts : (followedLevels.bind fun d => d.backfill "level" (interruptedParts d)).map
      (fun d => d.base.liveCells 0 [66]) = some [reading "level" 50 3] := by decide +kernel
  obtain ⟨⟨count, d₂⟩, hbuilt, rfl⟩ := Option.map_eq_some_iff.1 hbuilt
  obtain ⟨d₁, hfollowed, hbuild⟩ := Option.bind_eq_some_iff.1 hbuilt
  obtain ⟨d₃, hparts, hlive⟩ := Option.map_eq_some_iff.1 hparts
  rw [hfollowed] at hparts
  obtain ⟨d₀, hstarted, hadded⟩ := Option.bind_eq_some_iff.1 hfollowed
  obtain ⟨indexes, hadd, hmeanwhile⟩ := Option.bind_eq_some_iff.1 hadded
  have hadd : d₀.indexes.add readingsByLevel = .ok indexes := by
    cases hresult : d₀.indexes.add readingsByLevel with
    | error e =>
      rw [hresult] at hadd
      cases hadd
    | ok s =>
      rw [hresult] at hadd
      exact congrArg Except.ok (Option.some.inj hadd)
  obtain ⟨-, hbuilds, hbackfills⟩ := backfill_exact readingsByLevel_ofColumn (.inl rfl) {} 0
    writesNames_levelsBefore hstarted hadd writesNames_levelsMeanwhile hmeanwhile
  refine ⟨readingsByLevel_ofColumn, rfl, writesNames_levelsBefore, writesNames_levelsMeanwhile, d₀,
    indexes, d₁, d₂, d₃, hstarted, hadd, hmeanwhile, hbuild, (hbuilds _ _ hbuild).2.1, hparts,
    hlive, ?_⟩
  refine hbackfills (interruptedParts d₁) d₃ (by simp [interruptedParts]) ?_ hparts
  simp [interruptedParts, reading, Cell.ofValue, hasName_level]

end WideColumn
