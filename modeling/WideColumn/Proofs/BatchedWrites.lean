import WideColumn.Proofs.PendingFlushes
import WideColumn.Proofs.ReportedChanges

/-!
# Writes of several cells

The cells of a write are decided one after the other, against the stored cells and against those of
the write that were accepted before; what was accepted is kept aside and stored at the end.  So it
makes no difference whether cells are written together or each on its own:

* `Partition.extend_extend`, `Layers.store_extend` — cells that are stored together or in two parts;
* `TableStore.planCells_extend` — **cells that were accepted count like stored ones**;
* `TableStore.plan_append`, `TableStore.written_append` — a write in two parts;
* `TableStore.perform_append` — **a write can be divided anywhere**;
* `batch_equals_single_writes` — a write is the writes of its cells, one by one: the same table is
  left, and the hook is called alike.
-/

namespace WideColumn

open Effects

/-! ### Cells that are stored in two parts -/

namespace Partition

variable {p q r : Partition}

/-- Partitions with the same cells are the same. -/
theorem WellFormed.ext (hp : p.WellFormed) (hq : q.WellFormed)
    (h : ∀ name, p.find? name = q.find? name) : p = q :=
  hp.sorted.ext hq.sorted h

theorem extend_nil_left (hp : p.WellFormed) : extend [] p = p :=
  (WellFormed.nil.extend hp).ext hp fun name => by
    rw [find?_extend _ hp, Bindings.find?_nil, Option.or_none]

theorem extend_extend (hp : p.WellFormed) (hq : q.WellFormed) (hr : r.WellFormed) :
    p.extend (q.extend r) = (p.extend q).extend r :=
  (hp.extend (hq.extend hr)).ext ((hp.extend hq).extend hr) fun name => by
    rw [find?_extend _ (hq.extend hr), find?_extend _ hr, find?_extend _ hr, find?_extend _ hq,
      Option.or_assoc]

theorem extend_insert (hp : p.WellFormed) (hq : q.WellFormed) (c : Cell) :
    p.extend (q.insert c.name c) = (p.extend q).insert c.name c :=
  (hp.extend (hq.insert c)).ext ((hp.extend hq).insert c) fun name => by
    rw [find?_extend _ (hq.insert c), Bindings.find?_insert, Bindings.find?_insert,
      find?_extend _ hq]
    split <;> rfl

theorem extend_ne_nil (p : Partition) (hq : q.WellFormed) (hne : q ≠ []) : p.extend q ≠ [] := by
  obtain ⟨⟨name, c⟩, rest, rfl⟩ := List.exists_cons_of_ne_nil hne
  intro hnil
  have hfind := find?_extend p hq name
  rw [hnil, Bindings.find?_cons_self] at hfind
  cases hfind

end Partition

namespace Bindings

variable {κ α : Type} [Ord κ] [Std.TransOrd κ] [Std.LawfulEqOrd κ] [DecidableEq κ]

/-- What a key is bound to last counts. -/
theorem insert_insert {m : Bindings κ α} (hm : m.Sorted) (key : κ) (a b : α) :
    insert key b (insert key a m) = insert key b m := by
  refine (insert_sorted _ _ (insert_sorted _ _ hm)).ext (insert_sorted _ _ hm) fun k => ?_
  rw [find?_insert, find?_insert, find?_insert]
  split <;> rfl

end Bindings

namespace Layers

theorem store_nil (l : Layers) (key : Bytes) : l.store key [] = l := rfl

theorem store_of_ne_nil (l : Layers) (key : Bytes) {cells : Partition} (h : cells ≠ []) :
    l.store key cells =
      { l with memtable := l.memtable.insert key ((l.memtable.partition key).extend cells) } :=
  if_neg (by simpa using h)

/-- **Cells can be stored together or in two parts.** -/
theorem store_extend {l : Layers} (h : l.WellFormed) (key : Bytes) {p q : Partition}
    (hp : p.WellFormed) (hq : q.WellFormed) :
    l.store key (p.extend q) = (l.store key p).store key q := by
  by_cases hpnil : p = []
  · rw [hpnil, Partition.extend_nil_left hq, store_nil]
  by_cases hqnil : q = []
  · rw [hqnil, store_nil]
    rfl
  rw [store_of_ne_nil l key (Partition.extend_ne_nil p hq hqnil), store_of_ne_nil l key hpnil,
    store_of_ne_nil _ key hqnil, Partitions.partition_insert, if_pos rfl,
    Bindings.insert_insert h.memtable.sorted,
    Partition.extend_extend (h.memtable.partition key) hp hq]

end Layers

/-! ### Writes in two parts -/

namespace TableStore

variable {s : TableStore} {now : Int} {key : Bytes}

theorem planCells_append (stored : Bytes → Option Cell) (pending : Partition)
    (front back : List Cell) :
    planCells now stored pending (front ++ back) =
      ((planCells now stored pending front).1 ++
          (planCells now stored (planCells now stored pending front).2 back).1,
        (planCells now stored (planCells now stored pending front).2 back).2) := by
  induction front generalizing pending with
  | nil => rfl
  | cons c rest ih =>
    cases heff : c.effect now ((pending.find? c.name).or (stored c.name)) <;>
      simp only [List.cons_append, planCells, heff, ih]

/-- **Cells that were accepted count like stored ones**: the plan is the same whether they are kept
aside or were stored before. -/
theorem planCells_extend {stored : Bytes → Option Cell} {accepted pending : Partition}
    (haccepted : accepted.WellFormed) (hpending : pending.WellFormed) (cells : List Cell) :
    let plan := planCells now (fun name => (accepted.find? name).or (stored name)) pending cells
    planCells now stored (accepted.extend pending) cells = (plan.1, accepted.extend plan.2) := by
  induction cells generalizing pending with
  | nil => rfl
  | cons c rest ih =>
    have hfound : ((accepted.extend pending).find? c.name).or (stored c.name) =
        (pending.find? c.name).or ((accepted.find? c.name).or (stored c.name)) := by
      rw [Partition.find?_extend _ hpending, Option.or_assoc]
    have hinsert := Partition.extend_insert haccepted hpending c
    cases heff : c.effect now
        ((pending.find? c.name).or ((accepted.find? c.name).or (stored c.name))) <;>
      simp only [planCells, hfound, heff, ← hinsert, ih hpending, ih (hpending.insert c)]

/-- **The plan of a write in two parts**: the second one is planned for the table that the first one
leaves. -/
theorem plan_append (h : s.layers.WellFormed) (front back : List Cell) :
    s.changes now key (front ++ back) =
        s.changes now key front ++ (s.written now key front).changes now key back ∧
      s.winners now key (front ++ back) =
        (s.winners now key front).extend ((s.written now key front).winners now key back) := by
  have hview : (s.written now key front).layers.lookup key =
      fun name => ((s.winners now key front).find? name).or (s.layers.lookup key name) := by
    have hget := congrFun (get?_written h now key front) key
    funext name
    exact (congrFun hget name).trans (if_pos rfl)
  have hback : planCells now (s.layers.lookup key) (s.winners now key front) back =
      ((s.written now key front).changes now key back,
        (s.winners now key front).extend ((s.written now key front).winners now key back)) := by
    have hplan := @planCells_extend now (s.layers.lookup key) _ _
      (s.winners_wellFormed now key front) Partition.WellFormed.nil back
    rw [← hview] at hplan
    exact hplan
  have hboth : planCells now (s.layers.lookup key) [] (front ++ back) =
      (s.changes now key front ++
          (planCells now (s.layers.lookup key) (s.winners now key front) back).1,
        (planCells now (s.layers.lookup key) (s.winners now key front) back).2) :=
    planCells_append _ _ front back
  rw [hback] at hboth
  exact ⟨congrArg Prod.fst hboth, congrArg Prod.snd hboth⟩

theorem written_append (h : s.layers.WellFormed) (front back : List Cell) :
    s.written now key (front ++ back) = (s.written now key front).written now key back := by
  have hstore := Layers.store_extend h key (s.winners_wellFormed now key front)
    ((s.written now key front).winners_wellFormed now key back)
  unfold written at hstore ⊢
  rw [(plan_append h front back).2]
  exact congrArg (fun layers => ({ s with layers } : TableStore)) hstore

theorem checkWrite_append (now : Int) {front back : List Cell} :
    s.checkWrite key (front ++ back) = .ok () ↔
      s.checkWrite key front = .ok () ∧ (s.written now key front).checkWrite key back = .ok () := by
  rw [checkWrite_eq_ok, checkWrite_eq_ok, checkWrite_eq_ok, List.forall_mem_append]
  exact ⟨fun ⟨hopen, hkey, hfront, hback⟩ => ⟨⟨hopen, hkey, hfront⟩, hopen, hkey, hback⟩,
    fun ⟨⟨hopen, hkey, hfront⟩, _, _, hback⟩ => ⟨hopen, hkey, hfront, hback⟩⟩

variable {σ : Type} {hook : WriteHook σ} {s' : TableStore} {trace trace' : HookTrace σ}

/-- **A write can be divided anywhere.** -/
theorem perform_append (h : s.layers.WellFormed) (front back : List Cell) :
    s.perform trace (.apply now hook key (front ++ back)) = (.ok (), s', trace') ↔
      ∃ s₁ trace₁, s.perform trace (.apply now hook key front) = (.ok (), s₁, trace₁) ∧
        s₁.perform trace₁ (.apply now hook key back) = (.ok (), s', trace') := by
  simp only [perform_apply_eq_ok]
  rw [checkWrite_append now, written_append h, (plan_append h front back).1,
    forM_append_eq_ok]
  constructor
  · rintro ⟨⟨hfront, hback⟩, hs', trace₁, hfirst, hsecond⟩
    exact ⟨_, trace₁, ⟨hfront, rfl, hfirst⟩, hback, hs', hsecond⟩
  · rintro ⟨_, trace₁, ⟨hfront, rfl, hfirst⟩, hback, hs', hsecond⟩
    exact ⟨⟨hfront, hback⟩, hs', trace₁, hfirst, hsecond⟩

/-! ### Writes of single cells -/

/-- The writes of cells, each on its own. -/
def singles (now : Int) (hook : WriteHook σ) (key : Bytes) (mutation : List Cell) :
    List (StoreAction σ) :=
  mutation.map fun c => .apply now hook key [c]

/-- All actions of a run succeed if the first one does, and then all others. -/
theorem performAll_cons_eq_ok {a : StoreAction σ} {rest : List (StoreAction σ)} :
    performAll perform s trace (a :: rest) = ((a :: rest).map fun _ => .ok (), s', trace') ↔
      ∃ s₁ trace₁, s.perform trace a = (.ok (), s₁, trace₁) ∧
        performAll perform s₁ trace₁ rest = (rest.map fun _ => .ok (), s', trace') := by
  rcases hfirst : s.perform trace a with ⟨outcome, s₁, trace₁⟩
  rcases hrest : performAll perform s₁ trace₁ rest with ⟨outcomes, s₂, trace₂⟩
  rw [performAll_cons_eq hfirst, hrest]
  constructor
  · rintro ⟨⟩
    exact ⟨s₁, trace₁, rfl, hrest⟩
  · rintro ⟨_, _, ⟨⟩, h⟩
    cases hrest.symm.trans h
    rfl

/-- A write of no cells that succeeds leaves everything as it is. -/
theorem perform_nil (h : s.perform trace (.apply now hook key []) = (.ok (), s', trace')) :
    s' = s ∧ trace' = trace := by
  obtain ⟨-, rfl, hhook⟩ := perform_apply_eq_ok.1 h
  cases hhook
  exact ⟨rfl, rfl⟩

/-- A write that succeeds is the writes of its cells. -/
theorem performAll_singles (h : s.layers.WellFormed) {mutation : List Cell}
    (hbatch : s.perform trace (.apply now hook key mutation) = (.ok (), s', trace')) :
    performAll perform s trace (singles now hook key mutation) =
      ((singles now hook key mutation).map fun _ => .ok (), s', trace') := by
  induction mutation generalizing s trace with
  | nil =>
    obtain ⟨rfl, rfl⟩ := perform_nil hbatch
    rfl
  | cons c rest ih =>
    obtain ⟨s₁, trace₁, hfirst, hrest⟩ := (perform_append h [c] rest).1 hbatch
    have h₁ : s₁.layers.WellFormed := by
      obtain ⟨-, rfl, -⟩ := perform_apply_eq_ok.1 hfirst
      exact written_wellFormed h now key [c]
    exact performAll_cons_eq_ok.2 ⟨s₁, trace₁, hfirst, ih h₁ hrest⟩

/-- The writes of cells that all succeed are a write of them together. -/
theorem perform_of_singles (h : s.layers.WellFormed) {mutation : List Cell} (hne : mutation ≠ [])
    (hsingles : performAll perform s trace (singles now hook key mutation) =
      ((singles now hook key mutation).map fun _ => .ok (), s', trace')) :
    s.perform trace (.apply now hook key mutation) = (.ok (), s', trace') := by
  induction mutation generalizing s trace with
  | nil => exact absurd rfl hne
  | cons c rest ih =>
    obtain ⟨s₁, trace₁, hfirst, hrest⟩ := performAll_cons_eq_ok.1 hsingles
    have h₁ : s₁.layers.WellFormed := by
      obtain ⟨-, rfl, -⟩ := perform_apply_eq_ok.1 hfirst
      exact written_wellFormed h now key [c]
    by_cases hnil : rest = []
    · subst hnil
      cases hrest
      exact hfirst
    · exact (perform_append h [c] rest).2 ⟨s₁, trace₁, hfirst, ih h₁ hnil hrest⟩

end TableStore

/-- **A write is the writes of its cells, one by one.**  At any time in the life of a table, and
whatever the cells and the hook: if the write succeeds, so do the writes of its single cells in their
order; they leave the same table, and so the same memtable, and the hook was called for the same
changes in the same order and is left in the same state.  Conversely, if there are cells and all
writes of single ones succeed, so does the write of them together. -/
theorem batch_equals_single_writes {σ τ : Type} {schema : TableSchema}
    {steps : List (ServedStep τ)} {t : ServedTable}
    (hreached : (ServedTable.ofSchema schema).run steps = some t) (now : Int) (hook : WriteHook σ)
    (key : Bytes) (mutation : List Cell) (st : σ) :
    let batch := t.store.perform ([], st) (.apply now hook key mutation)
    let single := performAll TableStore.perform t.store ([], st)
      (TableStore.singles now hook key mutation)
    (batch.1 = .ok () →
      single.1 = mutation.map (fun _ => .ok ()) ∧ single.2.1 = batch.2.1 ∧
        single.2.2 = batch.2.2) ∧
    (mutation ≠ [] → single.1 = mutation.map (fun _ => .ok ()) → batch.1 = .ok ()) := by
  intro batch single
  have hwf : t.store.layers.WellFormed :=
    ((ServedTable.Sound.ofSchema schema).run hreached).kept.layers
  have hoks : ((TableStore.singles now hook key mutation).map fun _ => Except.ok ()) =
      mutation.map fun _ => (Except.ok () : Outcome) := by
    rw [TableStore.singles, List.map_map]
    rfl
  constructor
  · intro hbatch
    have hsingle := TableStore.performAll_singles hwf
      (show t.store.perform ([], st) (.apply now hook key mutation) =
        (.ok (), batch.2.1, batch.2.2) from Prod.ext hbatch rfl)
    rw [hoks] at hsingle
    have hsame : single = (mutation.map fun _ => .ok (), batch.2.1, batch.2.2) := hsingle
    rw [hsame]
    exact ⟨rfl, rfl, rfl⟩
  · intro hne hsingle
    have hbatch := TableStore.perform_of_singles hwf hne
      (show performAll TableStore.perform t.store ([], st)
        (TableStore.singles now hook key mutation) = (_, single.2.1, single.2.2) from
          Prod.ext (hsingle.trans hoks.symm) rfl)
    exact congrArg Prod.fst hbatch

/-- A level of river 65 that was flushed. -/
def flushedLevel : List (ServedStep Unit) :=
  [.apply 0 .none () [65] [reading "level" 97 5], .flush]

/-- An older level, a note that is corrected at once, and the deletion of the level. -/
def correctedReadings : List Cell :=
  [reading "level" 49 1, reading "note" 97 1, reading "note" 98 2,
    .tombstone (readingName "level") 6 0]

/-- Together and one by one they make three calls and leave the same table. -/
theorem batch_equals_single_writes_readings :
    ∃ t, (ServedTable.ofSchema readings).run flushedLevel = some t ∧
      let batch := t.store.perform ([], ()) (.apply 0 .none [65] correctedReadings)
      let single := performAll TableStore.perform t.store ([], ())
        (TableStore.singles 0 .none [65] correctedReadings)
      batch.1 = .ok () ∧ single.2.1 = batch.2.1 ∧ single.2.2.1 =
        [([65], .insert (reading "note" 97 1)),
          ([65], .update (reading "note" 97 1) (reading "note" 98 2)),
          ([65], .delete (reading "level" 97 5))] := by
  have hview : ((ServedTable.ofSchema readings).run flushedLevel).map (fun t =>
      let batch := t.store.perform ([], ()) (.apply 0 .none [65] correctedReadings)
      (batch.1, batch.2.2.1)) =
        some (.ok (), [([65], .insert (reading "note" 97 1)),
          ([65], .update (reading "note" 97 1) (reading "note" 98 2)),
          ([65], .delete (reading "level" 97 5))]) := by decide +kernel
  obtain ⟨t, ht, hbatch⟩ := Option.map_eq_some_iff.1 hview
  obtain ⟨hok, hcalls⟩ := Prod.ext_iff.1 hbatch
  obtain ⟨-, hstore, htrace⟩ :=
    (batch_equals_single_writes ht 0 .none [65] correctedReadings ()).1 hok
  exact ⟨t, ht, hok, hstore, (congrArg Prod.fst htrace).trans hcalls⟩

end WideColumn
