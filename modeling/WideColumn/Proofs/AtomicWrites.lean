import WideColumn.Proofs.Deployments

/-!
# Atomic writes

A write is decided cell by cell, and the hook is shown a change as soon as it is found.  The hook can
fail at any of them, after earlier cells of the write were accepted.  What was accepted is kept aside
until the end, so the table does not change if the write fails.

`TableStore.apply` gives back the table after a write, and so has no table to spoil.  Here the write
is done in place, on a table that each of its steps could change:

* `TableStore.applyInPlace`, `runFrom_applyInPlace` — **a write in place leaves what `apply` gives
  back**, and the table from before if it fails;
* `Refusal` — all reasons for which a write fails, with what the hook was shown up to then;
* `ChangesAt` — the tables differ in cells of one partition of their memtables, which have the names
  of written cells;
* `writes_are_atomic` — **a write that fails changes nothing, and one that succeeds nothing else
  than its cells**; no step before the last one changes the table.
-/

namespace WideColumn

open Effects

namespace TableStore

variable {σ : Type} {s s' : TableStore} {now : Int} {hook : WriteHook σ} {key : Bytes}
  {mutation : List Cell}

/-! ### Writes in place -/

/-- Shows a change to a hook, which reaches its own state only. -/
def showInPlace (hook : WriteHook σ) (key : Bytes) (change : Cell.Change) :
    ExceptT EngineError (StateM (TableStore × σ)) Unit :=
  fun (s, st) =>
    let (result, st) := runFrom (hook key change) st
    (result, s, st)

/-- Takes one cell of a write after those that were accepted before it. -/
def takeInPlace (now : Int) (hook : WriteHook σ) (key : Bytes) (accepted : Partition) (c : Cell) :
    ExceptT EngineError (StateM (TableStore × σ)) Partition := do
  let (s, _) ← get
  match c.effect now ((accepted.find? c.name).or (s.get? key c.name)) with
  | .superseded => return accepted
  | .unseen => return accepted.insert c.name c
  | .visible change =>
    showInPlace hook key change
    return accepted.insert c.name c

/-- Writes to a partition of the table at hand. -/
def applyInPlace (now : Int) (hook : WriteHook σ) (key : Bytes) (mutation : List Cell) :
    ExceptT EngineError (StateM (TableStore × σ)) Unit := do
  let (s, _) ← get
  liftM (s.checkWrite key mutation)
  let accepted ← mutation.foldlM (takeInPlace now hook key) []
  modify fun (s, st) => ({ s with layers := s.layers.store key accepted }, st)

theorem runFrom_showInPlace (change : Cell.Change) (s : TableStore) (st : σ) :
    runFrom (showInPlace hook key change) (s, st) =
      ((runFrom (hook key change) st).1, s, (runFrom (hook key change) st).2) :=
  rfl

/-- **To take cells changes no table**, whatever the hook says. -/
theorem runFrom_takeInPlace (s : TableStore) (st : σ) (accepted : Partition) (cells : List Cell) :
    runFrom (cells.foldlM (takeInPlace now hook key) accepted) (s, st) =
      ((runFrom (acceptCells now (hook key) (s.get? key) accepted cells) st).1, s,
        (runFrom (acceptCells now (hook key) (s.get? key) accepted cells) st).2) := by
  induction cells generalizing accepted st with
  | nil => rfl
  | cons c rest ih =>
    rw [List.foldlM_cons, runFrom_bind]
    unfold takeInPlace acceptCells
    rw [runFrom_bind]
    simp only [runFrom_get]
    cases c.effect now ((accepted.find? c.name).or (s.get? key c.name)) with
    | superseded => exact ih st accepted
    | unseen => exact ih st _
    | visible change =>
      simp only [runFrom_bind, runFrom_showInPlace]
      rcases runFrom (hook key change) st with ⟨e | ⟨⟨⟩⟩, st'⟩
      · rfl
      · exact ih st' _

/-- What comes of a write that passed the checks. -/
theorem runFrom_apply (hcheck : s.checkWrite key mutation = .ok ()) (st : σ) :
    runFrom (s.apply now hook key mutation) st =
      match runFrom (acceptCells now (hook key) (s.get? key) [] mutation) st with
      | (.ok accepted, st') => (.ok { s with layers := s.layers.store key accepted }, st')
      | (.error e, st') => (.error e, st') := by
  unfold apply
  rw [hcheck]
  show runFrom (acceptCells now (hook key) (s.get? key) [] mutation >>= _) st = _
  rw [runFrom_bind]
  rcases runFrom (acceptCells now (hook key) (s.get? key) [] mutation) st with ⟨e | accepted, st'⟩
  · rfl
  · rfl

/-- **A write in place leaves what `apply` gives back**, and the table from before if it fails. -/
theorem runFrom_applyInPlace (s : TableStore) (now : Int) (hook : WriteHook σ) (key : Bytes)
    (mutation : List Cell) (st : σ) :
    runFrom (applyInPlace now hook key mutation) (s, st) =
      match runFrom (s.apply now hook key mutation) st with
      | (.ok s', st') => (.ok (), s', st')
      | (.error e, st') => (.error e, s, st') := by
  unfold applyInPlace
  rw [runFrom_bind]
  simp only [runFrom_get]
  rw [runFrom_bind]
  cases hcheck : s.checkWrite key mutation with
  | error e =>
    unfold apply
    rw [hcheck]
    rfl
  | ok u =>
    rw [runFrom_apply hcheck]
    show runFrom (mutation.foldlM (takeInPlace now hook key) [] >>= _) (s, st) = _
    rw [runFrom_bind, runFrom_takeInPlace]
    rcases runFrom (acceptCells now (hook key) (s.get? key) [] mutation) st with ⟨e | accepted, st'⟩
    · rfl
    · rfl

/-! ### Writes that fail -/

theorem checkNames_eq_error {layout : CellLayout} {cells : List Cell} {e : EncodingError}
    (h : checkNames layout cells = .error e) :
    ∃ before c after, cells = before ++ c :: after ∧
      (∀ d ∈ before, ∃ name, layout.decode d.name = .ok name) ∧ layout.decode c.name = .error e := by
  induction cells with
  | nil => cases h
  | cons c rest ih =>
    unfold checkNames at h
    cases hname : layout.decode c.name with
    | error e' =>
      rw [hname] at h
      cases h
      exact ⟨[], c, rest, rfl, List.forall_mem_nil _, hname⟩
    | ok name =>
      rw [hname] at h
      obtain ⟨before, d, after, rfl, hbefore, hd⟩ := ih h
      exact ⟨c :: before, d, after, rfl, List.forall_mem_cons.2 ⟨⟨name, hname⟩, hbefore⟩, hd⟩

/-- Why a write fails, and the state in which it leaves the hook. -/
inductive Refusal (s : TableStore) (now : Int) (hook : WriteHook σ) (key : Bytes)
    (mutation : List Cell) (st : σ) : EngineError → σ → Prop
  | retired (h : s.isInvalidated = true) :
      Refusal s now hook key mutation st (.storage (.invalidated s.id)) st
  | key (hopen : s.isInvalidated = false) {e : EncodingError}
      (h : s.schema.keyLayout.decode key = .error e) :
      Refusal s now hook key mutation st (.encoding e) st
  /-- The first name that cannot be unpacked. -/
  | name (hopen : s.isInvalidated = false)
      (hkey : ∃ parts, s.schema.keyLayout.decode key = .ok parts) {before after : List Cell}
      {c : Cell} {e : EncodingError} (hcells : mutation = before ++ c :: after)
      (hbefore : ∀ d ∈ before, ∃ name, s.schema.cellLayout.decode d.name = .ok name)
      (h : s.schema.cellLayout.decode c.name = .error e) :
      Refusal s now hook key mutation st (.encoding e) st
  /-- The hook accepts some changes and fails at the next one. -/
  | hook (hcheck : s.checkWrite key mutation = .ok ()) {before after : List Cell.Change}
      {change : Cell.Change} {st₁ st₂ : σ} {e : EngineError}
      (hchanges : s.changes now key mutation = before ++ change :: after)
      (hbefore : runFrom (before.forM (hook key)) st = (.ok (), st₁))
      (h : runFrom (hook key change) st₁ = (.error e, st₂)) :
      Refusal s now hook key mutation st e st₂

theorem refusal_of_checkWrite {e : EngineError} (h : s.checkWrite key mutation = .error e)
    (st : σ) : s.Refusal now hook key mutation st e st := by
  unfold checkWrite checkValid at h
  cases hopen : s.isInvalidated with
  | true =>
    rw [hopen] at h
    cases h
    exact .retired hopen
  | false =>
    rw [hopen] at h
    cases hkey : s.schema.keyLayout.decode key with
    | error e' =>
      rw [hkey] at h
      cases h
      exact .key hopen hkey
    | ok parts =>
      rw [hkey] at h
      cases hnames : checkNames s.schema.cellLayout mutation with
      | error e' =>
        rw [hnames] at h
        cases h
        obtain ⟨before, c, after, hcells, hbefore, hc⟩ := checkNames_eq_error hnames
        exact .name hopen ⟨parts, hkey⟩ hcells hbefore hc
      | ok u =>
        rw [hnames] at h
        cases h

/-- **Each failure has its reason.** -/
theorem refusal_of_apply {st st' : σ} {e : EngineError}
    (h : runFrom (s.apply now hook key mutation) st = (.error e, st')) :
    s.Refusal now hook key mutation st e st' := by
  rw [apply_eq_plan] at h
  cases hcheck : s.checkWrite key mutation with
  | error e' =>
    rw [hcheck] at h
    cases h
    exact refusal_of_checkWrite hcheck st
  | ok u =>
    rw [hcheck] at h
    rcases bind_eq_error.1 h with hhook | ⟨⟨⟩, st₁, -, hret⟩
    · obtain ⟨before, change, after, st₁, hchanges, hbefore, hfails⟩ := forM_eq_error hhook
      exact .hook hcheck hchanges hbefore hfails
    · cases hret

/-! ### Writes that succeed -/

/-- The tables differ at most in cells of one partition of their memtables, and these have the names
of written cells. -/
structure ChangesAt (s s' : TableStore) (key : Bytes) (mutation : List Cell) : Prop where
  id : s'.id = s.id
  schema : s'.schema = s.schema
  isInvalidated : s'.isInvalidated = s.isInvalidated
  flushing : s'.layers.flushing = s.layers.flushing
  segments : s'.layers.segments = s.layers.segments
  nextGeneration : s'.layers.nextGeneration = s.layers.nextGeneration
  others : ∀ k, k ≠ key → s'.layers.memtable.find? k = s.layers.memtable.find? k
  names : ∀ name, (∀ c ∈ mutation, c.name ≠ name) →
    s'.layers.memtable.cell? key name = s.layers.memtable.cell? key name
  /-- A cell that was not there before is one of those written. -/
  cells : ∀ name c, s'.layers.memtable.cell? key name = some c →
    s.layers.memtable.cell? key name = some c ∨ c ∈ mutation ∧ c.name = name
  /-- No look-up sees more of the write. -/
  get? : ∀ k name, k ≠ key ∨ (∀ c ∈ mutation, c.name ≠ name) → s'.get? k name = s.get? k name

/-- What is planned to be stored was planned before or is one of the cells. -/
theorem find?_planCells {stored : Bytes → Option Cell} {pending : Partition} {cells : List Cell}
    {name : Bytes} {c : Cell}
    (h : (planCells now stored pending cells).2.find? name = some c) :
    pending.find? name = some c ∨ c ∈ cells ∧ c.name = name := by
  induction cells generalizing pending with
  | nil => exact .inl h
  | cons d rest ih =>
    have hlater : pending.find? name = some c ∨ c ∈ rest ∧ c.name = name →
        pending.find? name = some c ∨ c ∈ d :: rest ∧ c.name = name :=
      Or.imp_right fun hc => ⟨List.mem_cons_of_mem _ hc.1, hc.2⟩
    have hinserted : (Bindings.insert d.name d pending).find? name = some c ∨
        c ∈ rest ∧ c.name = name →
          pending.find? name = some c ∨ c ∈ d :: rest ∧ c.name = name := by
      rw [Bindings.find?_insert]
      split
      · rename_i hname
        rintro (⟨⟨⟩⟩ | hc)
        · exact .inr ⟨List.mem_cons_self, hname.symm⟩
        · exact hlater (.inr hc)
      · exact hlater
    unfold planCells at h
    cases heff : d.effect now ((pending.find? d.name).or (stored d.name)) <;> rw [heff] at h
    · exact hlater (ih h)
    · exact hinserted (ih h)
    · exact hinserted (ih h)

theorem find?_winners {name : Bytes} {c : Cell}
    (h : (s.winners now key mutation).find? name = some c) : c ∈ mutation ∧ c.name = name :=
  (find?_planCells h).resolve_left nofun

theorem cell?_memtable_written (s : TableStore) (now : Int) (key : Bytes) (mutation : List Cell)
    (name : Bytes) :
    (s.written now key mutation).layers.memtable.cell? key name =
      ((s.winners now key mutation).find? name).or (s.layers.memtable.cell? key name) :=
  (Layers.cell?_memtable_store _ _ (s.winners_wellFormed now key mutation) _ _).trans (if_pos rfl)

theorem cell?_memtable_of_unnamed {name : Bytes} (hname : ∀ c ∈ mutation, c.name ≠ name) :
    (s.written now key mutation).layers.memtable.cell? key name =
      s.layers.memtable.cell? key name := by
  rw [cell?_memtable_written]
  cases hfound : (s.winners now key mutation).find? name with
  | none => rfl
  | some c =>
    obtain ⟨hc, hsame⟩ := find?_winners hfound
    exact absurd hsame (hname c hc)

/-- What is found under a name follows from the memtable, as far as a write goes. -/
theorem get?_written_of_memtable {k name : Bytes}
    (h : (s.written now key mutation).layers.memtable.cell? k name =
      s.layers.memtable.cell? k name) :
    (s.written now key mutation).get? k name = s.get? k name := by
  have hbelow : (s.written now key mutation).layers.below = s.layers.below :=
    Layers.below_store _ _ _
  unfold get?
  rw [Layers.lookup_eq_newest, Layers.lookup_eq_newest, Layers.cellsOf_eq, Layers.cellsOf_eq,
    hbelow, h]

/-- **A write that succeeds changes its cells only.** -/
theorem written_changesAt (s : TableStore) (now : Int) (key : Bytes) (mutation : List Cell) :
    s.ChangesAt (s.written now key mutation) key mutation := by
  have hothers : ∀ k, k ≠ key →
      (s.written now key mutation).layers.memtable.find? k = s.layers.memtable.find? k :=
    fun k hk => Layers.find?_memtable_store s.layers hk _
  refine ⟨rfl, rfl, rfl, Layers.flushing_store _ _ _, Layers.segments_store _ _ _,
    Layers.nextGeneration_store _ _ _, hothers, fun name => cell?_memtable_of_unnamed,
    fun name c hc => ?_, fun k name hother => ?_⟩
  · rw [cell?_memtable_written] at hc
    rcases Option.or_eq_some_iff.1 hc with hnew | ⟨-, hold⟩
    · exact .inr (find?_winners hnew)
    · exact .inl hold
  · refine get?_written_of_memtable ?_
    by_cases hk : k = key
    · subst hk
      exact cell?_memtable_of_unnamed (hother.resolve_left fun hne => hne rfl)
    · unfold Partitions.cell? Partitions.partition
      rw [hothers k hk]

/-! ### All or nothing -/

/-- **Writes are atomic.**  A write in place ends like `apply`.  If it fails, be it at the checks or
at any call of the hook, the table is the one from before; if it succeeds, the tables differ at most
in cells of the partition that have the names of written cells, and the new ones are among those
written.  However many cells were taken, the table stays as it was. -/
theorem writes_are_atomic (s : TableStore) (now : Int) (hook : WriteHook σ) (key : Bytes)
    (mutation : List Cell) (st : σ) :
    let plain := runFrom (s.apply now hook key mutation) st
    let run := runFrom (applyInPlace now hook key mutation) (s, st)
    ((∃ e st', run = (.error e, s, st') ∧ plain = (.error e, st') ∧
        s.Refusal now hook key mutation st e st') ∨
      ∃ s' st', run = (.ok (), s', st') ∧ plain = (.ok s', st') ∧
        s.checkWrite key mutation = .ok () ∧
        runFrom ((s.changes now key mutation).forM (hook key)) st = (.ok (), st') ∧
        s.ChangesAt s' key mutation) ∧
    ∀ n, (runFrom ((mutation.take n).foldlM (takeInPlace now hook key) []) (s, st)).2.1 = s := by
  intro plain run
  have hrun := runFrom_applyInPlace s now hook key mutation st
  refine ⟨?_, fun n => by rw [runFrom_takeInPlace]⟩
  rcases happly : runFrom (s.apply now hook key mutation) st with ⟨e | s', st'⟩ <;>
    rw [happly] at hrun
  · exact .inl ⟨e, st', hrun, happly, refusal_of_apply happly⟩
  · obtain ⟨hcheck, rfl, hhook⟩ := apply_ok happly
    exact .inr ⟨_, st', hrun, happly, hcheck, hhook, written_changesAt s now key mutation⟩

/-- A hook that counts its calls and fails at the second one. -/
def failsAtSecond : WriteHook Nat := fun _ _ => do
  let calls ← get
  set (calls + 1)
  if calls = 1 then throw (.index (.notFound "level"))

/-- A level and a note are not written if the hook fails at the note. -/
example :
    runFrom (applyInPlace 0 failsAtSecond [65] [reading "level" 49 1, reading "note" 97 1])
      (.ofSchema readings, 0) = (.error (.index (.notFound "level")), .ofSchema readings, 2) := by
  decide +kernel

end TableStore

end WideColumn
