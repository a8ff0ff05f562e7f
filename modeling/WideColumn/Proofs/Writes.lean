import WideColumn.Proofs.Effects
import WideColumn.Proofs.LayeredCells
import WideColumn.Store.TableStore

/-!
# What is done to a table

A write asks the hook about one change after the other and stores its cells at the end.  Which
changes there are and which cells are stored does not depend on the hook: `planCells` works both
out beforehand.

* `acceptCells_eq_plan`, `apply_eq_plan` — **a write is its plan**: the checks, the hook on the
  planned changes, the planned cells;
* `get?_written` — what a look-up sees afterwards;
* `apply_induction` — what holds before a write that succeeds and is kept by each single cell,
  with the hook's work on it, holds afterwards;
* `changes_before` — and it holds whenever the hook is about to be shown a change;
* `write_eq_ok`, `write_ok` — writes that no hook is shown, with `Ledger.put` for a single cell;
* `Ledger.Reaches` — what a write leaves behind, and later writes do not take back;
* `issueFlush_cases`, `finishFlush_rearranged`, `discard_cases` — flushes and truncation.
-/

namespace WideColumn

open Effects

/-! ### One cell -/

namespace Cell

/-- **What readers see of a cell**: it is new, it takes the place of another one, or it puts an end
to one that was live. -/
theorem visible_cases {c : Cell} {now : Int} {old : Option Cell} {change : Change}
    (h : c.effect now old = .visible change) :
    (old = none ∧ c.isLive now = true ∧ change = .insert c) ∨
    (∃ o, old = some o ∧ c.supersedes o = true ∧ c.isLive now = true ∧ change = .update o c) ∨
    (∃ o, old = some o ∧ c.supersedes o = true ∧ c.isLive now = false ∧ o.isLive now = true ∧
      change = .delete o) := by
  cases old with
  | none => cases hc : c.isLive now <;> simp_all [effect]
  | some o =>
    cases hs : c.supersedes o <;> cases hc : c.isLive now <;> cases ho : o.isLive now <;>
      simp_all [effect]

/-- A cell that is stored supersedes the one that counted. -/
theorem supersedes_of_effect {c o : Cell} {now : Int} {old : Option Cell}
    (h : c.effect now old ≠ .superseded) (ho : old = some o) : c.supersedes o = true := by
  subst ho
  cases hs : c.supersedes o
  · exact absurd (by simp [effect, hs]) h
  · rfl

/-- A cell that is not stored does not supersede the one that counts. -/
theorem superseded_of_effect {c : Cell} {now : Int} {old : Option Cell}
    (h : c.effect now old = .superseded) : ∃ o, old = some o ∧ c.supersedes o = false := by
  cases old with
  | none => cases hc : c.isLive now <;> simp [effect, hc] at h
  | some o =>
    refine ⟨o, rfl, ?_⟩
    cases hs : c.supersedes o
    · rfl
    · cases hc : c.isLive now <;> cases ho : o.isLive now <;> simp [effect, hs, hc, ho] at h

/-- A cell that nobody sees is not live, nor is the one whose place it takes. -/
theorem of_unseen {c : Cell} {now : Int} {old : Option Cell}
    (h : c.effect now old = .unseen) :
    (∀ o, old = some o → c.supersedes o = true ∧ o.isLive now = false) ∧ c.isLive now = false := by
  cases old with
  | none => cases hc : c.isLive now <;> simp_all [effect]
  | some o =>
    cases hs : c.supersedes o <;> cases hc : c.isLive now <;> cases ho : o.isLive now <;>
      simp_all [effect]

end Cell

/-- A call of a hook: the key of a partition and a change in it. -/
abbrev HookCall := Bytes × Cell.Change

/-! ### What look-ups see -/

/-- What look-ups in a table see, by key and name. -/
abbrev Ledger := Bytes → Bytes → Option Cell

/-- The look-ups after a cell was stored. -/
def Ledger.set (v : Ledger) (key : Bytes) (c : Cell) : Ledger := fun k name =>
  if k = key ∧ name = c.name then some c else v k name

theorem Ledger.set_self (v : Ledger) (key : Bytes) (c : Cell) :
    v.set key c key c.name = some c := by
  simp [Ledger.set]

theorem Ledger.set_of_ne (v : Ledger) {key k name : Bytes} {c : Cell}
    (h : ¬ (k = key ∧ name = c.name)) : v.set key c k name = v k name :=
  if_neg h

/-- The look-ups after a cell was written. -/
def Ledger.put (v : Ledger) (key : Bytes) (c : Cell) : Ledger := fun k name =>
  if k = key ∧ name = c.name then Layers.reconcile (v k name) (some c) else v k name

theorem Ledger.put_self (v : Ledger) (key : Bytes) (c : Cell) :
    v.put key c key c.name = Layers.reconcile (v key c.name) (some c) := by
  simp [Ledger.put]

theorem Ledger.put_of_ne (v : Ledger) {key k name : Bytes} {c : Cell}
    (h : ¬ (k = key ∧ name = c.name)) : v.put key c k name = v k name :=
  if_neg h

theorem Ledger.put_eq_set {v : Ledger} {key : Bytes} {c : Cell}
    (h : ∀ o, v key c.name = some o → c.supersedes o = true) : v.put key c = v.set key c := by
  funext k name
  unfold Ledger.put Ledger.set
  split
  · rename_i hk
    obtain ⟨rfl, rfl⟩ := hk
    cases ho : v k c.name with
    | none => rfl
    | some o => simp [Layers.reconcile, h o ho]
  · rfl

theorem Ledger.put_eq_self {v : Ledger} {key : Bytes} {c o : Cell} (ho : v key c.name = some o)
    (h : c.supersedes o = false) : v.put key c = v := by
  funext k name
  unfold Ledger.put
  split
  · rename_i hk
    obtain ⟨rfl, rfl⟩ := hk
    simp [ho, Layers.reconcile, h]
  · rfl

/-! ### What writes leave behind -/

namespace Ledger

variable {v : Ledger} {key : Bytes} {c : Cell}

/-- The ledger has come as far as the cell: it has one of its name that the cell does not
supersede. -/
def Reaches (v : Ledger) (key : Bytes) (c : Cell) : Prop :=
  ∃ o, v key c.name = some o ∧ c.supersedes o = false

/-- To write a cell then changes nothing. -/
theorem Reaches.put_eq_self (h : v.Reaches key c) : v.put key c = v := by
  obtain ⟨o, ho, hs⟩ := h
  exact Ledger.put_eq_self ho hs

/-- A write changes nothing, or it stores its cell in place of one that is superseded. -/
theorem put_cases (v : Ledger) (key : Bytes) (c : Cell) :
    (v.Reaches key c ∧ v.put key c = v) ∨
      ((∀ o, v key c.name = some o → c.supersedes o = true) ∧ v.put key c = v.set key c) := by
  by_cases h : v.Reaches key c
  · exact .inl ⟨h, h.put_eq_self⟩
  · have hs : ∀ o, v key c.name = some o → c.supersedes o = true := by
      intro o ho
      cases hs : c.supersedes o with
      | true => rfl
      | false => exact absurd ⟨o, ho, hs⟩ h
    exact .inr ⟨hs, put_eq_set hs⟩

/-- What is found after a write: the cell that was written, or what was there if that is not
superseded. -/
theorem of_put {k name : Bytes} {o : Cell} (h : v.put key c k name = some o) :
    (k = key ∧ name = c.name ∧ o = c) ∨
      (v k name = some o ∧ (k = key → name = c.name → c.supersedes o = false)) := by
  rcases v.put_cases key c with ⟨⟨d, hd, hs⟩, hput⟩ | ⟨-, hput⟩ <;> rw [hput] at h
  · refine .inr ⟨h, fun hkey hname => ?_⟩
    subst hkey hname
    cases h.symm.trans hd
    exact hs
  · by_cases hk : k = key ∧ name = c.name
    · obtain ⟨rfl, rfl⟩ := hk
      exact .inl ⟨rfl, rfl, Option.some.inj (h.symm.trans (v.set_self k c))⟩
    · rw [set_of_ne v hk] at h
      exact .inr ⟨h, fun hkey hname => absurd ⟨hkey, hname⟩ hk⟩

/-- What has come as far as a cell has come as far as those that it supersedes. -/
theorem Reaches.of_supersedes {d : Cell} (h : v.Reaches key d) (hname : c.name = d.name)
    (hs : d.supersedes c = true) : v.Reaches key c := by
  obtain ⟨o, ho, hdo⟩ := h
  refine ⟨o, hname ▸ ho, ?_⟩
  cases hco : c.supersedes o with
  | false => rfl
  | true =>
    rw [Cell.supersedes_trans hs hco] at hdo
    cases hdo

theorem reaches_put_self (v : Ledger) (key : Bytes) (c : Cell) : (v.put key c).Reaches key c := by
  rcases v.put_cases key c with ⟨h, hput⟩ | ⟨-, hput⟩ <;> rw [hput]
  · exact h
  · exact ⟨c, v.set_self key c, Cell.supersedes_irrefl c⟩

/-- Writes take nothing back. -/
theorem Reaches.put (h : v.Reaches key c) (k : Bytes) (d : Cell) : (v.put k d).Reaches key c := by
  rcases v.put_cases k d with ⟨-, hput⟩ | ⟨hnewer, hput⟩ <;> rw [hput]
  · exact h
  · obtain ⟨o, ho, hs⟩ := h
    by_cases hk : key = k ∧ c.name = d.name
    · obtain ⟨rfl, hname⟩ := hk
      refine ⟨d, ?_, Cell.not_supersedes_of_supersedes hs (hnewer o (hname ▸ ho))⟩
      rw [hname]
      exact v.set_self key d
    · exact ⟨o, (v.set_of_ne hk).trans ho, hs⟩

end Ledger

/-! ### Layers and lost cells -/

/-- The look-ups with other cells of one partition in front. -/
def Ledger.overlay (v : Ledger) (key : Bytes) (p : Partition) : Ledger := fun k name =>
  if k = key then (p.find? name).or (v key name) else v k name

/-- The look-ups without the cells written at or before a time. -/
def Ledger.discard (v : Ledger) (timestamp : Int) : Ledger := fun k name =>
  (v k name).filter fun c => timestamp < c.timestamp

theorem Ledger.overlay_nil (v : Ledger) (key : Bytes) : v.overlay key [] = v := by
  funext k name
  unfold Ledger.overlay
  split
  · rename_i h
    rw [h]
    rfl
  · rfl

theorem Ledger.overlay_insert (v : Ledger) (key : Bytes) (p : Partition) (c : Cell) :
    v.overlay key (Bindings.insert c.name c p) = (v.overlay key p).set key c := by
  funext k name
  unfold Ledger.overlay Ledger.set
  rw [Bindings.find?_insert]
  by_cases hk : k = key <;> by_cases hn : name = c.name <;> simp [hk, hn]

namespace TableStore

/-! ### Reads of one partition -/

theorem mem_read {s : TableStore} (h : s.layers.WellFormed) {key : Bytes} {c : Cell} :
    c ∈ s.read key ↔ s.get? key c.name = some c := by
  have hwf := h.partition key
  rw [read, sorted, (sortBy_perm _ _).mem_iff, get?, ← Layers.find?_partition h,
    Bindings.find?_eq_some_iff hwf.sorted]
  constructor
  · intro hc
    obtain ⟨⟨name, d⟩, hd, rfl⟩ := List.mem_map.1 hc
    have hname : d.name = name := hwf.named name d hd
    rwa [hname]
  · exact fun hc => List.mem_map.2 ⟨_, hc, rfl⟩

theorem mem_liveCells {s : TableStore} (h : s.layers.WellFormed) {now : Int} {key : Bytes}
    {c : Cell} :
    c ∈ s.liveCells now key ↔ s.get? key c.name = some c ∧ c.isLive now = true := by
  rw [liveCells, List.mem_filter, mem_read h]

/-- No two cells of a partition have one name. -/
theorem read_names_nodup {s : TableStore} (h : s.layers.WellFormed) (key : Bytes) :
    ((s.read key).map Cell.name).Nodup := by
  have hwf := h.partition key
  have hnames : (s.layers.partition key).values.map Cell.name =
      (s.layers.partition key).map Prod.fst := by
    rw [Bindings.values, List.map_map]
    exact List.map_congr_left fun b hb => hwf.named b.1 b.2 hb
  refine ((sortBy_perm _ _).map Cell.name).nodup_iff.2 ?_
  rw [hnames]
  refine List.pairwise_map.2 (hwf.sorted.imp ?_)
  intro a b hab heq
  rw [heq, Std.ReflOrd.compare_self] at hab
  cases hab

/-! ### The plan of a write -/

/-- The changes that a hook is shown, in order, and the cells that are stored in the end.
`stored` and `pending` are as in `acceptCells`. -/
def planCells (now : Int) (stored : Bytes → Option Cell) (pending : Partition) :
    List Cell → List Cell.Change × Partition
  | [] => ([], pending)
  | c :: rest =>
    match c.effect now ((pending.find? c.name).or (stored c.name)) with
    | .superseded => planCells now stored pending rest
    | .unseen => planCells now stored (pending.insert c.name c) rest
    | .visible change =>
      let plan := planCells now stored (pending.insert c.name c) rest
      (change :: plan.1, plan.2)

/-- **A write is its plan.**  The hook decides only whether the planned cells are stored. -/
theorem acceptCells_eq_plan {σ : Type} (now : Int)
    (hook : Cell.Change → ExceptT EngineError (StateM σ) Unit) (stored : Bytes → Option Cell)
    (pending : Partition) (cells : List Cell) :
    acceptCells now hook stored pending cells = (do
      (planCells now stored pending cells).1.forM hook
      pure (planCells now stored pending cells).2) := by
  induction cells generalizing pending with
  | nil => simp [acceptCells, planCells]
  | cons c rest ih =>
    unfold acceptCells planCells
    cases c.effect now ((pending.find? c.name).or (stored c.name)) with
    | superseded => exact ih pending
    | unseen => exact ih _
    | visible change => simp [ih]

/-- The changes that a write shows to its hook. -/
def changes (s : TableStore) (now : Int) (key : Bytes) (mutation : List Cell) :
    List Cell.Change :=
  (planCells now (s.layers.lookup key) [] mutation).1

/-- The cells that a write stores. -/
def winners (s : TableStore) (now : Int) (key : Bytes) (mutation : List Cell) : Partition :=
  (planCells now (s.layers.lookup key) [] mutation).2

/-- The table after a write that nothing and nobody refused. -/
def written (s : TableStore) (now : Int) (key : Bytes) (mutation : List Cell) : TableStore :=
  { s with layers := s.layers.store key (s.winners now key mutation) }

theorem apply_eq_plan {σ : Type} (s : TableStore) (now : Int) (hook : WriteHook σ) (key : Bytes)
    (mutation : List Cell) :
    s.apply now hook key mutation =
      match s.checkWrite key mutation with
      | .error e => throw e
      | .ok () => do
        (s.changes now key mutation).forM (hook key)
        return s.written now key mutation := by
  unfold apply
  rcases s.checkWrite key mutation with _ | ⟨⟨⟩⟩
  · rfl
  · simp only [acceptCells_eq_plan, bind_assoc, pure_bind]
    rfl

/-- A write that succeeds passed the checks, and the table is as planned. -/
theorem apply_ok {σ : Type} {s s' : TableStore} {now : Int} {hook : WriteHook σ} {key : Bytes}
    {mutation : List Cell} {st st' : σ}
    (h : runFrom (s.apply now hook key mutation) st = (.ok s', st')) :
    s.checkWrite key mutation = .ok () ∧ s' = s.written now key mutation ∧
      runFrom ((s.changes now key mutation).forM (hook key)) st = (.ok (), st') := by
  rw [apply_eq_plan] at h
  rcases hc : s.checkWrite key mutation with _ | ⟨⟨⟩⟩
  · rw [hc] at h
    cases h
  · rw [hc] at h
    obtain ⟨⟨⟩, st₁, hhook, hret⟩ := bind_eq_ok.1 h
    cases hret
    exact ⟨rfl, rfl, hhook⟩

/-! ### The cells that are stored -/

theorem planCells_spec {now : Int} {stored : Bytes → Option Cell} {pending : Partition}
    (hwf : pending.WellFormed)
    (hsup : ∀ name c d, pending.find? name = some c → stored name = some d →
      c.supersedes d = true) (cells : List Cell) :
    (planCells now stored pending cells).2.WellFormed ∧
      ∀ name c d, (planCells now stored pending cells).2.find? name = some c →
        stored name = some d → c.supersedes d = true := by
  induction cells generalizing pending with
  | nil => exact ⟨hwf, hsup⟩
  | cons c rest ih =>
    have hinsert : c.effect now ((pending.find? c.name).or (stored c.name)) ≠ .superseded →
        ∀ name d e, Bindings.find? name (Bindings.insert c.name c pending) = some d →
          stored name = some e → d.supersedes e = true := by
      intro hne name d e hd he
      rw [Bindings.find?_insert] at hd
      split at hd
      · rename_i hname
        subst hname
        cases hd
        cases hp : pending.find? c.name with
        | none => exact Cell.supersedes_of_effect hne (by rw [hp, Option.none_or, he])
        | some p =>
          exact Cell.supersedes_trans (Cell.supersedes_of_effect hne (by rw [hp]; rfl))
            (hsup c.name p e hp he)
      · exact hsup name d e hd he
    unfold planCells
    cases heff : c.effect now ((pending.find? c.name).or (stored c.name)) with
    | superseded => exact ih hwf hsup
    | unseen => exact ih (hwf.insert c) (hinsert (by simp [heff]))
    | visible change => exact ih (hwf.insert c) (hinsert (by simp [heff]))

theorem winners_wellFormed (s : TableStore) (now : Int) (key : Bytes) (mutation : List Cell) :
    (s.winners now key mutation).WellFormed :=
  (planCells_spec Partition.WellFormed.nil (fun _ _ _ h => by cases h) mutation).1

theorem winners_supersede (s : TableStore) (now : Int) (key : Bytes) (mutation : List Cell) :
    s.layers.Supersede key (s.winners now key mutation) :=
  (planCells_spec Partition.WellFormed.nil (fun _ _ _ h => by cases h) mutation).2

theorem written_wellFormed {s : TableStore} (h : s.layers.WellFormed) (now : Int) (key : Bytes)
    (mutation : List Cell) : (s.written now key mutation).layers.WellFormed :=
  h.store key (s.winners_wellFormed now key mutation) (s.winners_supersede now key mutation)

/-- A look-up after a write sees the cells that it stored, and else what was there. -/
theorem get?_written {s : TableStore} (h : s.layers.WellFormed) (now : Int) (key : Bytes)
    (mutation : List Cell) :
    (s.written now key mutation).get? =
      Ledger.overlay s.get? key (s.winners now key mutation) := by
  funext k name
  exact Layers.lookup_store h key (s.winners_wellFormed now key mutation)
    (s.winners_supersede now key mutation) k name

/-! ### From cell to cell -/

/-- What each cell keeps, with the hook's work on it, the plan of several cells keeps. -/
theorem planCells_induction {σ : Type} {now : Int} {key : Bytes}
    {hook : Cell.Change → ExceptT EngineError (StateM σ) Unit} {v : Ledger}
    (I : Ledger → List Cell.Change → σ → Prop) (cells : List Cell)
    (unseen : ∀ v log st c, c ∈ cells → I v log st → c.effect now (v key c.name) = .unseen →
      I (v.set key c) log st)
    (visible : ∀ v log st st' c change, c ∈ cells → I v log st →
      c.effect now (v key c.name) = .visible change → runFrom (hook change) st = (.ok (), st') →
      I (v.set key c) (log ++ [change]) st')
    {pending : Partition} {log : List Cell.Change} {st st' : σ}
    (h : I (v.overlay key pending) log st)
    (hrun : runFrom ((planCells now (v key) pending cells).1.forM hook) st = (.ok (), st')) :
    I (v.overlay key (planCells now (v key) pending cells).2)
      (log ++ (planCells now (v key) pending cells).1) st' := by
  induction cells generalizing pending log st with
  | nil =>
    cases hrun
    rw [planCells, List.append_nil]
    exact h
  | cons c rest ih =>
    have hview : v.overlay key pending key c.name = (pending.find? c.name).or (v key c.name) :=
      if_pos rfl
    have ih' := fun {pending log st} => @ih
      (fun v log st d hd => unseen v log st d (List.mem_cons_of_mem _ hd))
      (fun v log st st' d change hd => visible v log st st' d change (List.mem_cons_of_mem _ hd))
      pending log st
    unfold planCells at hrun ⊢
    cases heff : c.effect now ((pending.find? c.name).or (v key c.name)) with
    | superseded =>
      simp only [heff] at hrun ⊢
      exact ih' h hrun
    | unseen =>
      simp only [heff] at hrun ⊢
      refine ih' ?_ hrun
      rw [Ledger.overlay_insert]
      exact unseen _ log st c List.mem_cons_self h (hview ▸ heff)
    | visible change =>
      simp only [heff] at hrun ⊢
      obtain ⟨⟨⟩, st₁, hhook, hrest⟩ := bind_eq_ok.1 hrun
      have hlog : log ++ change :: (planCells now (v key) (pending.insert c.name c) rest).1 =
          (log ++ [change]) ++ (planCells now (v key) (pending.insert c.name c) rest).1 := by
        simp
      rw [hlog]
      refine ih' ?_ hrest
      rw [Ledger.overlay_insert]
      exact visible _ log st st₁ c change List.mem_cons_self h (hview ▸ heff) hhook

/-- **Induction over a write that succeeds.**  `I` speaks of the look-ups in the table, of the
changes that were shown to the hook, and of the hook's state. -/
theorem apply_induction {σ : Type} {s s' : TableStore} {now : Int} {hook : WriteHook σ}
    {key : Bytes} {mutation : List Cell} {st st' : σ} (hs : s.layers.WellFormed)
    (happ : runFrom (s.apply now hook key mutation) st = (.ok s', st'))
    (I : Ledger → List Cell.Change → σ → Prop)
    (unseen : ∀ v log st c, c ∈ mutation → I v log st → c.effect now (v key c.name) = .unseen →
      I (v.set key c) log st)
    (visible : ∀ v log st st' c change, c ∈ mutation → I v log st →
      c.effect now (v key c.name) = .visible change →
      runFrom (hook key change) st = (.ok (), st') → I (v.set key c) (log ++ [change]) st')
    (h : I s.get? [] st) : I s'.get? (s.changes now key mutation) st' := by
  obtain ⟨-, rfl, hhook⟩ := apply_ok happ
  rw [get?_written hs]
  exact planCells_induction (v := s.get?) I mutation unseen visible
    (by rw [Ledger.overlay_nil]; exact h) hhook

/-- What each cell keeps, with the hook's work on it, also holds when a planned change is about to
be shown. -/
theorem planCells_before {σ : Type} {now : Int} {key : Bytes}
    {hook : Cell.Change → ExceptT EngineError (StateM σ) Unit} {v : Ledger}
    (I : Ledger → List Cell.Change → σ → Prop) (cells : List Cell)
    (unseen : ∀ v log st c, c ∈ cells → I v log st → c.effect now (v key c.name) = .unseen →
      I (v.set key c) log st)
    (visible : ∀ v log st st' c change, c ∈ cells → I v log st →
      c.effect now (v key c.name) = .visible change → runFrom (hook change) st = (.ok (), st') →
      I (v.set key c) (log ++ [change]) st')
    {pending : Partition} {log before after : List Cell.Change} {change : Cell.Change} {st st' : σ}
    (h : I (v.overlay key pending) log st)
    (hplan : (planCells now (v key) pending cells).1 = before ++ change :: after)
    (hrun : runFrom (before.forM hook) st = (.ok (), st')) :
    ∃ v' c, c ∈ cells ∧ I v' (log ++ before) st' ∧ c.effect now (v' key c.name) = .visible change := by
  induction cells generalizing pending log before st with
  | nil => simp [planCells] at hplan
  | cons c rest ih =>
    have hview : v.overlay key pending key c.name = (pending.find? c.name).or (v key c.name) :=
      if_pos rfl
    have ih' := fun {pending log before st} => @ih
      (fun v log st d hd => unseen v log st d (List.mem_cons_of_mem _ hd))
      (fun v log st st' d change hd => visible v log st st' d change (List.mem_cons_of_mem _ hd))
      pending log before st
    unfold planCells at hplan
    cases heff : c.effect now ((pending.find? c.name).or (v key c.name)) with
    | superseded =>
      simp only [heff] at hplan
      obtain ⟨v', d, hd, hrest⟩ := ih' h hplan hrun
      exact ⟨v', d, List.mem_cons_of_mem _ hd, hrest⟩
    | unseen =>
      simp only [heff] at hplan
      have hnext := unseen _ log st c List.mem_cons_self h (hview ▸ heff)
      rw [← Ledger.overlay_insert] at hnext
      obtain ⟨v', d, hd, hrest⟩ := ih' hnext hplan hrun
      exact ⟨v', d, List.mem_cons_of_mem _ hd, hrest⟩
    | visible first =>
      simp only [heff] at hplan
      cases before with
      | nil =>
        cases hrun
        rw [(List.cons.inj hplan).1] at heff
        rw [List.append_nil]
        exact ⟨_, c, List.mem_cons_self, h, hview ▸ heff⟩
      | cons b more =>
        obtain ⟨hfirst, hmore⟩ := List.cons.inj hplan
        subst hfirst
        obtain ⟨⟨⟩, st₁, hhook, hrun⟩ := bind_eq_ok.1 hrun
        have hnext := visible _ log st st₁ c first List.mem_cons_self h (hview ▸ heff) hhook
        rw [← Ledger.overlay_insert] at hnext
        obtain ⟨v', d, hd, hI, hrest⟩ := ih' hnext hmore hrun
        refine ⟨v', d, List.mem_cons_of_mem _ hd, ?_, hrest⟩
        rwa [List.append_assoc] at hI

/-- What each cell of a write keeps holds whenever a change is about to be shown to the hook. -/
theorem changes_before {σ : Type} {s : TableStore} {now : Int} {hook : WriteHook σ} {key : Bytes}
    {mutation : List Cell} {st st' : σ} (I : Ledger → List Cell.Change → σ → Prop)
    (unseen : ∀ v log st c, c ∈ mutation → I v log st → c.effect now (v key c.name) = .unseen →
      I (v.set key c) log st)
    (visible : ∀ v log st st' c change, c ∈ mutation → I v log st →
      c.effect now (v key c.name) = .visible change →
      runFrom (hook key change) st = (.ok (), st') → I (v.set key c) (log ++ [change]) st')
    (h : I s.get? [] st) {before after : List Cell.Change} {change : Cell.Change}
    (hchanges : s.changes now key mutation = before ++ change :: after)
    (hrun : runFrom (before.forM (hook key)) st = (.ok (), st')) :
    ∃ v c, c ∈ mutation ∧ I v before st' ∧ c.effect now (v key c.name) = .visible change := by
  have hstart : I (Ledger.overlay s.get? key []) [] st := by
    rw [Ledger.overlay_nil]
    exact h
  exact planCells_before (v := s.get?) I mutation unseen visible hstart hchanges hrun

/-! ### Writes that no hook is shown -/

/-- A write fits the table if its key and its names can be unpacked. -/
theorem checkNames_eq_ok {layout : CellLayout} {cells : List Cell} :
    checkNames layout cells = .ok () ↔ ∀ c ∈ cells, ∃ name, layout.decode c.name = .ok name := by
  induction cells with
  | nil => simp [checkNames]
  | cons c rest ih =>
    unfold checkNames
    rw [except_bind_eq_ok, List.forall_mem_cons, ← ih]
    exact ⟨fun ⟨name, hname, hrest⟩ => ⟨⟨name, hname⟩, hrest⟩,
      fun ⟨⟨name, hname⟩, hrest⟩ => ⟨name, hname, hrest⟩⟩

theorem checkWrite_eq_ok {s : TableStore} {key : Bytes} {mutation : List Cell} :
    s.checkWrite key mutation = .ok () ↔ s.isInvalidated = false ∧
      (∃ parts, s.schema.keyLayout.decode key = .ok parts) ∧
      ∀ c ∈ mutation, ∃ name, s.schema.cellLayout.decode c.name = .ok name := by
  have hvalid : s.checkValid = .ok () ↔ s.isInvalidated = false := by
    unfold checkValid
    cases s.isInvalidated <;> simp
  unfold checkWrite
  simp only [except_bind_eq_ok, mapError_eq_ok, hvalid, checkNames_eq_ok]
  exact ⟨fun ⟨_, hv, parts, hk, hn⟩ => ⟨hv, ⟨parts, hk⟩, hn⟩,
    fun ⟨hv, ⟨parts, hk⟩, hn⟩ => ⟨(), hv, parts, hk, hn⟩⟩

/-- Nothing but the checks can refuse a write that no hook is shown. -/
theorem write_eq_ok {s : TableStore} {now : Int} {key : Bytes} {mutation : List Cell}
    (h : s.checkWrite key mutation = .ok ()) :
    s.write now key mutation = .ok (s.written now key mutation) := by
  have hquiet : ∀ changes : List Cell.Change,
      runFrom (changes.forM (WriteHook.none (σ := Unit) key)) () = (.ok (), ()) := by
    intro changes
    induction changes with
    | nil => rfl
    | cons change rest ih => exact bind_eq_ok.2 ⟨(), (), rfl, ih⟩
  show (runFrom (s.apply now (WriteHook.none (σ := Unit)) key mutation) ()).1 = _
  rw [apply_eq_plan, h]
  simp only [runFrom_bind, hquiet, runFrom_pure]

/-- A retired table refuses every write. -/
theorem write_eq_error {s : TableStore} (h : s.isInvalidated = true) (now : Int) (key : Bytes)
    (mutation : List Cell) :
    s.write now key mutation = .error (.storage (.invalidated s.id)) := by
  have hcheck : s.checkWrite key mutation = .error (.storage (.invalidated s.id)) := by
    unfold checkWrite checkValid
    rw [if_pos h]
    rfl
  show (runFrom (s.apply now (WriteHook.none (σ := Unit)) key mutation) ()).1 = _
  rw [apply_eq_plan, hcheck]
  rfl

/-- A write of one cell that no hook is shown. -/
theorem write_ok {s s' : TableStore} (h : s.layers.WellFormed) {now : Int} {key : Bytes}
    {c : Cell} (hw : s.write now key [c] = .ok s') :
    s'.layers.WellFormed ∧ s'.get? = Ledger.put s.get? key c := by
  have hrun : runFrom (s.apply now (WriteHook.none (σ := Unit)) key [c]) () = (.ok s', ()) :=
    Prod.ext hw rfl
  obtain ⟨-, rfl, -⟩ := apply_ok hrun
  refine ⟨written_wellFormed h now key [c], ?_⟩
  rw [get?_written h]
  have hpending : ((Bindings.find? c.name ([] : Partition)).or (s.layers.lookup key c.name)) =
      s.get? key c.name := rfl
  have hput : c.effect now (s.get? key c.name) ≠ .superseded →
      Ledger.overlay s.get? key (Bindings.insert c.name c []) = Ledger.put s.get? key c := by
    intro hne
    rw [Ledger.overlay_insert, Ledger.overlay_nil,
      Ledger.put_eq_set fun o ho => Cell.supersedes_of_effect hne ho]
  unfold winners planCells
  rw [hpending]
  cases heff : c.effect now (s.get? key c.name) with
  | superseded =>
    obtain ⟨o, ho, hs⟩ := Cell.superseded_of_effect heff
    rw [Ledger.put_eq_self ho hs]
    exact Ledger.overlay_nil _ key
  | unseen => exact hput (by simp [heff])
  | visible change => exact hput (by simp [heff])

/-! ### Flushes and truncation -/

/-- The tables differ at most in the layers that their cells lie in. -/
structure Rearranged (s s' : TableStore) : Prop where
  id : s'.id = s.id
  schema : s'.schema = s.schema
  isInvalidated : s'.isInvalidated = s.isInvalidated
  layers : s'.layers.WellFormed
  get? : s'.get? = s.get?

theorem Rearranged.refl {s : TableStore} (h : s.layers.WellFormed) : Rearranged s s :=
  ⟨rfl, rfl, rfl, h, rfl⟩

theorem checkValid_eq_ok {s : TableStore} : s.checkValid = .ok () ↔ s.isInvalidated = false := by
  unfold checkValid
  cases s.isInvalidated <;> simp

/-- Only a table that is not retired is flushed: its memtable is taken away, unless it is empty. -/
theorem issueFlush_parts {s s' : TableStore} {order order' : WriteOrder}
    {ticket : Option FlushTicket} (h : s.issueFlush order = .ok (ticket, s', order')) :
    s.isInvalidated = false ∧ order' = order.barrier.2 ∧
      (s.layers.memtable = [] ∧ ticket = none ∧ s' = s ∨
        s.layers.memtable ≠ [] ∧ ticket = some ⟨s.layers.nextGeneration, order.barrier.1⟩ ∧
          s' = { s with layers := s.layers.takeMemtable.2 }) := by
  obtain ⟨⟨⟩, hvalid, h⟩ := except_bind_eq_ok.1 h
  have h : (if s.layers.memtable.isEmpty then .ok (none, s, order.barrier.2)
      else .ok (some ⟨s.layers.takeMemtable.1, order.barrier.1⟩,
        { s with layers := s.layers.takeMemtable.2 }, order.barrier.2)) =
      (Except.ok (ticket, s', order') : Except StorageError _) := h
  refine ⟨checkValid_eq_ok.1 hvalid, ?_⟩
  by_cases hempty : s.layers.memtable = []
  · rw [if_pos (by rw [hempty]; rfl)] at h
    cases h
    exact ⟨rfl, .inl ⟨hempty, rfl, rfl⟩⟩
  · rw [if_neg (by simpa using hempty)] at h
    cases h
    exact ⟨rfl, .inr ⟨hempty, rfl, rfl⟩⟩

/-- Only a table that is not retired is truncated. -/
theorem discard_eq_ok {s s' : TableStore} {timestamp : Int} :
    s.discard timestamp = .ok s' ↔
      s.isInvalidated = false ∧ s' = { s with layers := s.layers.discard timestamp } := by
  constructor
  · intro h
    obtain ⟨⟨⟩, hvalid, h⟩ := except_bind_eq_ok.1 h
    exact ⟨checkValid_eq_ok.1 hvalid, (Except.ok.inj h).symm⟩
  · rintro ⟨hopen, rfl⟩
    exact except_bind_eq_ok.2 ⟨(), checkValid_eq_ok.2 hopen, rfl⟩

/-- A flush can be issued unless the table was retired. -/
theorem issueFlush_cases {s : TableStore} (h : s.layers.WellFormed) (order : WriteOrder) :
    (∃ e, s.checkValid = .error e ∧ s.issueFlush order = .error e) ∨
    (s.checkValid = .ok () ∧
      ∃ ticket s' order', s.issueFlush order = .ok (ticket, s', order') ∧ Rearranged s s') := by
  unfold issueFlush
  rcases s.checkValid with e | ⟨⟨⟩⟩
  · exact .inl ⟨e, rfl, rfl⟩
  · refine .inr ⟨rfl, ?_⟩
    cases hm : s.layers.memtable.isEmpty
    · refine ⟨_, _, _, rfl, rfl, rfl, rfl, h.takeMemtable, ?_⟩
      funext key name
      exact Layers.lookup_takeMemtable s.layers key name
    · exact ⟨_, _, _, rfl, Rearranged.refl h⟩

/-- A flush that is issued changes no look-up. -/
theorem rearranged_of_issueFlush {s s' : TableStore} (h : s.layers.WellFormed)
    {order order' : WriteOrder} {ticket : Option FlushTicket}
    (hissue : s.issueFlush order = .ok (ticket, s', order')) : Rearranged s s' := by
  rcases issueFlush_cases h order with ⟨e, -, he⟩ | ⟨-, _, _, _, hok, hsame⟩
  · cases hissue.symm.trans he
  · cases hissue.symm.trans hok
    exact hsame

/-- A flush is finished if its memtable is still being flushed. -/
theorem finishFlush_cases (s : TableStore) (ticket : FlushTicket) :
    (∃ layers, s.layers.finishFlush? ticket.generation = some layers ∧
      s.finishFlush ticket = (.ok (), { s with layers })) ∨
    (s.layers.finishFlush? ticket.generation = none ∧
      s.finishFlush ticket = (.error (.invalidated s.id), s)) := by
  unfold finishFlush
  cases hf : s.layers.finishFlush? ticket.generation with
  | none => exact .inr ⟨rfl, rfl⟩
  | some layers => exact .inl ⟨layers, rfl, rfl⟩

/-- **A flush that is finished changes no look-up**, nor does one that cannot be finished. -/
theorem finishFlush_rearranged {s : TableStore} (h : s.layers.WellFormed) (ticket : FlushTicket) :
    Rearranged s (s.finishFlush ticket).2 := by
  rcases s.finishFlush_cases ticket with ⟨layers, hlayers, hfinish⟩ | ⟨-, hfinish⟩ <;> rw [hfinish]
  · obtain ⟨hwf, hlookup⟩ := Layers.lookup_finishFlush h hlayers
    refine ⟨rfl, rfl, rfl, hwf, ?_⟩
    funext key name
    exact hlookup key name
  · exact Rearranged.refl h

/-- The tables differ at most in the cells written at or before a time, which the second one has
not. -/
structure Truncated (s s' : TableStore) (timestamp : Int) : Prop where
  id : s'.id = s.id
  schema : s'.schema = s.schema
  isInvalidated : s'.isInvalidated = s.isInvalidated
  layers : s'.layers.WellFormed
  get? : s'.get? = Ledger.discard s.get? timestamp

/-- A truncation leaves the cells that are new enough, unless the table was retired. -/
theorem discard_cases {s : TableStore} (h : s.layers.WellFormed) (timestamp : Int) :
    (∃ e, s.checkValid = .error e ∧ s.discard timestamp = .error e) ∨
    (s.checkValid = .ok () ∧
      ∃ s', s.discard timestamp = .ok s' ∧ Truncated s s' timestamp) := by
  unfold discard
  rcases s.checkValid with e | ⟨⟨⟩⟩
  · exact .inl ⟨e, rfl, rfl⟩
  · refine .inr ⟨rfl, _, rfl, rfl, rfl, rfl, h.discard timestamp, ?_⟩
    funext key name
    exact Layers.lookup_discard h timestamp key name

theorem truncated_of_discard {s s' : TableStore} (h : s.layers.WellFormed) {timestamp : Int}
    (hdiscard : s.discard timestamp = .ok s') : Truncated s s' timestamp := by
  rcases discard_cases h timestamp with ⟨e, -, he⟩ | ⟨-, _, hok, hsame⟩
  · cases hdiscard.symm.trans he
  · cases hdiscard.symm.trans hok
    exact hsame

end TableStore

end WideColumn
