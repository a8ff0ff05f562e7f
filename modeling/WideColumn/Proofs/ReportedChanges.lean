import Mathlib.Data.Finset.Basic
import WideColumn.Proofs.Deployments
import WideColumn.Proofs.FlatStore

/-!
# What hooks are told

A hook is called for the changes that readers see, and for nothing else.  Whoever follows the calls
therefore knows the live cells of a table: an insertion brings a cell, an update puts one in place
of another, and a deletion takes one away.

* `Ledger.putAll`, `callsFor` — what cells, written one after the other, leave behind, and the calls
  that they make;
* `reported`, `Ledger.Shown` — the cells that calls report, and when they are the live ones;
  `Ledger.Shown.put` — **one written cell keeps it so**;
* `TableStore.perform_reports`, `TableStore.performAll_reports` — **an action, and then a run, makes
  the calls of the cells that it writes**;
* `hooks_report_changes` — **the calls report the live cells**, and each of them tells what was
  there before.
-/

namespace WideColumn

open Effects

/-! ### Cells that are written one after the other -/

namespace Cell

/-- What a change tells of the cell that was written and of the one that counted before. -/
def Tells (now : Int) (before? : Option Cell) (c : Cell) : Change → Prop
  | .insert new => new = c ∧ before? = none ∧ c.isLive now = true
  | .update old new =>
    new = c ∧ before? = some old ∧ c.supersedes old = true ∧ c.isLive now = true
  | .delete old =>
    before? = some old ∧ c.supersedes old = true ∧ c.isLive now = false ∧ old.isLive now = true

theorem tells_of_effect {now : Int} {before? : Option Cell} {c : Cell} {change : Change}
    (h : c.effect now before? = .visible change) : Tells now before? c change := by
  rcases visible_cases h with ⟨hnone, hc, rfl⟩ | ⟨old, hold, hs, hc, rfl⟩ |
    ⟨old, hold, hs, hc, hlive, rfl⟩
  · exact ⟨rfl, hnone, hc⟩
  · exact ⟨rfl, hold, hs, hc⟩
  · exact ⟨hold, hs, hc, hlive⟩

end Cell

namespace Ledger

/-- The look-ups after cells of several partitions were written. -/
def putAll (v : Ledger) (written : List (Bytes × Cell)) : Ledger :=
  written.foldl (fun v w => v.put w.1 w.2) v

/-- The look-ups in a table without cells. -/
def empty : Ledger := fun _ _ => none

theorem putAll_append (v : Ledger) (front back : List (Bytes × Cell)) :
    v.putAll (front ++ back) = (v.putAll front).putAll back :=
  List.foldl_append

/-- Each cell is found under its own name. -/
def OwnNames (v : Ledger) : Prop := ∀ key name c, v key name = some c → c.name = name

theorem OwnNames.put {v : Ledger} (h : v.OwnNames) (key : Bytes) (c : Cell) :
    (v.put key c).OwnNames := by
  intro k name o ho
  rcases of_put ho with ⟨-, rfl, rfl⟩ | ⟨hold, -⟩
  · rfl
  · exact h k name o hold

end Ledger

/-- The call that a written cell makes, if any. -/
def callFor (now : Int) (v : Ledger) (key : Bytes) (c : Cell) : List HookCall :=
  match c.effect now (v key c.name) with
  | .visible change => [(key, change)]
  | _ => []

/-- The calls that cells make when they are written one after the other. -/
def callsFor (now : Int) (v : Ledger) : List (Bytes × Cell) → List HookCall
  | [] => []
  | (key, c) :: rest => callFor now v key c ++ callsFor now (v.put key c) rest

theorem callsFor_cons (now : Int) (v : Ledger) (key : Bytes) (c : Cell)
    (rest : List (Bytes × Cell)) :
    callsFor now v ((key, c) :: rest) =
      callFor now v key c ++ callsFor now (v.put key c) rest :=
  rfl

theorem callsFor_append (now : Int) (v : Ledger) (front back : List (Bytes × Cell)) :
    callsFor now v (front ++ back) =
      callsFor now v front ++ callsFor now (v.putAll front) back := by
  induction front generalizing v with
  | nil => rfl
  | cons w rest ih =>
    rw [List.cons_append, callsFor_cons, ih, ← List.append_assoc]
    rfl

/-- A written cell makes no call, or one that tells what was there before. -/
theorem callFor_cases (now : Int) (v : Ledger) (key : Bytes) (c : Cell) :
    callFor now v key c = [] ∨
      ∃ change, callFor now v key c = [(key, change)] ∧ c.Tells now (v key c.name) change := by
  unfold callFor
  cases heffect : c.effect now (v key c.name) with
  | superseded => exact .inl rfl
  | unseen => exact .inl rfl
  | visible change => exact .inr ⟨change, rfl, Cell.tells_of_effect heffect⟩

/-- A cell that does not supersede the one that counts makes no call. -/
theorem callFor_of_superseded {now : Int} {v : Ledger} {key : Bytes} {c o : Cell}
    (ho : v key c.name = some o) (hs : c.supersedes o = false) : callFor now v key c = [] := by
  unfold callFor Cell.effect
  rw [ho]
  simp only [hs, Bool.not_false, if_true]

/-- Behind each call there is the cell that makes it, when those before it are written. -/
theorem callsFor_split {now : Int} {v : Ledger} {written : List (Bytes × Cell)}
    {before after : List HookCall} {key : Bytes} {change : Cell.Change}
    (h : callsFor now v written = before ++ (key, change) :: after) :
    ∃ front c back, written = front ++ (key, c) :: back ∧ before = callsFor now v front ∧
      c.Tells now (v.putAll front key c.name) change := by
  induction written generalizing v before with
  | nil => simp [callsFor] at h
  | cons w rest ih =>
    obtain ⟨k, c⟩ := w
    rw [callsFor_cons] at h
    rcases callFor_cases now v k c with hcall | ⟨first, hcall, htells⟩ <;> rw [hcall] at h
    · obtain ⟨front, d, back, rfl, rfl, hd⟩ := ih h
      exact ⟨(k, c) :: front, d, back, rfl, by rw [callsFor_cons, hcall]; rfl, hd⟩
    · cases before with
      | nil =>
        obtain ⟨hfirst, -⟩ := List.cons.inj h
        cases hfirst
        exact ⟨[], c, rest, rfl, rfl, htells⟩
      | cons b more =>
        obtain ⟨rfl, hmore⟩ := List.cons.inj h
        obtain ⟨front, d, back, rfl, rfl, hd⟩ := ih hmore
        exact ⟨(k, c) :: front, d, back, rfl, by rw [callsFor_cons, hcall]; rfl, hd⟩

/-! ### The cells that calls report -/

/-- The reported cells after a call. -/
def report (cells : Finset (Bytes × Cell)) : HookCall → Finset (Bytes × Cell)
  | (key, .insert new) => insert (key, new) cells
  | (key, .update old new) => insert (key, new) (cells.erase (key, old))
  | (key, .delete old) => cells.erase (key, old)

/-- The cells that calls report. -/
def reported (calls : List HookCall) : Finset (Bytes × Cell) := calls.foldl report ∅

namespace Ledger

variable {v : Ledger} {now : Int} {cells : Finset (Bytes × Cell)}

/-- The cells are the live ones. -/
def Shown (now : Int) (v : Ledger) (cells : Finset (Bytes × Cell)) : Prop :=
  ∀ key c, (key, c) ∈ cells ↔ v key c.name = some c ∧ c.isLive now = true

/-- A call changes the cells of one name only, of which the new one is left if it is live. -/
theorem Shown.mem_report (h : v.Shown now cells) (hnames : v.OwnNames) {key : Bytes} {c : Cell}
    {change : Cell.Change} (htells : c.Tells now (v key c.name) change) (k : Bytes) (d : Cell) :
    (k, d) ∈ report cells (key, change) ↔
      if k = key ∧ d.name = c.name then d = c ∧ c.isLive now = true else (k, d) ∈ cells := by
  -- A reported cell of the name is the one that counted.
  have hfound : k = key → d.name = c.name → (k, d) ∈ cells → v key c.name = some d := by
    rintro rfl hname hd
    rw [← hname]
    exact ((h k d).1 hd).1
  have hreplaced : ∀ {o : Cell}, v key c.name = some o → k = key ∧ d.name = c.name →
      ¬((k, d) ≠ (key, o) ∧ (k, d) ∈ cells) := by
    rintro o ho ⟨rfl, hname⟩ ⟨hne, hd⟩
    exact hne (by rw [Option.some.inj (ho.symm.trans (hfound rfl hname hd))])
  have hother : ∀ {o : Cell}, o.name = c.name → ¬(k = key ∧ d.name = c.name) →
      (k, d) ≠ (key, o) := by
    rintro o ho hne ⟨⟩
    exact hne ⟨rfl, ho⟩
  cases change with
  | insert new =>
    obtain ⟨rfl, hnone, hlive⟩ := htells
    show (k, d) ∈ insert (key, new) cells ↔ _
    rw [Finset.mem_insert]
    split
    · rename_i hsame
      obtain ⟨rfl, hname⟩ := hsame
      have hnew : (k, d) ∉ cells := fun hd => by
        cases hnone.symm.trans (hfound rfl hname hd)
      simp [hnew, hlive]
    · rename_i hne
      exact or_iff_right (hother rfl hne)
  | update old new =>
    obtain ⟨rfl, hold, hs, hlive⟩ := htells
    show (k, d) ∈ insert (key, new) (cells.erase (key, old)) ↔ _
    rw [Finset.mem_insert, Finset.mem_erase]
    split
    · rename_i hsame
      rw [or_iff_left (hreplaced hold hsame)]
      simp [hsame.1, hlive]
    · rename_i hne
      rw [or_iff_right (hother rfl hne)]
      exact and_iff_right (hother (hnames key new.name old hold) hne)
  | delete old =>
    obtain ⟨hold, hs, hdead, hlive⟩ := htells
    show (k, d) ∈ cells.erase (key, old) ↔ _
    rw [Finset.mem_erase]
    split
    · rename_i hsame
      exact iff_of_false (hreplaced hold hsame) fun hnew => absurd hnew.2 (by simp [hdead])
    · rename_i hne
      exact and_iff_right (hother (hnames key c.name old hold) hne)

/-- A cell that is stored is the one that is found, if it is live. -/
theorem set_live (v : Ledger) (now : Int) (key : Bytes) (c : Cell) (k : Bytes) (d : Cell) :
    (v.set key c k d.name = some d ∧ d.isLive now = true) ↔
      if k = key ∧ d.name = c.name then d = c ∧ c.isLive now = true
      else v k d.name = some d ∧ d.isLive now = true := by
  unfold set
  split
  · constructor
    · rintro ⟨hc, hlive⟩
      cases hc
      exact ⟨rfl, hlive⟩
    · rintro ⟨rfl, hlive⟩
      exact ⟨rfl, hlive⟩
  · rfl

/-- **One written cell keeps the reported cells the live ones.** -/
theorem Shown.put (h : v.Shown now cells) (hnames : v.OwnNames) (key : Bytes) (c : Cell) :
    (v.put key c).Shown now ((callFor now v key c).foldl report cells) := by
  intro k d
  unfold callFor
  cases heffect : c.effect now (v key c.name) with
  | superseded =>
    obtain ⟨o, ho, hs⟩ := Cell.superseded_of_effect heffect
    rw [put_eq_self ho hs]
    exact h k d
  | unseen =>
    obtain ⟨hold, hdead⟩ := Cell.of_unseen heffect
    rw [put_eq_set fun o ho => (hold o ho).1, set_live, ← h k d]
    show (k, d) ∈ cells ↔ _
    split
    · rename_i hsame
      obtain ⟨rfl, hname⟩ := hsame
      -- Neither the new cell nor the one that counted was live.
      have hnot : (k, d) ∉ cells := fun hd => by
        obtain ⟨hfound, hlive⟩ := (h k d).1 hd
        rw [(hold d (hname ▸ hfound)).2] at hlive
        cases hlive
      simp [hnot, hdead]
    · rfl
  | visible change =>
    have hstored : ∀ o, v key c.name = some o → c.supersedes o = true := fun o ho =>
      Cell.supersedes_of_effect (by rw [heffect]; nofun) ho
    rw [put_eq_set hstored, set_live, ← h k d]
    exact h.mem_report hnames (Cell.tells_of_effect heffect) k d

/-- The same for cells that are written one after the other. -/
theorem Shown.putAll (h : v.Shown now cells) (hnames : v.OwnNames)
    (written : List (Bytes × Cell)) :
    (v.putAll written).Shown now ((callsFor now v written).foldl report cells) := by
  induction written generalizing v cells with
  | nil => exact h
  | cons w rest ih =>
    obtain ⟨key, c⟩ := w
    rw [callsFor_cons, List.foldl_append]
    exact ih (h.put hnames key c) (hnames.put key c)

end Ledger

/-! ### Tables -/

section Runs

variable {σ : Type} {s s' : TableStore} {now : Int} {trace trace' : HookTrace σ}

/-- Is it a write at a time, or part of a flush? -/
def StoreAction.WritesAt (now : Int) : StoreAction σ → Prop
  | .apply time _ _ _ => time = now
  | .issueFlush _ | .finishFlush _ => True
  | .discard _ | .invalidate => False

/-- The cells that an action writes, in order. -/
def StoreAction.cells : StoreAction σ → List (Bytes × Cell)
  | .apply _ _ key mutation => mutation.map (key, ·)
  | _ => []

/-- A hook that is traced notes what it is shown. -/
theorem traced_forM {hook : WriteHook σ} {key : Bytes} {changes : List Cell.Change}
    (h : runFrom (changes.forM (hook.traced key)) trace = (.ok (), trace')) :
    trace'.1 = trace.1 ++ changes.map (key, ·) := by
  induction changes generalizing trace with
  | nil =>
    cases h
    simp
  | cons change rest ih =>
    obtain ⟨⟨⟩, trace₁, hfirst, hrest⟩ := bind_eq_ok.1 h
    have hnoted : trace₁.1 = trace.1 ++ [(key, change)] := by
      have hstate : (runFrom (hook.traced key change) trace).2 = trace₁ := by rw [hfirst]
      rw [← hstate]
      rfl
    rw [ih hrest, hnoted, List.append_assoc]
    rfl

namespace TableStore

/-- The plan of a write has the calls of its cells, and stores what counts of them. -/
theorem planCells_reports (now : Int) (v : Ledger) (key : Bytes) (pending : Partition)
    (cells : List Cell) :
    (planCells now (v key) pending cells).1.map (key, ·) =
        callsFor now (v.overlay key pending) (cells.map (key, ·)) ∧
      v.overlay key (planCells now (v key) pending cells).2 =
        (v.overlay key pending).putAll (cells.map (key, ·)) := by
  induction cells generalizing pending with
  | nil => exact ⟨rfl, rfl⟩
  | cons c rest ih =>
    have hview : v.overlay key pending key c.name = (pending.find? c.name).or (v key c.name) :=
      if_pos rfl
    have hstored : c.effect now (v.overlay key pending key c.name) ≠ .superseded →
        (v.overlay key pending).put key c = v.overlay key (Bindings.insert c.name c pending) :=
      fun hne => by
        rw [Ledger.overlay_insert, Ledger.put_eq_set fun o ho => Cell.supersedes_of_effect hne ho]
    show _ = callFor now (v.overlay key pending) key c ++
        callsFor now ((v.overlay key pending).put key c) (rest.map (key, ·)) ∧
      _ = ((v.overlay key pending).put key c).putAll (rest.map (key, ·))
    unfold planCells callFor
    rw [← hview]
    cases heffect : c.effect now (v.overlay key pending key c.name) with
    | superseded =>
      obtain ⟨o, ho, hs⟩ := Cell.superseded_of_effect heffect
      rw [Ledger.put_eq_self ho hs]
      exact ih pending
    | unseen =>
      rw [hstored (by simp [heffect])]
      exact ih _
    | visible change =>
      rw [hstored (by simp [heffect])]
      exact ⟨congrArg ((key, change) :: ·) (ih _).1, (ih _).2⟩

/-- **An action makes the calls of the cells that it writes**, and stores what counts of them. -/
theorem perform_reports (h : s.layers.WellFormed) {a : StoreAction σ} (ha : a.WritesAt now)
    (hrun : s.perform trace a = (.ok (), s', trace')) :
    s'.layers.WellFormed ∧ s'.get? = Ledger.putAll s.get? a.cells ∧
      trace'.1 = trace.1 ++ callsFor now s.get? a.cells := by
  have hquiet : s.Rearranged s' → trace' = trace → a.cells = [] →
      s'.layers.WellFormed ∧ s'.get? = Ledger.putAll s.get? a.cells ∧
        trace'.1 = trace.1 ++ callsFor now s.get? a.cells := by
    rintro hs rfl hcells
    rw [hcells]
    exact ⟨hs.layers, hs.get?, (List.append_nil _).symm⟩
  cases a with
  | apply time hook key mutation =>
    obtain rfl : time = now := ha
    obtain ⟨-, rfl, hhook⟩ := perform_apply_eq_ok.1 hrun
    obtain ⟨hcalls, hcells⟩ := planCells_reports time s.get? key [] mutation
    rw [Ledger.overlay_nil] at hcalls hcells
    refine ⟨written_wellFormed h time key mutation, ?_, ?_⟩
    · rw [get?_written h]
      exact hcells
    · rw [traced_forM hhook]
      exact congrArg (trace.1 ++ ·) hcalls
  | issueFlush order =>
    unfold perform at hrun
    rcases issueFlush_cases h order with ⟨e, -, hissue⟩ | ⟨-, t, s₁, o, hissue, hs⟩ <;>
      simp only [hissue] at hrun <;> cases hrun
    exact hquiet hs rfl rfl
  | finishFlush ticket =>
    cases hrun
    exact hquiet (finishFlush_rearranged h ticket) rfl rfl
  | discard timestamp => exact ha.elim
  | invalidate => exact ha.elim

/-- **A run makes the calls of all cells that are written in it.** -/
theorem performAll_reports (h : s.layers.WellFormed) {actions : List (StoreAction σ)}
    {outcomes : List Outcome} (hactions : ∀ a ∈ actions, a.WritesAt now)
    (hrun : performAll perform s trace actions = (outcomes, s', trace'))
    (hok : ∀ o ∈ outcomes, o = .ok ()) :
    s'.layers.WellFormed ∧ s'.get? = Ledger.putAll s.get? (actions.flatMap StoreAction.cells) ∧
      trace'.1 = trace.1 ++ callsFor now s.get? (actions.flatMap StoreAction.cells) := by
  induction actions generalizing s trace outcomes with
  | nil =>
    cases hrun
    exact ⟨h, rfl, (List.append_nil _).symm⟩
  | cons a rest ih =>
    rcases hfirst : s.perform trace a with ⟨outcome, s₁, trace₁⟩
    rcases hrest : performAll perform s₁ trace₁ rest with ⟨others, s₂, trace₂⟩
    rw [performAll_cons_eq hfirst, hrest] at hrun
    cases hrun
    obtain ⟨houtcome, hothers⟩ := List.forall_mem_cons.1 hok
    rw [houtcome] at hfirst
    obtain ⟨ha, hmore⟩ := List.forall_mem_cons.1 hactions
    obtain ⟨h₁, hget₁, hcalls₁⟩ := perform_reports h ha hfirst
    obtain ⟨h₂, hget₂, hcalls₂⟩ := ih h₁ hmore hrest hothers
    rw [List.flatMap_cons, Ledger.putAll_append, callsFor_append, ← List.append_assoc, ← hcalls₁,
      ← hget₁]
    exact ⟨h₂, hget₂, hcalls₂⟩

end TableStore

end Runs

/-- **Hooks are told what readers see.**  After writes at one time and flushes of an empty table,
all of which succeed, the cells that the calls report are the live ones.  Each call is that of a
written cell and tells what counted before it, with all cells written up to then; and a cell that
does not supersede that one makes none. -/
theorem hooks_report_changes {σ : Type} (schema : TableSchema) (now : Int)
    (actions : List (StoreAction σ)) (st : σ) (hactions : ∀ a ∈ actions, a.WritesAt now)
    (hok : ∀ o ∈ (performAll TableStore.perform (.ofSchema schema) ([], st) actions).1,
      o = .ok ()) :
    let run := performAll TableStore.perform (.ofSchema schema) ([], st) actions
    let s := run.2.1
    let calls := run.2.2.1
    let written := actions.flatMap StoreAction.cells
    (∀ key c, (key, c) ∈ reported calls ↔ c ∈ s.liveCells now key) ∧
    (∀ key c, (key, c) ∈ reported calls ↔ s.get? key c.name = some c ∧ c.isLive now = true) ∧
    s.get? = Ledger.empty.putAll written ∧ calls = callsFor now .empty written ∧
    (∀ before key change after, calls = before ++ (key, change) :: after →
      ∃ front c back, written = front ++ (key, c) :: back ∧ before = callsFor now .empty front ∧
        c.Tells now (Ledger.empty.putAll front key c.name) change) ∧
    ∀ front key c back o, written = front ++ (key, c) :: back →
      Ledger.empty.putAll front key c.name = some o → c.supersedes o = false →
      calls = callsFor now .empty front ++ callsFor now (Ledger.empty.putAll front) back := by
  intro run s calls written
  obtain ⟨hwf, hget, hcalls⟩ := @TableStore.performAll_reports σ (.ofSchema schema) _ now ([], st)
    _ Layers.WellFormed.empty actions _ hactions rfl hok
  have hget : s.get? = Ledger.empty.putAll written := hget
  have hcalls : calls = callsFor now .empty written := hcalls
  have hshown : Ledger.Shown now s.get? (reported calls) := by
    have hstart : Ledger.empty.Shown now ∅ := fun _ _ => by simp [Ledger.empty]
    rw [hget, hcalls]
    exact hstart.putAll nofun written
  refine ⟨fun key c => ?_, hshown, hget, hcalls, fun before key change after hsplit => ?_,
    fun front key c back o hsplit ho hs => ?_⟩
  · rw [TableStore.mem_liveCells hwf]
    exact hshown key c
  · exact callsFor_split (hcalls ▸ hsplit)
  · rw [hcalls, hsplit, callsFor_append, callsFor_cons, callFor_of_superseded ho hs,
      Ledger.put_eq_self ho hs]
    rfl

/-- A level that is corrected at once and deleted after a flush, and a note. -/
def levelAndNote : List (StoreAction Unit) :=
  [.apply 0 .none [65] [reading "level" 49 1, reading "level" 50 2], .issueFlush {},
    .finishFlush ⟨0, ⟨0⟩⟩,
    .apply 0 .none [65] [.tombstone (readingName "level") 3 0, reading "level" 49 1],
    .apply 0 .none [65] [reading "note" 97 1]]

/-- Their calls report the note alone. -/
theorem levelAndNote_reported :
    let run := performAll TableStore.perform (.ofSchema readings) ([], ()) levelAndNote
    (∀ a ∈ levelAndNote, a.WritesAt 0) ∧ (∀ o ∈ run.1, o = .ok ()) ∧
      run.2.2.1 = [([65], .insert (reading "level" 49 1)),
        ([65], .update (reading "level" 49 1) (reading "level" 50 2)),
        ([65], .delete (reading "level" 50 2)), ([65], .insert (reading "note" 97 1))] ∧
      ∀ key c, (key, c) ∈ reported run.2.2.1 ↔ c ∈ run.2.1.liveCells 0 key := by
  have hwrites : ∀ a ∈ levelAndNote, a.WritesAt 0 := by
    simp [levelAndNote, StoreAction.WritesAt]
  have hok : ∀ o ∈ (performAll TableStore.perform (.ofSchema readings) ([], ()) levelAndNote).1,
      o = .ok () := by decide +kernel
  exact ⟨hwrites, hok, by decide +kernel,
    (hooks_report_changes readings 0 levelAndNote () hwrites hok).1⟩

end WideColumn
