import WideColumn.Proofs.ReachableTables
import WideColumn.Proofs.RefusedWrites

/-!
# Writes that indexes do not hinder

An index that has a place for the entries of the cells that it covers does its work without fail,
even if it is retired meanwhile.  A write that the base table accepts by itself then succeeds with
its indexes too.

* `Fits`, `Takes` — the index table has a place for the entry of a cell, or of each with a name;
* `KeptIndex.writeInPlace_completes`, `KeptIndex.follow_completes` — what fits is written, and the
  work on a change succeeds;
* `TableStore.changes_about` — a write shows its hook only changes of the cells that it names;
* `index_never_hinders_write` — **where there is room for the entries, indexes never make a write
  fail**.
-/

namespace WideColumn

open Effects

/-! ### Places for entries -/

namespace SecondaryIndex

/-- The cell has an entry, which fits into the index table. -/
def Fits (x : SecondaryIndex) (key : Bytes) (c : Cell) : Prop :=
  ∃ e, x.entry key c = .ok e ∧
    (∃ values, x.indexSchema.keyLayout.decode e.partitionKey = .ok values) ∧
    ∃ parts, x.indexSchema.cellLayout.decode e.cellName = .ok parts

/-- The cells of a name have entries, which fit into the index table. -/
def Takes (x : SecondaryIndex) (key name : Bytes) : Prop :=
  ∀ c : Cell, c.name = name → x.Fits key c

theorem takes_of_hasRoom {x : SecondaryIndex} (hx : x.WellMade) {key : Bytes} {values : List Bytes}
    (hkey : x.base.keyLayout.encode values = .ok key) {name : Bytes} (hname : x.base.HasName name)
    (hroom : x.HasRoom key name) : x.Takes key name := by
  rintro c rfl
  obtain ⟨e, he⟩ := (entry_exists_iff hx hkey hname).2 hroom
  exact ⟨e, he, entry_decodes hx.table he⟩

/-- The index is over the table, and has places for the entries of the cells that it covers. -/
def Serves (base : TableSchema) (key : Bytes) (cells : List Cell) (x : SecondaryIndex) : Prop :=
  x.IsOver base ∧ ∀ c ∈ cells, x.covers c = true → x.Takes key c.name

end SecondaryIndex

/-! ### The work of one index -/

namespace KeptIndex

variable {x : SecondaryIndex} {k : KeptIndex}

/-- An index stays retired, whatever is planned. -/
theorem disturb_invalidated (h : k.state = .invalidated) (kind : AccessKind) :
    (k.disturb kind).state = .invalidated :=
  disturb_induction (P := fun k => k.state = .invalidated) (fun _ _ h => h) (fun _ => rfl)
    (fun _ h => h) h

theorem isRetired_completes (x : SecondaryIndex) : Completes (Ready x) isRetired :=
  Completes.bind (Completes.modify fun _ h => h.disturb .check) fun _ =>
    Completes.getThen fun _ _ => Completes.pure _

/-- That an index was retired is no error. -/
theorem unlessRetired_quiet (h : Ready x k) (hstate : k.state = .invalidated) (id : String) :
    ∃ k', runFrom (unlessRetired (.invalidated id)) k = (.ok (), k') ∧ Ready x k' := by
  refine ⟨k.disturb .check, ?_, h.disturb .check⟩
  have hretired : runFrom isRetired k = (.ok true, k.disturb .check) := by
    rw [runFrom_isRetired, disturb_invalidated hstate, decide_eq_true rfl]
  show runFrom (isRetired >>= _) k = _
  rw [runFrom_bind, hretired]
  rfl

/-- What fits into the index table is written, unless the table was retired. -/
theorem writeTable_result (h : Ready x k) (now : Int) {key : Bytes} {c : Cell}
    (hkey : ∃ values, x.indexSchema.keyLayout.decode key = .ok values)
    (hname : ∃ parts, x.indexSchema.cellLayout.decode c.name = .ok parts) :
    (runFrom (writeTable now key c) k).1 = .ok () ∨
      ∃ id, (runFrom (writeTable now key c) k).1 = .error (.storage (.invalidated id)) ∧
        (runFrom (writeTable now key c) k).2.state = .invalidated := by
  have hk := h.disturb .write
  have htable := hk.tableWrite now key c
  unfold writeTable
  simp only [runFrom_bind, runFrom_modify, runFrom_get]
  cases hinvalidated : (k.disturb .write).store.isInvalidated with
  | true =>
    rw [htable, TableStore.write_eq_error hinvalidated]
    exact .inr ⟨_, rfl, hk.retired hinvalidated⟩
  | false =>
    have hcheck : (k.disturb .write).store.checkWrite key [c] = .ok () := by
      rw [TableStore.checkWrite_eq_ok, hk.schema]
      exact ⟨hinvalidated, hkey, List.forall_mem_singleton.2 hname⟩
    rw [htable, TableStore.write_eq_ok hcheck]
    exact .inl rfl

/-- **An entry that fits is written**, unless the index was retired. -/
theorem writeEntry_completes (now : Int) {e : IndexEntry} {c : Cell}
    (hkey : ∃ values, x.indexSchema.keyLayout.decode e.partitionKey = .ok values)
    (hname : ∃ parts, x.indexSchema.cellLayout.decode c.name = .ok parts) :
    Completes (Ready x) (writeEntry now e c) := by
  intro k h
  have hkept := (ready_keptByAccess now x).writeTable e.partitionKey c k h
  have hresult := writeTable_result h now hkey hname
  unfold writeEntry
  rw [runFrom_tryCatch]
  rcases hrun : runFrom (writeTable now e.partitionKey c) k with ⟨result, k'⟩
  rw [hrun] at hkept hresult
  rcases hresult with hok | ⟨id, herror, hstate⟩
  · obtain rfl : result = .ok () := hok
    exact ⟨(), k', rfl, hkept⟩
  · obtain rfl : result = .error (.storage (.invalidated id)) := herror
    obtain ⟨k'', hquiet, hk''⟩ := unlessRetired_quiet hkept hstate id
    exact ⟨(), k'', hquiet, hk''⟩

/-- The entry of a cell is at hand. -/
theorem entryOf_then {α : Type} {key : Bytes} {c : Cell} {e : IndexEntry}
    (he : x.entry key c = .ok e) {f : IndexEntry → Upkeep α} (hf : Completes (Ready x) (f e)) :
    Completes (Ready x) (entryOf key c >>= f) := by
  intro k h
  obtain ⟨a, k', hrun, hk'⟩ := hf k h
  have hentry : runFrom (entryOf key c) k = (.ok e, k) := by
    show runFrom (liftM (k.index.entry key c) : Upkeep IndexEntry) k = _
    rw [h.index, he]
    rfl
  exact ⟨a, k', bind_eq_ok.2 ⟨e, k, hentry, hrun⟩, hk'⟩

/-! ### Changes -/

variable {key : Bytes}

/-- **What fits is written in its place**, whether it records a cell or removes its entry. -/
theorem writeInPlace_completes (env : Environment) {c : Cell} (hc : x.Fits key c)
    {written : IndexEntry → Cell} (hwritten : ∀ e, (written e).name = e.cellName) :
    Completes (Ready x) (writeInPlace env key c written) := by
  obtain ⟨e, he, hkey, hname⟩ := hc
  rw [← hwritten e] at hname
  exact Completes.bind (isRetired_completes x) fun _ => Completes.ite (fun _ => Completes.pure _)
    fun _ => entryOf_then he (writeEntry_completes env.now hkey hname)

theorem oldEntryGoes_completes (env : Environment) {old new : Cell} (hold : x.Fits key old)
    (hnew : x.Fits key new) : Completes (Ready x) (oldEntryGoes env key old new) := by
  obtain ⟨e, he, -⟩ := hold
  obtain ⟨e', he', -⟩ := hnew
  exact Completes.ite (fun _ => Completes.pure _) fun _ => Completes.ite (fun _ => Completes.pure _)
    fun _ => entryOf_then he (entryOf_then he' (Completes.pure _))

theorem update_completes (env : Environment) {old new : Cell} (hold : x.Fits key old)
    (hnew : x.Fits key new) : Completes (Ready x) (update env key old new) :=
  Completes.bind (isRetired_completes x) fun _ => Completes.ite (fun _ => Completes.pure _)
    fun _ => Completes.bind (writeInPlace_completes env hnew fun _ => rfl) fun _ =>
      Completes.bind (oldEntryGoes_completes env hold hnew) fun _ =>
        Completes.ite (fun _ => writeInPlace_completes env hold fun _ => rfl)
          fun _ => Completes.pure _

end KeptIndex

namespace Cell.Change

/-- The cells that a change is about. -/
def cells : Cell.Change → List Cell
  | .insert new => [new]
  | .update old new => [old, new]
  | .delete old => [old]

/-- The change is one of the cell of a name. -/
def IsAbout (name : Bytes) : Cell.Change → Prop
  | .insert new => new.name = name
  | .update old new => old.name = name ∧ new.name = name
  | .delete old => old.name = name

theorem IsAbout.name_eq {name : Bytes} {change : Cell.Change} (h : change.IsAbout name) :
    ∀ c ∈ change.cells, c.name = name := by
  cases change with
  | insert new => exact List.forall_mem_singleton.2 h
  | update old new => exact List.forall_mem_cons.2 ⟨h.1, List.forall_mem_singleton.2 h.2⟩
  | delete old => exact List.forall_mem_singleton.2 h

end Cell.Change

namespace KeptIndex

variable {x : SecondaryIndex} {key name : Bytes}

/-- **The work on a change succeeds** if the entries of its cells fit. -/
theorem follow_completes (env : Environment) {change : Cell.Change}
    (hfits : ∀ c ∈ change.cells, x.Fits key c) : Completes (Ready x) (follow env key change) := by
  cases change with
  | insert new =>
    exact writeInPlace_completes env (hfits new (by simp [Cell.Change.cells])) fun _ => rfl
  | update old new =>
    exact update_completes env (hfits old (by simp [Cell.Change.cells]))
      (hfits new (by simp [Cell.Change.cells]))
  | delete old =>
    exact writeInPlace_completes env (hfits old (by simp [Cell.Change.cells])) fun _ => rfl

theorem followCovered_completes (env : Environment) {change : Cell.Change}
    (hchange : change.IsAbout name)
    (htakes : x.covers (subject change) = true → x.Takes key name) :
    Completes (Ready x) (IndexSet.followCovered env key change) :=
  Completes.getThen fun _ h => Completes.ite
    (fun hcovers => follow_completes env fun c hc =>
      htakes (h.index ▸ hcovers) c (hchange.name_eq c hc))
    fun _ => Completes.pure _

end KeptIndex

/-! ### All indexes -/

namespace IndexSet

variable {Q : SecondaryIndex → Prop} {members : Bindings String KeptIndex}

/-- **Work that succeeds on each index succeeds on all of them.** -/
theorem performAll_completes {α : Type} {work : Upkeep α}
    (hwork : ∀ x, Q x → Completes (KeptIndex.Ready x) work) (h : Ready Q members) :
    ∃ results, (performAll work members).1 = .ok results := by
  induction members with
  | nil => exact ⟨[], rfl⟩
  | cons head rest ih =>
    obtain ⟨c, m⟩ := head
    obtain ⟨⟨x, hx, hm⟩, hrest⟩ := Ready.cons.1 h
    obtain ⟨a, m', hrun, -⟩ := hwork x hx _ (hm.setJournal [])
    obtain ⟨results, hresults⟩ := ih hrest
    rw [performAll_cons, hrun]
    exact ⟨(c, a) :: results, by rw [hresults]; rfl⟩

theorem hook_completes (env : Environment) {key : Bytes} {change : Cell.Change}
    (hwork : ∀ x, Q x → Completes (KeptIndex.Ready x) (followCovered env key change)) :
    Completes (fun s => Ready Q s.members) (hook env key change) := by
  intro s h
  obtain ⟨results, hresults⟩ := performAll_completes hwork h
  refine ⟨(), (runFrom (hook env key change) s).2, Prod.ext ?_ rfl,
    hook_ready env key change s h⟩
  show (performAll (followCovered env key change) s.members).1.map (fun _ => ()) = .ok ()
  rw [hresults]
  rfl

end IndexSet

/-! ### Writes of the base table -/

namespace TableStore

theorem planCells_about {now : Int} {stored : Bytes → Option Cell} {pending : Partition}
    (hwf : pending.WellFormed) (hstored : ∀ name d, stored name = some d → d.name = name)
    (cells : List Cell) :
    ∀ change ∈ (planCells now stored pending cells).1, ∃ c ∈ cells, change.IsAbout c.name := by
  induction cells generalizing pending with
  | nil => simp [planCells]
  | cons c rest ih =>
    have hlater : ∀ {pending : Partition}, pending.WellFormed →
        ∀ change ∈ (planCells now stored pending rest).1,
          ∃ d ∈ c :: rest, change.IsAbout d.name := by
      intro pending hwf change hchange
      obtain ⟨d, hd, habout⟩ := ih hwf change hchange
      exact ⟨d, List.mem_cons_of_mem _ hd, habout⟩
    have hold : ∀ o, (pending.find? c.name).or (stored c.name) = some o → o.name = c.name := by
      intro o ho
      rcases Option.or_eq_some_iff.1 ho with ho | ⟨-, ho⟩
      · exact hwf.name_eq ho
      · exact hstored _ _ ho
    unfold planCells
    cases heff : c.effect now ((pending.find? c.name).or (stored c.name)) with
    | superseded => exact hlater hwf
    | unseen => exact hlater (hwf.insert c)
    | visible change =>
      intro change' hchange'
      rcases List.mem_cons.1 hchange' with rfl | hchange'
      · refine ⟨c, List.mem_cons_self, ?_⟩
        rcases Cell.visible_cases heff with ⟨-, -, rfl⟩ | ⟨o, ho, -, -, rfl⟩ |
          ⟨o, ho, -, -, -, rfl⟩
        · rfl
        · exact ⟨hold o ho, rfl⟩
        · exact hold o ho
      · exact hlater (hwf.insert c) change' hchange'

/-- **A write shows its hook only changes of the cells that it names.** -/
theorem changes_about {s : TableStore} (h : s.layers.WellFormed) (now : Int) (key : Bytes)
    (mutation : List Cell) :
    ∀ change ∈ s.changes now key mutation, ∃ c ∈ mutation, change.IsAbout c.name :=
  planCells_about Partition.WellFormed.nil (fun _ _ hd => h.name_eq hd) mutation

/-- **A write succeeds with its hook** if it does without one and the hook accepts its changes. -/
theorem apply_completes {σ : Type} {P : σ → Prop} {s s' : TableStore} {now : Int}
    {hook : WriteHook σ} {key : Bytes} {mutation : List Cell}
    (hwrite : s.write now key mutation = .ok s')
    (hhook : ∀ change ∈ s.changes now key mutation, Completes P (hook key change)) {st : σ}
    (h : P st) : (runFrom (s.apply now hook key mutation) st).1 = .ok s' := by
  have hrun : runFrom (s.apply now (WriteHook.none (σ := Unit)) key mutation) () =
      (.ok s', ()) := Prod.ext hwrite rfl
  obtain ⟨hcheck, rfl, -⟩ := apply_ok hrun
  obtain ⟨⟨⟩, st', hall, -⟩ := Completes.forM hhook st h
  rw [apply_eq_plan, hcheck]
  simp only [runFrom_bind, hall, runFrom_pure]

end TableStore

/-- An index decides about a change by the name of the cell that it is about. -/
theorem SecondaryIndex.covers_subject {x : SecondaryIndex} {change : Cell.Change} {c : Cell}
    (h : change.IsAbout c.name) : x.covers (KeptIndex.subject change) = x.covers c := by
  refine x.covers_congr ?_
  cases change with
  | insert new => exact h
  | update old new => exact h.2
  | delete old => exact h

/-- **Indexes never make a write fail where there is room for the entries.**  In every table that
can be reached from an empty one over a compiled schema, a cell has an entry if and only if there
is room for it: where names are composites, the key must not be too long for one, and the name of
the cell must carry the clustering values that the index keeps.  If there is room for all cells of
a write that an index covers, then the write succeeds with the indexes whenever it does without
them. -/
theorem index_never_hinders_write {d : TableDefinition} {schema : TableSchema}
    (hcompile : d.compile = .ok schema) (env : Environment) {actions : List TableAction}
    (hactions : ∀ column, .invalidate (.index column) ∉ actions) {t : IndexedTable}
    (ht : t = (IndexedTable.ofSchema schema env).after actions) {values : List Bytes} {key : Bytes}
    (hkey : schema.keyLayout.encode values = .ok key) {cells : List Cell}
    (hcells : ∀ c ∈ cells, schema.HasName c.name) :
    (∀ b ∈ t.indexes.members, ∀ c ∈ cells,
      (∃ e, b.2.index.entry key c = .ok e) ↔ b.2.index.HasRoom key c.name) ∧
    ((∀ b ∈ t.indexes.members, ∀ c ∈ cells, b.2.index.covers c = true →
        b.2.index.HasRoom key c.name) →
      ∀ s, t.base.write t.environment.now key cells = .ok s →
        (runFrom (t.base.apply t.environment.now (IndexSet.hook t.environment) key cells)
          t.indexes).1 = .ok s) := by
  have hsound : t.Sound schema := ht ▸ (IndexedTable.sound_ofSchema schema env).after hactions
  have hfit := TableDefinition.keysFit_of_compile hcompile
  refine ⟨fun b hb c hc => ?_, fun hroom s hwrite => ?_⟩
  · obtain ⟨x, hover, hready⟩ := hsound.indexes b hb
    rw [hready.index]
    have hbase := hover.base_eq
    exact SecondaryIndex.entry_exists_iff (SecondaryIndex.wellMade_of_ofColumn hfit hover)
      (hbase ▸ hkey) (hbase ▸ hcells c hc)
  · have hindexes : IndexSet.Ready (SecondaryIndex.Serves schema key cells) t.indexes.members := by
      intro b hb
      obtain ⟨x, hover, hready⟩ := hsound.indexes b hb
      refine ⟨x, ⟨hover, fun c hc hcovers => ?_⟩, hready⟩
      have hbase := hover.base_eq
      have hroom := hroom b hb c hc
      rw [hready.index] at hroom
      exact SecondaryIndex.takes_of_hasRoom (SecondaryIndex.wellMade_of_ofColumn hfit hover)
        (hbase ▸ hkey) (hbase ▸ hcells c hc) (hroom hcovers)
    refine TableStore.apply_completes
      (P := fun s => IndexSet.Ready (SecondaryIndex.Serves schema key cells) s.members) hwrite
      (fun change hchange => ?_) hindexes
    obtain ⟨c, hc, habout⟩ :=
      TableStore.changes_about hsound.layers t.environment.now key cells change hchange
    refine IndexSet.hook_completes t.environment fun x hx => ?_
    refine KeptIndex.followCovered_completes t.environment habout fun hcovers => ?_
    exact hx.2 c hc (SecondaryIndex.covers_subject habout ▸ hcovers)

/-! ### Tides with an index -/

theorem tides_hasName (time : List Bytes) {name : Bytes}
    (h : tides.cellLayout.encode (.dense time) = .ok name) (value : UInt8) (timestamp : Int) :
    tides.HasName (tide time value timestamp).name := by
  refine ⟨.dense time, ?_⟩
  unfold tide Cell.ofValue
  rw [h]
  rfl

/-- A level that has a minute takes the place of another one. -/
theorem index_never_hinders_tide :
    tidesDefinition.compile = .ok tides ∧ tides.keyLayout.encode [[65]] = .ok [65] ∧
    ∃ s,
      recordedTide.base.write recordedTide.environment.now [65] [tide [[56], [49]] 50 2] = .ok s ∧
      (runFrom (recordedTide.base.apply recordedTide.environment.now
        (IndexSet.hook recordedTide.environment) [65] [tide [[56], [49]] 50 2])
        recordedTide.indexes).1 = .ok s := by
  have hreached : recordedTide = (IndexedTable.ofSchema tides ⟨0, dropsOldWhenMoved⟩).after
      [.addIndex "level" none, .apply [65] [tide [[56], [49]] 49 1] false none] := rfl
  have hkey : tides.keyLayout.encode [[65]] = .ok [65] := rfl
  have hwrite : recordedTide.base.write recordedTide.environment.now [65] [tide [[56], [49]] 50 2] =
      .ok (recordedTide.base.written recordedTide.environment.now [65]
        [tide [[56], [49]] 50 2]) := by decide +kernel
  have hentries : ∀ b ∈ recordedTide.indexes.members,
      (b.2.index.entry [65] (tide [[56], [49]] 50 2)).toOption.isSome = true := by decide +kernel
  obtain ⟨hexists, hsucceeds⟩ := index_never_hinders_write tides_compile ⟨0, dropsOldWhenMoved⟩
    (by simp) hreached hkey (List.forall_mem_singleton.2 (tides_hasName [[56], [49]] rfl 50 2))
  refine ⟨tides_compile, hkey, _, hwrite, hsucceeds (fun b hb c hc _ => ?_) _ hwrite⟩
  obtain rfl := List.mem_singleton.1 hc
  refine (hexists b hb _ hc).1 ?_
  have hentry := hentries b hb
  cases he : b.2.index.entry [65] (tide [[56], [49]] 50 2) with
  | error e =>
    rw [he] at hentry
    cases hentry
  | ok e => exact ⟨e, rfl⟩

/-- The tides with an index of the levels, before any was written. -/
def indexedTides : IndexedTable :=
  (IndexedTable.ofSchema tides ⟨0, dropsOldWhenMoved⟩).after [.addIndex "level" none]

/-- These tides when the table of the index was retired, but not the index. -/
def halfRetiredTides : IndexedTable := indexedTides.after [.invalidate (.index "level")]

/-- **Writes that an index hinders.**  The base table takes a level without a minute, and the index
covers it; but the index has no place for it, and with the index the write fails.  A level with a
minute has a place, but its write fails too if the index does not know that its table was
retired. -/
theorem index_hinders_tide :
    tidesDefinition.compile = .ok tides ∧ tides.keyLayout.encode [[65]] = .ok [65] ∧
    (tides.HasName (tide [[56]] 50 1).name ∧
      (indexedTides.index? "level").map (fun k => (k.index.covers (tide [[56]] 50 1),
        k.index.entry [65] (tide [[56]] 50 1))) =
          some (true, .error (.index (.missingComponent "level"))) ∧
      indexedTides.base.write 0 [65] [tide [[56]] 50 1] =
        .ok (indexedTides.base.written 0 [65] [tide [[56]] 50 1]) ∧
      (runFrom (indexedTides.base.apply 0 (IndexSet.hook indexedTides.environment) [65]
        [tide [[56]] 50 1]) indexedTides.indexes).1 =
          .error (.index (.missingComponent "level"))) ∧
    (tides.HasName (tide [[56], [49]] 50 1).name ∧
      halfRetiredTides.base.write 0 [65] [tide [[56], [49]] 50 1] =
        .ok (halfRetiredTides.base.written 0 [65] [tide [[56], [49]] 50 1]) ∧
      (runFrom (halfRetiredTides.base.apply 0 (IndexSet.hook halfRetiredTides.environment) [65]
        [tide [[56], [49]] 50 1]) halfRetiredTides.indexes).1 =
          .error (.storage (.invalidated "rivers.tides.level"))) := by
  refine ⟨tides_compile, rfl, ⟨tides_hasName [[56]] rfl 50 1, ?_, ?_, ?_⟩,
    tides_hasName [[56], [49]] rfl 50 1, ?_, ?_⟩ <;> decide +kernel

end WideColumn
