import WideColumn.Proofs.Deployments
import WideColumn.Proofs.RetiredIndexes
import WideColumn.Proofs.SchemaChanges

/-!
# Indexes that follow a new schema together

When the schema of a table changes, its indexes are reloaded one after the other, in the order of
their columns.  Nothing is taken back when one of them refuses: those before it follow the new
schema already, and those after it are not asked.

* `KeptIndex.reloadObstacle?` — why an index does not follow a new schema;
* `KeptIndex.runFrom_reload_cases` — **a reload in full**: the index is made anew with its table, or
  the index and the schema of its table stay;
* `IndexSet.Walked`, `IndexSet.walked_reload` — how far a walk through all indexes comes;
* `IndexSet.reloadAll_outcome` — **what reloading all indexes does**, whether it succeeds or fails.
-/

namespace WideColumn

open Effects

/-! ### One index -/

namespace KeptIndex

/-- Why an index does not follow a new schema of its base table, if so: it is retired by then, or
it cannot be made over the schema. -/
def reloadObstacle? (base : TableSchema) (k : KeptIndex) : Option EngineError :=
  if (k.disturb .check).state = .invalidated then some (.index (.invalidated k.store.id))
  else match k.index.rebased base with
    | .error e => some e
    | .ok _ => none

/-- Has the index another schema of its table than before? -/
def changesTable (k k' : KeptIndex) : Bool :=
  k'.index.indexSchema.version != k.index.indexSchema.version

/-- The index was made anew over a schema of its base table.  Its table has the schema that goes
with it unless the versions are the same, and holds what it held. -/
structure FollowsSchema (base : TableSchema) (k k' : KeptIndex) : Prop where
  index : k.index.rebased base = .ok k'.index
  schema : k'.store.schema =
    if k.changesTable k' then k'.index.indexSchema else k.store.schema
  store : k'.store = { k.store with schema := k'.store.schema }
  state : k'.state = k.state

/-- The index is the one before, and so is the schema of its table. -/
structure KeepsSchema (k k' : KeptIndex) : Prop where
  index : k'.index = k.index
  schema : k'.store.schema = k.store.schema

variable {base : TableSchema} {k k' : KeptIndex}

/-- What is planned for just before an access leaves the schemas alone. -/
theorem keepsSchema_disturb (k : KeptIndex) (kind : AccessKind) :
    k.KeepsSchema (k.disturb kind) :=
  disturb_induction (P := k.KeepsSchema) (fun _ _ h => ⟨h.index, h.schema⟩)
    (fun h => ⟨h.index, h.schema⟩)
    (fun _ h => ⟨h.index, (TableStore.invalidate_schema _).trans h.schema⟩) ⟨rfl, rfl⟩

/-- Unless an index is retired just before an access, it stays as it is. -/
theorem disturb_of_open {kind : AccessKind} (h : (k.disturb kind).state ≠ .invalidated) :
    (k.disturb kind).store = k.store ∧ (k.disturb kind).state = k.state := by
  have hkept : (k.disturb kind).state = .invalidated ∨
      ((k.disturb kind).store = k.store ∧ (k.disturb kind).state = k.state) :=
    disturb_induction
      (P := fun k' => k'.state = .invalidated ∨ (k'.store = k.store ∧ k'.state = k.state))
      (fun _ _ h => h) (fun _ => .inl rfl) (fun hstate _ => .inl hstate) (.inr ⟨rfl, rfl⟩)
  exact hkept.resolve_left h

/-- What reached the table before says nothing about what is planned. -/
theorem disturb_state_forgotten (k : KeptIndex) (kind : AccessKind) :
    (({ k with journal := [] } : KeptIndex).disturb kind).state = (k.disturb kind).state := by
  obtain ⟨index, store, state, ⟨fault, plan, later⟩, journal⟩ := k
  rcases plan with _ | ⟨planned, n⟩
  · rfl
  · unfold disturb
    dsimp only
    by_cases hkind : planned ≠ kind
    · rw [if_pos hkind, if_pos hkind]
    · rw [if_neg hkind, if_neg hkind]
      cases n with
      | zero => cases later <;> rfl
      | succ n => rfl

theorem reloadObstacle?_forgotten (base : TableSchema) (k : KeptIndex) :
    ({ k with journal := [] } : KeptIndex).reloadObstacle? base = k.reloadObstacle? base := by
  unfold reloadObstacle?
  rw [disturb_state_forgotten]

/-- A new index goes with its table. -/
theorem takeIndex_followsSchema {x : SecondaryIndex} (hx : k.index.rebased base = .ok x) :
    k.FollowsSchema base (k.takeIndex x) := by
  unfold takeIndex
  split
  · rename_i hchanged
    exact ⟨hx, (if_pos hchanged).symm, rfl, rfl⟩
  · rename_i hsame
    exact ⟨hx, (if_neg hsame).symm, rfl, rfl⟩

/-- What follows an index follows every index that is like it. -/
theorem FollowsSchema.of_like {k₀ : KeptIndex} (h : k₀.FollowsSchema base k')
    (hindex : k₀.index = k.index) (hstore : k₀.store = k.store) (hstate : k₀.state = k.state) :
    k.FollowsSchema base k' where
  index := hindex ▸ h.index
  schema := by
    have hschema := h.schema
    unfold changesTable at hschema ⊢
    rwa [hindex, hstore] at hschema
  store := hstore ▸ h.store
  state := h.state.trans hstate

/-- **A reload in full.**  Either there is an obstacle, and the index and the schema of its table
stay; or the index is made anew over the schema, with its table. -/
theorem runFrom_reload_cases (base : TableSchema) (k : KeptIndex) :
    (∃ e k', k.reloadObstacle? base = some e ∧ runFrom (reload base) k = (.error e, k') ∧
      k.KeepsSchema k') ∨
    ∃ k', k.reloadObstacle? base = none ∧
      runFrom (reload base) k = (.ok (k.changesTable k'), k') ∧ k.FollowsSchema base k' := by
  have hkept := k.keepsSchema_disturb .check
  rw [runFrom_reload, hkept.index]
  by_cases hretired : (k.disturb .check).state = .invalidated
  · rw [if_pos hretired, k.disturb_id]
    exact .inl ⟨_, _, if_pos hretired, rfl, hkept⟩
  · rw [if_neg hretired]
    have hobstacle : k.reloadObstacle? base = _ := if_neg hretired
    cases hx : k.index.rebased base with
    | error e =>
      rw [hx] at hobstacle
      exact .inl ⟨e, _, hobstacle, rfl, hkept⟩
    | ok x =>
      obtain ⟨hstore, hstate⟩ := disturb_of_open hretired
      have hfollows : k.FollowsSchema base ((k.disturb .check).takeIndex x) :=
        (takeIndex_followsSchema (hkept.index.symm ▸ hx)).of_like hkept.index hstore hstate
      have hindex : ((k.disturb .check).takeIndex x).index = x :=
        Except.ok.inj (hfollows.index.symm.trans hx)
      rw [hx] at hobstacle
      refine .inr ⟨_, hobstacle, ?_, hfollows⟩
      unfold changesTable
      rw [hindex]

end KeptIndex

/-! ### All indexes of a table -/

namespace IndexSet

/-- The index of the same column has followed a schema. -/
def Followed (base : TableSchema) (m m' : String × KeptIndex) : Prop :=
  m'.1 = m.1 ∧ m.2.FollowsSchema base m'.2

/-- The columns whose indexes have another schema of their table than before. -/
def changedColumns (members members' : Bindings String KeptIndex) : List String :=
  ((members.zip members').filter fun (m, m') => m.2.changesTable m'.2).map fun (m, _) => m.1

/-- How far a walk through indexes comes: all of them follow the schema, or those before the first
that refuses to, which itself keeps its schemas. -/
inductive Walked (base : TableSchema) (members members' : Bindings String KeptIndex) :
    Except EngineError (List String) → Prop
  | through (unhindered : ∀ m ∈ members, m.2.reloadObstacle? base = none)
      (followed : List.Forall₂ (Followed base) members members') :
      Walked base members members' (.ok (changedColumns members members'))
  | stopped {before before' after : Bindings String KeptIndex} {column : String}
      {k k' : KeptIndex} {e : EngineError} (from_eq : members = before ++ (column, k) :: after)
      (to_eq : members' = before' ++ (column, k') :: after)
      (unhindered : ∀ m ∈ before, m.2.reloadObstacle? base = none)
      (followed : List.Forall₂ (Followed base) before before')
      (obstacle : k.reloadObstacle? base = some e) (kept : k.KeepsSchema k') :
      Walked base members members' (.error e)

variable {base : TableSchema}

/-- One more index in front of those that a walk comes to. -/
theorem Walked.cons {m m' : String × KeptIndex} {members members' : Bindings String KeptIndex}
    {result : Except EngineError (List String)} (hunhindered : m.2.reloadObstacle? base = none)
    (hm : Followed base m m') (h : Walked base members members' result) :
    Walked base (m :: members) (m' :: members')
      (result.map ((if m.2.changesTable m'.2 then [m.1] else []) ++ ·)) := by
  cases h with
  | through hrest hfollowed =>
    have hcolumns : (if m.2.changesTable m'.2 then [m.1] else []) ++
        changedColumns members members' = changedColumns (m :: members) (m' :: members') := by
      unfold changedColumns
      rw [List.zip_cons_cons, List.filter_cons]
      split
      · rfl
      · rfl
    rw [except_map_ok, hcolumns]
    exact .through (List.forall_mem_cons.2 ⟨hunhindered, hrest⟩) (.cons hm hfollowed)
  | stopped hfrom hto hrest hfollowed hobstacle hkept =>
    rw [hfrom, hto]
    exact .stopped rfl rfl (List.forall_mem_cons.2 ⟨hunhindered, hrest⟩) (.cons hm hfollowed)
      hobstacle hkept

/-- The columns of the changes among results. -/
def columnsOf (changes : List (String × Bool)) : List String :=
  (changes.filter Prod.snd).map Prod.fst

theorem columnsOf_cons (column : String) (changed : Bool) (changes : List (String × Bool)) :
    columnsOf ((column, changed) :: changes) =
      (if changed then [column] else []) ++ columnsOf changes := by
  cases changed <;> rfl

/-- **A walk through all indexes** comes to the first one that refuses. -/
theorem walked_reload (base : TableSchema) (members : Bindings String KeptIndex) :
    Walked base members (performAll (KeptIndex.reload base) members).2.1
      ((performAll (KeptIndex.reload base) members).1.map columnsOf) := by
  induction members with
  | nil => exact .through (fun _ h => nomatch h) .nil
  | cons m rest ih =>
    obtain ⟨column, k⟩ := m
    rw [performAll_cons]
    -- The work begins with an empty journal and leaves one; neither matters to the schemas.
    rcases KeptIndex.runFrom_reload_cases base { k with journal := [] } with
      ⟨e, k', hobstacle, hrun, hkept⟩ | ⟨k', hunhindered, hrun, hfollows⟩ <;> rw [hrun]
    · rw [KeptIndex.reloadObstacle?_forgotten] at hobstacle
      have hfirst : (column, k) :: rest = [] ++ (column, k) :: rest := rfl
      have hleft : (column, { k' with journal := [] }) :: rest =
          [] ++ (column, { k' with journal := [] }) :: rest := rfl
      exact .stopped hfirst hleft (fun _ h => nomatch h) .nil hobstacle ⟨hkept.index, hkept.schema⟩
    · rw [KeptIndex.reloadObstacle?_forgotten] at hunhindered
      have hfollowed : Followed base (column, k) (column, { k' with journal := [] }) :=
        ⟨rfl, hfollows.index, hfollows.schema, hfollows.store, hfollows.state⟩
      have hwalked := ih.cons (m := (column, k)) hunhindered hfollowed
      have hresult : ((performAll (KeptIndex.reload base) rest).1.map
          ((column, k.changesTable k') :: ·)).map columnsOf =
          ((performAll (KeptIndex.reload base) rest).1.map columnsOf).map
            ((if k.changesTable k' then [column] else []) ++ ·) := by
        rw [except_map_map, except_map_map]
        simp only [columnsOf_cons]
      show Walked base _ _ (((performAll (KeptIndex.reload base) rest).1.map
        ((column, k.changesTable k') :: ·)).map columnsOf)
      rw [hresult]
      exact hwalked

/-- **What reloading all indexes does.**  The indexes follow the schema in the order of their
columns up to the first that cannot, and the others are left alone; the reload succeeds if none of
them has an obstacle, and its result is the columns whose index tables have another version. -/
theorem reloadAll_outcome (s : IndexSet) (base : TableSchema) :
    Walked base s.members (s.reloadAll base).2.members (s.reloadAll base).1 ∧
      ((∃ columns, (s.reloadAll base).1 = .ok columns) ↔
        ∀ m ∈ s.members, m.2.reloadObstacle? base = none) := by
  have hwalked : Walked base s.members (s.reloadAll base).2.members (s.reloadAll base).1 :=
    walked_reload base s.members
  refine ⟨hwalked, ?_⟩
  generalize (s.reloadAll base).1 = result at hwalked
  generalize (s.reloadAll base).2.members = members' at hwalked
  cases hwalked with
  | through hunhindered hfollowed => exact ⟨fun _ => hunhindered, fun _ => ⟨_, rfl⟩⟩
  | stopped hfrom hto hunhindered hfollowed hobstacle hkept =>
    refine ⟨fun ⟨_, h⟩ => (nomatch h), fun hall => ?_⟩
    have hnone := hall _ (hfrom ▸ List.mem_append_right _ List.mem_cons_self)
    rw [hobstacle] at hnone
    cases hnone

end IndexSet

/-! ### Readings that lose their notes -/

/-- The index on the notes of the readings. -/
def readingsByNote : SecondaryIndex where
  base := readings
  column := "note"
  indexName := none
  target := .regular
  indexSchema := SecondaryIndex.indexTable readings "note" "note" .regular .text

/-- Indexes on the levels and on the notes of the readings. -/
def levelsAndNotes : IndexSet where
  members := [("level", .ofIndex readingsByLevel), ("note", .ofIndex readingsByNote)]

/-- When the notes are dropped, their index refuses; that on the levels has followed by then. -/
theorem reloadAll_levelsAndNotes :
    (({} : IndexSet).add readingsByLevel >>= (·.add readingsByNote)) = .ok levelsAndNotes ∧
    ∃ base, readings.changeAll [.retypeColumn "level" .blob, .dropColumn "note"] = .ok base ∧
      (levelsAndNotes.reloadAll base).1 =
        .error (.index (.notIndexable "rivers.readings" "note" .noSuchColumn)) ∧
      (levelsAndNotes.reloadAll base).2.members.map (·.2.index) ≠
        levelsAndNotes.members.map (·.2.index) ∧
      (levelsAndNotes.reloadAll base).2.members.map (·.2.store.schema) ≠
        levelsAndNotes.members.map (·.2.store.schema) := by
  refine ⟨rfl, _, rfl, ?_, ?_, ?_⟩
  · decide +kernel
  · decide +kernel
  · decide +kernel

end WideColumn
