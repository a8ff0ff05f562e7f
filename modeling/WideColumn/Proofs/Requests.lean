import WideColumn.IndexedTable
import WideColumn.Proofs.Effects

/-!
# What requests do

A request looks for the tokens, tables and indexes that it names before it changes anything.

* `requireToken_cases`, `runFrom_requireIndex`, `requireStore_cases` — these look-ups;
* `apply_cases` — a write of the base table;
* `onIndex_cases` — work on one index.
-/

namespace WideColumn

open Effects

namespace IndexedTable

variable {α : Type}

/-! ### Look-ups -/

theorem runFrom_failed (result : Except EngineError α) (t : IndexedTable) :
    runFrom (failed result) t = (result.mapError .failed, t) := by
  cases result <;> rfl

theorem runFrom_stored (result : Except StorageError α) (t : IndexedTable) :
    runFrom (stored result) t = (result.mapError (.failed ∘ .storage), t) := by
  cases result <;> rfl

theorem requireToken_cases (token : Option String) (t : IndexedTable) :
    runFrom (requireToken token) t = (.ok (), t) ∨
      runFrom (requireToken token) t = (.error (.refused .noToken), t) := by
  cases token with
  | none => exact .inl rfl
  | some name =>
    have hrun : runFrom (requireToken (some name)) t =
        runFrom (if !t.writes.tokens.contains name then throw (.refused .noToken)
          else pure () : Request Unit) t := rfl
    rw [hrun]
    split
    · exact .inr rfl
    · exact .inl rfl

theorem runFrom_requireIndex (column : String) (t : IndexedTable) :
    runFrom (requireIndex column) t =
      match t.index? column with
      | some k => (.ok k, t)
      | none => (.error (.refused (.noIndex column)), t) := by
  show runFrom (match t.index? column with
    | some k => pure k
    | none => throw (.refused (.noIndex column)) : Request KeptIndex) t = _
  cases t.index? column <;> rfl

theorem requireStore_cases (table : TableRef) (t : IndexedTable) :
    (∃ s, t.store? table = some s ∧ runFrom (requireStore table) t = (.ok s, t)) ∨
      ∃ e, runFrom (requireStore table) t = (.error e, t) := by
  cases table with
  | base => exact .inl ⟨t.base, rfl, rfl⟩
  | index column =>
    have hrun : runFrom (requireStore (.index column)) t =
        runFrom (requireIndex column >>= fun k => pure k.store) t := rfl
    rw [hrun, runFrom_bind, runFrom_requireIndex]
    cases hk : t.index? column with
    | none => exact .inr ⟨_, rfl⟩
    | some k => exact .inl ⟨k.store, by simp [store?, hk], rfl⟩

/-! ### Writes of the base table -/

/-- The hook of a write, which does nothing if the write is direct. -/
def hookOf (t : IndexedTable) (direct : Bool) : WriteHook IndexSet :=
  if direct then WriteHook.none else IndexSet.hook t.environment

/-- **A write of the base table**: its token is not there and nothing happens, or the base table or
one of its indexes refuses it and what the indexes did stays, or it succeeds. -/
theorem apply_cases (t : IndexedTable) (key : Bytes) (cells : List Cell) (direct : Bool)
    (token : Option String) :
    (∃ e, runFrom (IndexedTable.apply key cells direct token) t = (.error e, t)) ∨
    (∃ error indexes,
      runFrom (t.base.apply t.environment.now (t.hookOf direct) key cells) t.indexes =
        (.error error, indexes) ∧
      runFrom (IndexedTable.apply key cells direct token) t =
        (.error (.failed error), { t with indexes })) ∨
    (∃ base indexes,
      runFrom (t.base.apply t.environment.now (t.hookOf direct) key cells) t.indexes =
        (.ok base, indexes) ∧
      runFrom (IndexedTable.apply key cells direct token) t =
        (.ok (), { t with base, indexes })) := by
  unfold IndexedTable.apply
  rw [runFrom_bind]
  rcases requireToken_cases token t with htoken | htoken
  · rw [htoken]
    simp only [runFrom_bind, runFrom_get, run_eq_runFrom]
    rcases hrun : runFrom (t.base.apply t.environment.now (t.hookOf direct) key cells) t.indexes
      with ⟨error | base, indexes⟩
    · refine .inr (.inl ⟨error, indexes, rfl, ?_⟩)
      unfold hookOf at hrun
      simp only [hrun, runFrom_set, runFrom_failed]
      rfl
    · refine .inr (.inr ⟨base, indexes, rfl, ?_⟩)
      unfold hookOf at hrun
      simp only [hrun, runFrom_set, runFrom_failed]
      rfl
  · rw [htoken]
    exact .inl ⟨_, rfl⟩

/-! ### Work on one index -/

/-- **Work on one index**: the index or the token is not there and nothing happens, or the index
becomes what the work makes of it. -/
theorem onIndex_cases (t : IndexedTable) (column : String) (token : Option String)
    (work : Upkeep α) :
    (∃ e, runFrom (onIndex column token work) t = (.error e, t)) ∨
    ∃ k journal, t.index? column = some k ∧
      (runFrom (onIndex column token work) t).2 =
        { t.setIndex column { (runFrom work { k with journal := [] }).2 with journal := [] } with
          indexes := (t.setIndex column
            { (runFrom work { k with journal := [] }).2 with journal := [] }).indexes.note
              journal } := by
  unfold onIndex
  rw [runFrom_bind, runFrom_requireIndex]
  cases hk : t.index? column with
  | none => exact .inl ⟨_, rfl⟩
  | some k =>
    simp only [runFrom_bind]
    rcases requireToken_cases token t with htoken | htoken
    · rw [htoken]
      exact .inr ⟨k, _, rfl, by simp only [runFrom_modify, runFrom_failed]; rfl⟩
    · rw [htoken]
      exact .inl ⟨_, rfl⟩

end IndexedTable

end WideColumn
