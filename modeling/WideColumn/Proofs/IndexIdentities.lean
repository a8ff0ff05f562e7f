import Mathlib.Data.List.Induction
import WideColumn.Proofs.Deployments
import WideColumn.Proofs.SortedBindings

/-!
# Names of index tables

Indexes are registered by column, while the table of an index is named by the name of the index,
which is the column only if no other name was given.  So a column cannot have two indexes, but two
indexes can have one table name.

* `SecondaryIndex.id_eq` — the name of an index table, from that of the base table;
* `IndexSet.Registered`, `IndexSet.Registered.serveAll` — **what is registered after any requests**
  is what was made for its column;
* `IndexSet.names_serve_nodup` — what a request does to the names;
* `IndexSet.ids_distinct_iff` — **when index tables have different names**: at the end of a run, and
  throughout it.
-/

namespace WideColumn

open Effects

/-! ### The name of one index table -/

namespace SecondaryIndex

variable {base : TableSchema} {column : String} {indexName : Option String} {x : SecondaryIndex}

theorem name_of_ofColumn (h : ofColumn base column indexName = .ok x) :
    x.name = indexName.getD column := by
  obtain ⟨target, c, -, rfl⟩ := ofColumn_parts h
  rfl

theorem indexName_of_ofColumn (h : ofColumn base column indexName = .ok x) :
    x.indexName = indexName := by
  obtain ⟨target, c, -, rfl⟩ := ofColumn_parts h
  rfl

/-- The table of an index is named like the base table, with the name of the index. -/
theorem id_eq (h : ofColumn base column indexName = .ok x) : x.id = base.id ++ "." ++ x.name := by
  obtain ⟨target, c, -, rfl⟩ := ofColumn_parts h
  show base.keyspace ++ "." ++ (base.name ++ "." ++ indexName.getD column) = _
  simp only [TableSchema.id, String.append_assoc]
  rfl

end SecondaryIndex

theorem id_injective (base : TableSchema) :
    Function.Injective fun name : String => base.id ++ "." ++ name :=
  fun _ _ h => (String.append_right_inj _).1 h

/-! ### Requests -/

/-- A request to a set of indexes of one table. -/
inductive RegistryRequest where
  | add (column : String) (indexName : Option String)
  | drop (column : String)
deriving DecidableEq, Repr

namespace IndexSet

/-- Does what is requested, if it can be done. -/
def request (base : TableSchema) (s : IndexSet) : RegistryRequest → Except EngineError IndexSet
  | .add column indexName => do s.add (← SecondaryIndex.ofColumn base column indexName)
  | .drop column => (s.drop column).map Prod.snd

/-- Serves a request; a refused one changes nothing. -/
def serve (base : TableSchema) (s : IndexSet) (r : RegistryRequest) : IndexSet :=
  match s.request base r with
  | .ok s' => s'
  | .error _ => s

/-- Serves several requests. -/
def serveAll (base : TableSchema) (s : IndexSet) (requests : List RegistryRequest) : IndexSet :=
  requests.foldl (serve base) s

/-- The names of the indexes, in the order of their columns. -/
def names (s : IndexSet) : List String := s.members.values.map (·.index.name)

/-- The names of the index tables, in the order of their columns. -/
def ids (s : IndexSet) : List String := s.members.values.map (·.index.id)

variable {base : TableSchema} {s s' : IndexSet}

/-- A set in which each index was made for the column that it is registered for. -/
def Registered (base : TableSchema) (s : IndexSet) : Prop :=
  ∀ m ∈ s.members, SecondaryIndex.ofColumn base m.1 m.2.index.indexName = .ok m.2.index

theorem add_eq_ok {x : SecondaryIndex} :
    s.add x = .ok s' ↔ s.members.find? x.column = none ∧
      s' = { s with members := s.members.insert x.column (.ofIndex x) } := by
  unfold add Bindings.contains
  rw [ite_error_eq_ok, Bool.not_eq_true, Option.isSome_eq_false_iff, Option.isNone_iff_eq_none]
  exact and_congr_right fun _ => ⟨fun h => (Except.ok.inj h).symm, fun h => h ▸ rfl⟩

theorem drop_eq_ok {column : String} {k : KeptIndex} :
    s.drop column = .ok (k, s') ↔ ∃ k₀, s.members.find? column = some k₀ ∧ k = k₀.retire ∧
      s' = { s with members := s.members.erase column } := by
  unfold drop
  cases s.members.find? column with
  | none => exact ⟨nofun, fun ⟨_, h, _⟩ => nomatch h⟩
  | some k₀ =>
    constructor
    · intro h
      cases h
      exact ⟨k₀, rfl, rfl, rfl⟩
    · rintro ⟨_, h, rfl, rfl⟩
      cases h
      rfl

/-- What an accepted request does. -/
theorem request_cases {r : RegistryRequest} (h : s.request base r = .ok s') :
    (∃ column indexName x, r = .add column indexName ∧
      SecondaryIndex.ofColumn base column indexName = .ok x ∧ s.members.find? column = none ∧
      s' = { s with members := s.members.insert column (.ofIndex x) }) ∨
    ∃ column, r = .drop column ∧ s' = { s with members := s.members.erase column } := by
  cases r with
  | add column indexName =>
    obtain ⟨x, hx, hadd⟩ := except_bind_eq_ok.1 h
    have hcolumn : x.column = column := (SecondaryIndex.ofColumn_ok hx).2.1
    obtain ⟨hfree, rfl⟩ := add_eq_ok.1 hadd
    rw [hcolumn] at hfree ⊢
    exact .inl ⟨column, indexName, x, rfl, hx, hfree, rfl⟩
  | drop column =>
    obtain ⟨⟨k, s₁⟩, hdrop, rfl⟩ := except_map_eq_ok.1 h
    obtain ⟨k₀, -, -, rfl⟩ := drop_eq_ok.1 hdrop
    exact .inr ⟨column, rfl, rfl⟩

theorem Registered.request {r : RegistryRequest} (h : s.Registered base)
    (hr : s.request base r = .ok s') : s'.Registered base := by
  rcases request_cases hr with ⟨column, indexName, x, -, hx, -, rfl⟩ | ⟨column, -, rfl⟩
  · intro m hm
    rcases Bindings.eq_or_mem_of_mem_insert hm with rfl | hm
    · show SecondaryIndex.ofColumn base column x.indexName = .ok x
      rw [SecondaryIndex.indexName_of_ofColumn hx]
      exact hx
    · exact h m hm
  · exact fun m hm => h m (List.mem_of_mem_filter hm)

theorem Registered.serve (h : s.Registered base) (r : RegistryRequest) :
    (s.serve base r).Registered base := by
  unfold IndexSet.serve
  split
  · rename_i hr
    exact h.request hr
  · exact h

/-- **What is registered after any requests** was made for its column. -/
theorem Registered.serveAll (h : s.Registered base) (requests : List RegistryRequest) :
    (s.serveAll base requests).Registered base := by
  induction requests generalizing s with
  | nil => exact h
  | cons r rest ih => exact ih (h.serve r)

theorem registered_empty (base : TableSchema) : ({} : IndexSet).Registered base :=
  fun _ hm => absurd hm List.not_mem_nil

/-! ### Names among each other -/

/-- The table names are those of the indexes, behind the name of the base table. -/
theorem Registered.ids_eq (h : s.Registered base) :
    s.ids = s.names.map fun name => base.id ++ "." ++ name := by
  unfold ids names Bindings.values
  simp only [List.map_map]
  exact List.map_congr_left fun m hm => SecondaryIndex.id_eq (h m hm)

theorem Registered.ids_nodup (h : s.Registered base) : s.ids.Nodup ↔ s.names.Nodup := by
  rw [h.ids_eq]
  exact List.nodup_map_iff (id_injective base)

/-- A new index adds its name. -/
theorem names_insert {column : String} (k : KeptIndex)
    (hfree : s.members.find? column = none) :
    List.Perm { s with members := s.members.insert column k }.names (k.index.name :: s.names) :=
  ((Bindings.insert_perm hfree k).map Prod.snd).map fun k : KeptIndex => k.index.name

/-- Where an index is dropped, no name comes in. -/
theorem names_erase (s : IndexSet) (column : String) :
    List.Sublist { s with members := s.members.erase column }.names s.names :=
  (List.filter_sublist.map Prod.snd).map fun k : KeptIndex => k.index.name

/-- Does an accepted request bring a name that no index has? -/
def TakesNewName (base : TableSchema) (s : IndexSet) (r : RegistryRequest) : Prop :=
  ∀ column indexName s', r = .add column indexName → s.request base r = .ok s' →
    indexName.getD column ∉ s.names

/-- Names stay different as long as new ones come in. -/
theorem names_serve_nodup (h : s.names.Nodup) (r : RegistryRequest) :
    (s.serve base r).names.Nodup ↔ s.TakesNewName base r := by
  unfold serve
  cases hr : s.request base r with
  | error e =>
    refine ⟨fun _ column indexName s' _ hok => ?_, fun _ => h⟩
    rw [hr] at hok
    cases hok
  | ok s' =>
    rcases request_cases hr with ⟨column, indexName, x, rfl, hx, hfree, rfl⟩ | ⟨column, rfl, rfl⟩
    · have hname : (KeptIndex.ofIndex x).index.name = indexName.getD column :=
        SecondaryIndex.name_of_ofColumn hx
      have hperm := names_insert (.ofIndex x) hfree
      rw [hname] at hperm
      simp only
      rw [hperm.nodup_iff, List.nodup_cons]
      constructor
      · intro hnames _ _ _ hadd _
        cases hadd
        exact hnames.1
      · exact fun hnew => ⟨hnew _ _ _ rfl hr, h⟩
    · exact ⟨fun _ _ _ _ hadd => (nomatch hadd), fun _ => (names_erase s column).nodup h⟩

/-- The indexes after requests to a table that had none. -/
def after (base : TableSchema) (requests : List RegistryRequest) : IndexSet :=
  ({} : IndexSet).serveAll base requests

theorem after_append_one (base : TableSchema) (requests : List RegistryRequest)
    (r : RegistryRequest) :
    after base (requests ++ [r]) = (after base requests).serve base r := by
  unfold after serveAll
  rw [List.foldl_append]
  rfl

theorem registered_after (base : TableSchema) (requests : List RegistryRequest) :
    (after base requests).Registered base :=
  (registered_empty base).serveAll requests

/-- Names are different throughout a run if every accepted addition in it brings a new one. -/
theorem names_nodup_throughout_iff (base : TableSchema) (requests : List RegistryRequest) :
    (∀ before rest, requests = before ++ rest → (after base before).names.Nodup) ↔
      ∀ before r rest, requests = before ++ r :: rest →
        (after base before).TakesNewName base r := by
  constructor
  · intro h before r rest hsplit
    have hnow := h before (r :: rest) hsplit
    have hthen := h (before ++ [r]) rest (by rw [hsplit, List.append_assoc]; rfl)
    rw [after_append_one] at hthen
    exact (names_serve_nodup hnow r).1 hthen
  · intro h before
    induction before using List.reverseRecOn with
    | nil => exact fun _ _ => List.nodup_nil
    | append_singleton before r ih =>
      intro rest hsplit
      rw [List.append_assoc] at hsplit
      rw [after_append_one]
      exact (names_serve_nodup (ih _ hsplit) r).2 (h before r rest hsplit)

/-- Two indexes have one table name if they were given the same name, or if one was given the
name of the other's column and the other no name. -/
theorem Registered.id_eq_iff (h : s.Registered base) {column column' : String}
    {k k' : KeptIndex} (hk : s.members.find? column = some k)
    (hk' : s.members.find? column' = some k') (hne : column ≠ column') :
    k.index.id = k'.index.id ↔
      (∃ name, k.index.indexName = some name ∧ k'.index.indexName = some name) ∨
      (k.index.indexName = some column' ∧ k'.index.indexName = none) ∨
      (k.index.indexName = none ∧ k'.index.indexName = some column) := by
  have hmade := h _ (Bindings.mem_of_find? hk)
  have hmade' := h _ (Bindings.mem_of_find? hk')
  rw [SecondaryIndex.id_eq hmade, SecondaryIndex.id_eq hmade', (id_injective base).eq_iff,
    SecondaryIndex.name_of_ofColumn hmade, SecondaryIndex.name_of_ofColumn hmade']
  cases k.index.indexName <;> cases k'.index.indexName
  case none.none => simpa using hne
  case none.some name => simp [eq_comm]
  case some.none name => simp
  case some.some name name' => simp [eq_comm]

/-- **When index tables have different names.**  After any requests they do if the indexes have;
two of them do not if their indexes were given one name, or one index the column of another that
was given none; and they do throughout if every addition brings a new name. -/
theorem ids_distinct_iff (base : TableSchema) (requests : List RegistryRequest) :
    ((after base requests).ids.Nodup ↔ (after base requests).names.Nodup) ∧
    (∀ column column' k k', (after base requests).members.find? column = some k →
      (after base requests).members.find? column' = some k' → column ≠ column' →
      (k.index.id = k'.index.id ↔
        (∃ name, k.index.indexName = some name ∧ k'.index.indexName = some name) ∨
        (k.index.indexName = some column' ∧ k'.index.indexName = none) ∨
        (k.index.indexName = none ∧ k'.index.indexName = some column))) ∧
    ((∀ before rest, requests = before ++ rest → (after base before).ids.Nodup) ↔
      ∀ before r rest, requests = before ++ r :: rest →
        (after base before).TakesNewName base r) := by
  refine ⟨(registered_after base requests).ids_nodup,
    fun _ _ _ _ hk hk' hne => (registered_after base requests).id_eq_iff hk hk' hne, ?_⟩
  rw [← names_nodup_throughout_iff]
  simp only [(registered_after base _).ids_nodup]

/-- An index on the levels of the readings can be named like their notes, whose own index has that
name by default. -/
theorem ids_clash_levels_notes :
    (after readings [.add "level" (some "note"), .add "note" none]).ids =
        ["rivers.readings.note", "rivers.readings.note"] ∧
      ¬(after readings [.add "level" (some "note"), .add "note" none]).ids.Nodup := by
  decide

end IndexSet

end WideColumn
