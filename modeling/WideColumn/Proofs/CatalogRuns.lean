import WideColumn.Catalog
import WideColumn.Proofs.Effects
import WideColumn.Proofs.SchemaChanges
import WideColumn.Proofs.SortedBindings

/-!
# Runs of requests to a catalog

Keyspaces and tables come, change and go.  A request that is refused leaves the catalog as it was.

* `createKeyspace_ok`, `dropKeyspace_ok`, `createTable_ok`, `alterTable_ok`, `dropTable_ok` — what
  the operations of a catalog give when they succeed;
* `Request`, `perform` and `performAll` — the requests, and a run of them;
* `Step` and `step_of_perform` — **all that a successful request can do**;
* `Keyed` and `Keyed.performAll` — **keyspaces and tables stand in order under their names**;
* `tables_performAll` — what holds of compiled tables and is kept by changes **holds of all tables
  of a run**.
-/

namespace WideColumn

open Effects

namespace Catalog

variable {c c' : Catalog}

/-! ### Operations -/

theorem requireKeyspace_eq_ok_iff {name : String} {k : Keyspace} :
    c.requireKeyspace name = .ok k ↔ c.keyspace? name = some k := by
  unfold requireKeyspace
  cases c.keyspace? name <;> simp

theorem table_eq_ok_iff {keyspace name : String} {s : TableSchema} :
    c.table keyspace name = .ok s ↔
      ∃ k, c.keyspace? keyspace = some k ∧ k.tables.find? name = some s := by
  unfold table
  rw [except_bind_eq_ok]
  simp only [requireKeyspace_eq_ok_iff]
  refine exists_congr fun k => and_congr_right fun _ => ?_
  cases k.tables.find? name with
  | none => exact ⟨nofun, nofun⟩
  | some found => exact ⟨fun h => by cases h; rfl, fun h => by cases h; rfl⟩

theorem createKeyspace_ok {name : String} {durable : Bool}
    (h : c.createKeyspace name durable = .ok c') :
    Naming.checkName name = .ok () ∧ c.keyspace? name = none ∧
      c' = c.withKeyspace name ⟨name, durable, []⟩ := by
  obtain ⟨⟨⟩, hname, h⟩ := except_bind_eq_ok.1 h
  obtain ⟨hfresh, h⟩ := ite_throw_eq_ok.1 h
  cases h
  exact ⟨hname, by simpa using hfresh, rfl⟩

theorem dropKeyspace_ok {name : String} {k : Keyspace} (h : c.dropKeyspace name = .ok (c', k)) :
    c.keyspace? name = some k ∧ c' = { c with keyspaces := c.keyspaces.erase name } := by
  obtain ⟨k', hk, h⟩ := except_bind_eq_ok.1 h
  cases h
  exact ⟨requireKeyspace_eq_ok_iff.1 hk, rfl⟩

/-- A table is new, or it is there already and this is what was asked for. -/
theorem createTable_ok {d : TableDefinition} {ifNotExists : Bool} {s : TableSchema}
    (h : c.createTable d ifNotExists = .ok (c', s)) :
    ∃ compiled k, d.compile = .ok compiled ∧ c.keyspace? d.keyspace = some k ∧
      (k.tables.find? d.name = some s ∧ ifNotExists = true ∧ c' = c ∨
        k.tables.find? d.name = none ∧ s = compiled ∧
          c' = c.withKeyspace d.keyspace (k.publish compiled)) := by
  obtain ⟨compiled, hcompile, h⟩ := except_bind_eq_ok.1 h
  obtain ⟨k, hk, h⟩ := except_bind_eq_ok.1 h
  refine ⟨compiled, k, hcompile, requireKeyspace_eq_ok_iff.1 hk, ?_⟩
  split at h
  · rename_i existing hfound
    split at h
    · rename_i hasked
      cases h
      exact .inl ⟨hfound, hasked, rfl⟩
    · cases h
  · rename_i hfresh
    cases h
    exact .inr ⟨hfresh, rfl, rfl⟩

/-- An altered table keeps its name and its keyspace. -/
theorem alterTable_ok {keyspace name : String}
    {alter : TableSchema → Except SchemaError TableSchema} {next : TableSchema}
    (h : c.alterTable keyspace name alter = .ok (c', next)) :
    ∃ k s, c.keyspace? keyspace = some k ∧ k.tables.find? name = some s ∧ alter s = .ok next ∧
      next.name = name ∧ next.keyspace = keyspace ∧
      c' = c.withKeyspace keyspace (k.publish next) := by
  obtain ⟨k, hk, h⟩ := except_bind_eq_ok.1 h
  obtain ⟨s, hs, h⟩ := except_bind_eq_ok.1 h
  obtain ⟨next', halter, h⟩ := except_bind_eq_ok.1 h
  obtain ⟨hsame, h⟩ := ite_throw_eq_ok.1 h
  cases h
  obtain ⟨hname, hkeyspace⟩ : next.name = name ∧ next.keyspace = keyspace := by
    simpa using hsame
  obtain ⟨k', hk', hs⟩ := table_eq_ok_iff.1 hs
  rw [requireKeyspace_eq_ok_iff.1 hk] at hk'
  cases hk'
  exact ⟨k, s, requireKeyspace_eq_ok_iff.1 hk, hs, halter, hname, hkeyspace, rfl⟩

theorem dropTable_ok {keyspace name : String} {s : TableSchema}
    (h : c.dropTable keyspace name = .ok (c', s)) :
    ∃ k, c.keyspace? keyspace = some k ∧ k.tables.find? name = some s ∧
      c' = c.withKeyspace keyspace { k with tables := k.tables.erase name } := by
  obtain ⟨k, hk, h⟩ := except_bind_eq_ok.1 h
  obtain ⟨s', hs, h⟩ := except_bind_eq_ok.1 h
  cases h
  obtain ⟨k', hk', hs⟩ := table_eq_ok_iff.1 hs
  rw [requireKeyspace_eq_ok_iff.1 hk] at hk'
  cases hk'
  exact ⟨k, requireKeyspace_eq_ok_iff.1 hk, hs, rfl⟩

/-! ### Requests -/

/-- What can be asked of a catalog.  A table is altered by changes, one after the other. -/
inductive Request where
  | createKeyspace (name : String) (durable : Bool)
  | dropKeyspace (name : String)
  | createTable (d : TableDefinition) (ifNotExists : Bool)
  | alterTable (keyspace name : String) (changes : List SchemaChange)
  | dropTable (keyspace name : String)
deriving DecidableEq, Repr

/-- The catalog after a request. -/
def perform (c : Catalog) : Request → Except SchemaError Catalog
  | .createKeyspace name durable => c.createKeyspace name durable
  | .dropKeyspace name => (c.dropKeyspace name).map Prod.fst
  | .createTable d ifNotExists => (c.createTable d ifNotExists).map Prod.fst
  | .alterTable keyspace name changes =>
    (c.alterTable keyspace name (·.changeAll changes)).map Prod.fst
  | .dropTable keyspace name => (c.dropTable keyspace name).map Prod.fst

/-- The catalog after a request that may have been refused. -/
def attempt (c : Catalog) (r : Request) : Catalog :=
  match c.perform r with
  | .ok c' => c'
  | .error _ => c

/-- The catalog after a run of requests. -/
def performAll (c : Catalog) (requests : List Request) : Catalog := requests.foldl attempt c

/-- What a successful request does. -/
inductive Step (c : Catalog) : Request → Catalog → Prop
  | createKeyspace {name : String} {durable : Bool} (hname : Naming.checkName name = .ok ())
      (hfresh : c.keyspace? name = none) :
      Step c (.createKeyspace name durable) (c.withKeyspace name ⟨name, durable, []⟩)
  | dropKeyspace {name : String} {k : Keyspace} (hk : c.keyspace? name = some k) :
      Step c (.dropKeyspace name) { c with keyspaces := c.keyspaces.erase name }
  | keepTable {d : TableDefinition} {s : TableSchema} (hcompile : d.compile = .ok s) :
      Step c (.createTable d true) c
  | createTable {d : TableDefinition} {ifNotExists : Bool} {k : Keyspace} {s : TableSchema}
      (hcompile : d.compile = .ok s) (hk : c.keyspace? d.keyspace = some k)
      (hfresh : k.tables.find? d.name = none) :
      Step c (.createTable d ifNotExists) (c.withKeyspace d.keyspace (k.publish s))
  | alterTable {keyspace name : String} {changes : List SchemaChange} {k : Keyspace}
      {s next : TableSchema} (hk : c.keyspace? keyspace = some k)
      (hs : k.tables.find? name = some s) (halter : s.changeAll changes = .ok next)
      (hname : next.name = name) (hkeyspace : next.keyspace = keyspace) :
      Step c (.alterTable keyspace name changes) (c.withKeyspace keyspace (k.publish next))
  | dropTable {keyspace name : String} {k : Keyspace} {s : TableSchema}
      (hk : c.keyspace? keyspace = some k) (hs : k.tables.find? name = some s) :
      Step c (.dropTable keyspace name)
        (c.withKeyspace keyspace { k with tables := k.tables.erase name })

/-- **All that a successful request can do.** -/
theorem step_of_perform {r : Request} (h : c.perform r = .ok c') : Step c r c' := by
  cases r with
  | createKeyspace name durable =>
    obtain ⟨hname, hfresh, rfl⟩ := createKeyspace_ok h
    exact .createKeyspace hname hfresh
  | dropKeyspace name =>
    obtain ⟨⟨_, k⟩, hdone, rfl⟩ := except_map_eq_ok.1 h
    obtain ⟨hk, rfl⟩ := dropKeyspace_ok hdone
    exact .dropKeyspace hk
  | createTable d ifNotExists =>
    obtain ⟨⟨_, s⟩, hdone, rfl⟩ := except_map_eq_ok.1 h
    obtain ⟨compiled, k, hcompile, hk, ⟨-, rfl, rfl⟩ | ⟨hfresh, rfl, rfl⟩⟩ := createTable_ok hdone
    · exact .keepTable hcompile
    · exact .createTable hcompile hk hfresh
  | alterTable keyspace name changes =>
    obtain ⟨⟨_, next⟩, hdone, rfl⟩ := except_map_eq_ok.1 h
    obtain ⟨k, s, hk, hs, halter, hname, hkeyspace, rfl⟩ := alterTable_ok hdone
    exact .alterTable hk hs halter hname hkeyspace
  | dropTable keyspace name =>
    obtain ⟨⟨_, s⟩, hdone, rfl⟩ := except_map_eq_ok.1 h
    obtain ⟨k, hk, hs, rfl⟩ := dropTable_ok hdone
    exact .dropTable hk hs

/-- A property that every successful request keeps holds after a run. -/
theorem performAll_induction {P : Catalog → Prop} {requests : List Request}
    (hstep : ∀ r ∈ requests, ∀ c c', P c → Step c r c' → P c') (h : P c) :
    P (c.performAll requests) := by
  induction requests generalizing c with
  | nil => exact h
  | cons r rest ih =>
    obtain ⟨hr, hrest⟩ := List.forall_mem_cons.1 hstep
    have hnext : P (c.attempt r) := by
      unfold attempt
      split
      · rename_i c' hperform
        exact hr c c' h (step_of_perform hperform)
      · exact h
    exact ih hrest hnext

/-! ### Names and order -/

end Catalog

/-- The tables of the keyspace stand in order under their names, and it has a valid name itself. -/
structure Keyspace.Keyed (k : Keyspace) : Prop where
  name : Naming.checkName k.name = .ok ()
  sorted : k.tables.Sorted
  tables : ∀ b ∈ k.tables, b.2.name = b.1

/-- A published table stands under its name. -/
theorem Keyspace.Keyed.publish {k : Keyspace} (h : k.Keyed) (s : TableSchema) :
    (k.publish s).Keyed := by
  refine ⟨h.name, Bindings.insert_sorted _ _ h.sorted, fun b hb => ?_⟩
  rcases Bindings.eq_or_mem_of_mem_insert hb with rfl | hb
  · rfl
  · exact h.tables b hb

theorem Keyspace.Keyed.erase {k : Keyspace} (h : k.Keyed) (name : String) :
    Keyed { k with tables := k.tables.erase name } :=
  ⟨h.name, Bindings.erase_sorted _ h.sorted, fun b hb => h.tables b (List.mem_of_mem_filter hb)⟩

theorem Keyspace.keyed_new {name : String} (h : Naming.checkName name = .ok ()) (durable : Bool) :
    Keyed ⟨name, durable, []⟩ :=
  ⟨h, List.Pairwise.nil, fun _ hb => absurd hb List.not_mem_nil⟩

namespace Catalog

variable {c c' : Catalog}

/-- The keyspaces stand in order under their names. -/
structure Keyed (c : Catalog) : Prop where
  sorted : c.keyspaces.Sorted
  keyspaces : ∀ b ∈ c.keyspaces, b.2.name = b.1 ∧ b.2.Keyed

theorem keyed_empty : Keyed empty :=
  ⟨List.Pairwise.nil, fun _ hb => absurd hb List.not_mem_nil⟩

namespace Keyed

theorem of_keyspace? (h : c.Keyed) {name : String} {k : Keyspace} (hk : c.keyspace? name = some k) :
    k.name = name ∧ k.Keyed :=
  h.keyspaces (name, k) (Bindings.mem_of_find? hk)

theorem withKeyspace (h : c.Keyed) {name : String} {k : Keyspace} (hname : k.name = name)
    (hk : k.Keyed) : (c.withKeyspace name k).Keyed := by
  refine ⟨Bindings.insert_sorted _ _ h.sorted, fun b hb => ?_⟩
  rcases Bindings.eq_or_mem_of_mem_insert hb with rfl | hb
  · exact ⟨hname, hk⟩
  · exact h.keyspaces b hb

theorem step (h : c.Keyed) {r : Request} (hstep : Step c r c') : c'.Keyed := by
  cases hstep with
  | createKeyspace hname => exact h.withKeyspace rfl (Keyspace.keyed_new hname _)
  | dropKeyspace =>
    exact ⟨Bindings.erase_sorted _ h.sorted, fun b hb => h.keyspaces b (List.mem_of_mem_filter hb)⟩
  | keepTable => exact h
  | createTable hcompile hk =>
    obtain ⟨hname, hkeyed⟩ := h.of_keyspace? hk
    exact h.withKeyspace hname (hkeyed.publish _)
  | alterTable hk =>
    obtain ⟨hname, hkeyed⟩ := h.of_keyspace? hk
    exact h.withKeyspace hname (hkeyed.publish _)
  | dropTable hk =>
    obtain ⟨hname, hkeyed⟩ := h.of_keyspace? hk
    exact h.withKeyspace hname (hkeyed.erase _)

/-- **Keyspaces and tables stand in order under their names**, after every run. -/
theorem performAll (h : c.Keyed) (requests : List Request) : (c.performAll requests).Keyed :=
  performAll_induction (fun _ _ _ _ hkeyed hstep => hkeyed.step hstep) h

end Keyed

/-! ### Tables of a run -/

/-- All tables, whatever their keyspaces. -/
def tables (c : Catalog) : List TableSchema := c.keyspaces.values.flatMap (·.tables.values)

theorem mem_tables {s : TableSchema} :
    s ∈ c.tables ↔ ∃ b ∈ c.keyspaces, ∃ b' ∈ b.2.tables, b'.2 = s := by
  simp only [tables, Bindings.values, List.mem_flatMap, List.mem_map, exists_exists_and_eq_and]

theorem not_mem_tables_empty {s : TableSchema} : s ∉ empty.tables := List.not_mem_nil

theorem mem_tables_of_find? {keyspace name : String} {k : Keyspace} {s : TableSchema}
    (hk : c.keyspace? keyspace = some k) (hs : k.tables.find? name = some s) : s ∈ c.tables :=
  mem_tables.2 ⟨(keyspace, k), Bindings.mem_of_find? hk, (name, s), Bindings.mem_of_find? hs, rfl⟩

/-- The tables of a keyspace that is put in place, and others that were there. -/
theorem mem_tables_withKeyspace {name : String} {k : Keyspace} {s : TableSchema}
    (h : s ∈ (c.withKeyspace name k).tables) : (∃ b ∈ k.tables, b.2 = s) ∨ s ∈ c.tables := by
  obtain ⟨b, hb, htable⟩ := mem_tables.1 h
  rcases Bindings.eq_or_mem_of_mem_insert hb with rfl | hb
  · exact .inl htable
  · exact .inr (mem_tables.2 ⟨b, hb, htable⟩)

theorem mem_tables_publish {name : String} {k : Keyspace} {s s' : TableSchema}
    (hk : c.keyspace? name = some k) (h : s' ∈ (c.withKeyspace name (k.publish s)).tables) :
    s' = s ∨ s' ∈ c.tables := by
  rcases mem_tables_withKeyspace h with ⟨b, hb, rfl⟩ | h
  · rcases Bindings.eq_or_mem_of_mem_insert hb with rfl | hb
    · exact .inl rfl
    · exact .inr (mem_tables.2 ⟨(name, k), Bindings.mem_of_find? hk, b, hb, rfl⟩)
  · exact .inr h

/-- A table after a step was there, or it was compiled, or it was altered. -/
theorem mem_tables_of_step {r : Request} (hstep : Step c r c') {s : TableSchema}
    (h : s ∈ c'.tables) :
    s ∈ c.tables ∨ (∃ d ifNotExists, r = .createTable d ifNotExists ∧ d.compile = .ok s) ∨
      ∃ keyspace name changes, r = .alterTable keyspace name changes ∧
        ∃ s' ∈ c.tables, s'.changeAll changes = .ok s := by
  cases hstep with
  | createKeyspace =>
    rcases mem_tables_withKeyspace h with ⟨b, hb, -⟩ | h
    · exact absurd hb List.not_mem_nil
    · exact .inl h
  | dropKeyspace =>
    obtain ⟨b, hb, htable⟩ := mem_tables.1 h
    exact .inl (mem_tables.2 ⟨b, List.mem_of_mem_filter hb, htable⟩)
  | keepTable => exact .inl h
  | createTable hcompile hk =>
    rcases mem_tables_publish hk h with rfl | h
    · exact .inr (.inl ⟨_, _, rfl, hcompile⟩)
    · exact .inl h
  | alterTable hk hs halter =>
    rcases mem_tables_publish hk h with rfl | h
    · exact .inr (.inr ⟨_, _, _, rfl, _, mem_tables_of_find? hk hs, halter⟩)
    · exact .inl h
  | dropTable hk =>
    rcases mem_tables_withKeyspace h with ⟨b, hb, rfl⟩ | h
    · exact .inl (mem_tables.2 ⟨_, Bindings.mem_of_find? hk, b, List.mem_of_mem_filter hb, rfl⟩)
    · exact .inl h

/-- **What holds of all tables of a run**: it holds of what the definitions are compiled to, and
the changes keep it. -/
theorem tables_performAll {P : TableSchema → Prop} {requests : List Request}
    (hcompile : ∀ d ifNotExists, .createTable d ifNotExists ∈ requests →
      ∀ s, d.compile = .ok s → P s)
    (hchange : ∀ keyspace name changes, .alterTable keyspace name changes ∈ requests →
      ∀ change ∈ changes, ∀ s s', P s → s.change change = .ok s' → P s')
    (h : ∀ s ∈ c.tables, P s) : ∀ s ∈ (c.performAll requests).tables, P s := by
  refine performAll_induction (P := fun c => ∀ s ∈ c.tables, P s) ?_ h
  intro r hr c c' htables hstep s hs
  rcases mem_tables_of_step hstep hs with hs | ⟨d, ifNotExists, rfl, hs⟩ |
    ⟨keyspace, name, changes, rfl, previous, hprevious, hs⟩
  · exact htables s hs
  · exact hcompile d ifNotExists hr s hs
  · exact TableSchema.changeAll_induction (hchange keyspace name changes hr)
      (htables previous hprevious) hs

end Catalog

end WideColumn
