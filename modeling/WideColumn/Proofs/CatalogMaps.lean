import WideColumn.Proofs.CatalogRuns
import WideColumn.Proofs.CompiledTables

/-!
# A catalog is a map of names

A table is stored with its name in its keyspace, but a user sees one map: a keyspace and a name give
a table.  Every operation on a catalog does to this map what it should, also when a table is altered
by a function that fails or gives a table of another name, and a refused one does nothing.

* `Operation` and `Catalog.serve` — what can be done to a catalog, and its answer;
* `NamedTables` and `NamedTables.serve` — the map, and what the operations do to it;
* `Catalog.named_serve` — **the operations of a catalog are those of its map**, errors included;
* `Catalog.Changed` and `Catalog.changed_of_serve` — **all that a successful operation changes**;
* `Catalog.Filed` — every table has the name and the keyspace that it stands under;
* `Catalog.runs_like_map` — **all of this after every run** that begins without keyspaces.
-/

namespace WideColumn

open Effects

/-! ### Operations -/

/-- What can be done to a catalog.  A table is altered by any function, which may fail or give any
table. -/
inductive Operation where
  | createKeyspace (name : String) (durable : Bool)
  | dropKeyspace (name : String)
  | createTable (d : TableDefinition) (ifNotExists : Bool)
  | alterTable (keyspace name : String) (alter : TableSchema → Except SchemaError TableSchema)
  | dropTable (keyspace name : String)

namespace Operation

/-- The keyspace that an operation is about. -/
def keyspace : Operation → String
  | createKeyspace name _ | dropKeyspace name => name
  | createTable d _ => d.keyspace
  | alterTable keyspace _ _ | dropTable keyspace _ => keyspace

/-- The table that an operation is about, unless it is about a keyspace as a whole. -/
def table? : Operation → Option String
  | createKeyspace .. | dropKeyspace _ => none
  | createTable d _ => some d.name
  | alterTable _ name _ | dropTable _ name => some name

end Operation

/-- The state after an operation with this outcome: the old one if it was refused. -/
def stateAfter {σ : Type} (old : σ) : Except SchemaError (σ × Option TableSchema) → σ
  | .ok (new, _) => new
  | .error _ => old

/-- Does an operation, and answers the table that is there now or that was removed. -/
def Catalog.serve (c : Catalog) :
    Operation → Except SchemaError (Catalog × Option TableSchema)
  | .createKeyspace name durable => (c.createKeyspace name durable).map fun c' => (c', none)
  | .dropKeyspace name => (c.dropKeyspace name).map fun (c', _) => (c', none)
  | .createTable d ifNotExists => (c.createTable d ifNotExists).map fun (c', s) => (c', some s)
  | .alterTable keyspace name alter =>
    (c.alterTable keyspace name alter).map fun (c', s) => (c', some s)
  | .dropTable keyspace name => (c.dropTable keyspace name).map fun (c', s) => (c', some s)

/-- The catalog after a run of operations, of which some may have been refused. -/
def Catalog.run (c : Catalog) (operations : List Operation) : Catalog :=
  operations.foldl (fun c op => stateAfter c (c.serve op)) c

/-! ### The map of names -/

/-- Which keyspaces there are, with whether their writes are durable, and the table of a keyspace
and a name. -/
@[ext] structure NamedTables where
  durable? : String → Option Bool
  table? : String × String → Option TableSchema

namespace NamedTables

/-- Nothing. -/
def empty : NamedTables := ⟨fun _ => none, fun _ => none⟩

/-- Puts a keyspace without tables under a name, or nothing. -/
def withKeyspace (m : NamedTables) (name : String) (durable? : Option Bool) : NamedTables where
  durable? other := if other = name then durable? else m.durable? other
  table? address := if address.1 = name then none else m.table? address

/-- Puts a table under an address, or nothing. -/
def withTable (m : NamedTables) (address : String × String) (s? : Option TableSchema) :
    NamedTables :=
  { m with table? := fun other => if other = address then s? else m.table? other }

/-- Is there a keyspace? -/
def requireKeyspace (m : NamedTables) (name : String) : Except SchemaError Unit :=
  if (m.durable? name).isSome then .ok () else .error (.keyspaceNotFound name)

/-- The table under an address, which must exist. -/
def requireTable (m : NamedTables) (keyspace name : String) : Except SchemaError TableSchema := do
  m.requireKeyspace keyspace
  match m.table? (keyspace, name) with
  | some s => return s
  | none => throw (.tableNotFound (keyspace ++ "." ++ name))

/-- What the operations do to the map. -/
def serve (m : NamedTables) : Operation → Except SchemaError (NamedTables × Option TableSchema)
  | .createKeyspace name durable => do
    Naming.checkName name
    if (m.durable? name).isSome then throw (.keyspaceAlreadyExists name)
    return (m.withKeyspace name (some durable), none)
  | .dropKeyspace name => do
    m.requireKeyspace name
    return (m.withKeyspace name none, none)
  | .createTable d ifNotExists => do
    let s ← d.compile
    m.requireKeyspace s.keyspace
    match m.table? (s.keyspace, s.name) with
    | some existing =>
      if ifNotExists then return (m, some existing) else throw (.tableAlreadyExists s.id)
    | none => return (m.withTable (s.keyspace, s.name) (some s), some s)
  | .alterTable keyspace name alter => do
    let current ← m.requireTable keyspace name
    let next ← alter current
    if (next.keyspace, next.name) ≠ (keyspace, name) then
      throw (.invalidAlteration current.id .identityChange)
    return (m.withTable (keyspace, name) (some next), some next)
  | .dropTable keyspace name => do
    let s ← m.requireTable keyspace name
    return (m.withTable (keyspace, name) none, some s)

/-- The map after a run of operations. -/
def run (m : NamedTables) (operations : List Operation) : NamedTables :=
  operations.foldl (fun m op => stateAfter m (m.serve op)) m

end NamedTables

/-! ### Parts -/

theorem TableDefinition.identity_of_compile {d : TableDefinition} {s : TableSchema}
    (h : d.compile = .ok s) : s.keyspace = d.keyspace ∧ s.name = d.name := by
  obtain ⟨k, layout, default, -, rfl⟩ := compile_ok h
  exact ⟨rfl, rfl⟩

namespace Keyspace

/-- Two keyspaces differ at most in what stands under one name. -/
structure SameBeside (k k' : Keyspace) (name : String) : Prop where
  name_eq : k'.name = k.name
  durableWrites : k'.durableWrites = k.durableWrites
  tables : ∀ other, other ≠ name → k'.tables.find? other = k.tables.find? other

theorem SameBeside.refl (k : Keyspace) (name : String) : SameBeside k k name :=
  ⟨rfl, rfl, fun _ _ => rfl⟩

theorem SameBeside.publish (k : Keyspace) (s : TableSchema) :
    SameBeside k (k.publish s) s.name := by
  refine ⟨rfl, rfl, fun other hother => ?_⟩
  rw [Keyspace.publish, Bindings.find?_insert, if_neg hother]

theorem SameBeside.erase (k : Keyspace) (name : String) :
    SameBeside k { k with tables := k.tables.erase name } name := by
  refine ⟨rfl, rfl, fun other hother => ?_⟩
  rw [Bindings.find?_erase, if_neg hother]

end Keyspace

namespace Catalog

variable {c c' : Catalog}

/-- The map of a catalog. -/
def named (c : Catalog) : NamedTables where
  durable? name := (c.keyspace? name).map (·.durableWrites)
  table? address := (c.keyspace? address.1).bind fun k => k.tables.find? address.2

/-! ### Look-ups -/

theorem keyspace?_withKeyspace (c : Catalog) (name other : String) (k : Keyspace) :
    (c.withKeyspace name k).keyspace? other = if other = name then some k else c.keyspace? other :=
  Bindings.find?_insert name other k c.keyspaces

theorem keyspace?_erase (c : Catalog) (name other : String) :
    keyspace? { c with keyspaces := c.keyspaces.erase name } other =
      if other = name then none else c.keyspace? other :=
  Bindings.find?_erase name other c.keyspaces

theorem requireKeyspace_of_none {name : String} (h : c.keyspace? name = none) :
    c.requireKeyspace name = .error (.keyspaceNotFound name) := by
  rw [requireKeyspace, h]

theorem table_of_keyspace? {keyspace name : String} {k : Keyspace}
    (hk : c.keyspace? keyspace = some k) :
    c.table keyspace name = match k.tables.find? name with
      | some s => .ok s
      | none => .error (.tableNotFound (keyspace ++ "." ++ name)) := by
  rw [table, requireKeyspace_eq_ok_iff.2 hk]
  rfl

theorem table_of_none {keyspace : String} (h : c.keyspace? keyspace = none) (name : String) :
    c.table keyspace name = .error (.keyspaceNotFound keyspace) := by
  rw [table, requireKeyspace_of_none h]
  rfl

theorem named_requireKeyspace (c : Catalog) (name : String) :
    c.named.requireKeyspace name = (c.requireKeyspace name).map fun _ => () := by
  cases hk : c.keyspace? name with
  | none =>
    simp only [NamedTables.requireKeyspace, named, requireKeyspace_of_none hk, hk]
    rfl
  | some k =>
    simp only [NamedTables.requireKeyspace, named, requireKeyspace_eq_ok_iff.2 hk, hk]
    rfl

/-- Both look a table up in the same way. -/
theorem named_requireTable (c : Catalog) (keyspace name : String) :
    c.named.requireTable keyspace name = c.table keyspace name := by
  rw [NamedTables.requireTable, named_requireKeyspace]
  cases hk : c.keyspace? keyspace with
  | none =>
    rw [requireKeyspace_of_none hk, table_of_none hk]
    rfl
  | some k =>
    rw [requireKeyspace_eq_ok_iff.2 hk, table_of_keyspace? hk]
    simp only [named, hk, Option.bind_some]
    rfl

/-! ### The map of a catalog that was changed -/

/-- A keyspace comes, without tables, or it goes. -/
theorem named_withKeyspace {name : String} {durable? : Option Bool}
    (h : ∀ other, c'.keyspace? other =
      if other = name then durable?.map (Keyspace.mk name · []) else c.keyspace? other) :
    c'.named = c.named.withKeyspace name durable? := by
  ext1
  · funext other
    simp only [named, NamedTables.withKeyspace, h]
    split
    · cases durable? <;> rfl
    · rfl
  · funext address
    simp only [named, NamedTables.withKeyspace, h]
    split
    · cases durable? <;> rfl
    · rfl

theorem named_createKeyspace (c : Catalog) (name : String) (durable : Bool) :
    (c.withKeyspace name ⟨name, durable, []⟩).named =
      c.named.withKeyspace name (some durable) :=
  named_withKeyspace fun other => keyspace?_withKeyspace c name other _

theorem named_dropKeyspace (c : Catalog) (name : String) :
    named { c with keyspaces := c.keyspaces.erase name } = c.named.withKeyspace name none :=
  named_withKeyspace fun other => keyspace?_erase c name other

/-- A keyspace in which one table is put, or removed. -/
theorem named_withTable {keyspace name : String} {k k' : Keyspace} {s? : Option TableSchema}
    (hk : c.keyspace? keyspace = some k) (hdurable : k'.durableWrites = k.durableWrites)
    (htables : ∀ other, k'.tables.find? other =
      if other = name then s? else k.tables.find? other) :
    (c.withKeyspace keyspace k').named = c.named.withTable (keyspace, name) s? := by
  ext1
  · funext other
    simp only [named, NamedTables.withTable, keyspace?_withKeyspace]
    by_cases hother : other = keyspace
    · rw [if_pos hother, hother, hk, Option.map_some, Option.map_some, hdurable]
    · rw [if_neg hother]
  · funext ⟨other, otherName⟩
    simp only [named, NamedTables.withTable, keyspace?_withKeyspace, Prod.mk.injEq]
    by_cases hother : other = keyspace
    · simp only [hother, hk, if_true, true_and, Option.bind_some, htables]
    · simp only [hother, if_false, false_and]

theorem named_publish {keyspace : String} {k : Keyspace} (hk : c.keyspace? keyspace = some k)
    (s : TableSchema) :
    (c.withKeyspace keyspace (k.publish s)).named =
      c.named.withTable (keyspace, s.name) (some s) :=
  named_withTable hk rfl fun other => Bindings.find?_insert s.name other s k.tables

theorem named_dropTable {keyspace : String} {k : Keyspace} (hk : c.keyspace? keyspace = some k)
    (name : String) :
    (c.withKeyspace keyspace { k with tables := k.tables.erase name }).named =
      c.named.withTable (keyspace, name) none :=
  named_withTable hk rfl fun other => Bindings.find?_erase name other k.tables

/-! ### Operations on the map -/

/-- An outcome, with the map of the catalog in its place. -/
def seen : Except SchemaError (Catalog × Option TableSchema) →
    Except SchemaError (NamedTables × Option TableSchema)
  | .ok (c, answer) => .ok (c.named, answer)
  | .error e => .error e

theorem named_serve_createKeyspace (c : Catalog) (name : String) (durable : Bool) :
    c.named.serve (.createKeyspace name durable) =
      seen (c.serve (.createKeyspace name durable)) := by
  have hthere : (c.named.durable? name).isSome = (c.keyspace? name).isSome := Option.isSome_map
  simp only [NamedTables.serve, serve, createKeyspace, hthere]
  cases Naming.checkName name with
  | error e => rfl
  | ok =>
    cases c.keyspace? name with
    | some k => rfl
    | none =>
      exact congrArg (fun m => Except.ok (m, none)) (named_createKeyspace c name durable).symm

theorem named_serve_dropKeyspace (c : Catalog) (name : String) :
    c.named.serve (.dropKeyspace name) = seen (c.serve (.dropKeyspace name)) := by
  simp only [NamedTables.serve, serve, dropKeyspace, named_requireKeyspace]
  cases c.requireKeyspace name with
  | error e => rfl
  | ok k => exact congrArg (fun m => Except.ok (m, none)) (named_dropKeyspace c name).symm

theorem named_serve_createTable (c : Catalog) (d : TableDefinition) (ifNotExists : Bool) :
    c.named.serve (.createTable d ifNotExists) = seen (c.serve (.createTable d ifNotExists)) := by
  simp only [NamedTables.serve, serve, createTable, named_requireKeyspace]
  cases hcompile : d.compile with
  | error e => rfl
  | ok s =>
    obtain ⟨hkeyspace, hname⟩ := TableDefinition.identity_of_compile hcompile
    rw [except_ok_bind, except_ok_bind, ← hkeyspace, ← hname]
    cases hk : c.keyspace? s.keyspace with
    | none =>
      rw [requireKeyspace_of_none hk]
      rfl
    | some k =>
      have hthere : c.named.table? (s.keyspace, s.name) = k.tables.find? s.name := by
        simp only [named, hk, Option.bind_some]
      rw [requireKeyspace_eq_ok_iff.2 hk, except_map_ok, except_ok_bind, except_ok_bind, hthere]
      cases k.tables.find? s.name with
      | some existing => cases ifNotExists <;> rfl
      | none => exact congrArg (fun m => Except.ok (m, some s)) (named_publish hk s).symm

theorem named_serve_alterTable (c : Catalog) (keyspace name : String)
    (alter : TableSchema → Except SchemaError TableSchema) :
    c.named.serve (.alterTable keyspace name alter) =
      seen (c.serve (.alterTable keyspace name alter)) := by
  simp only [NamedTables.serve, serve, alterTable, named_requireTable]
  cases hk : c.keyspace? keyspace with
  | none =>
    rw [requireKeyspace_of_none hk, table_of_none hk]
    rfl
  | some k =>
    rw [requireKeyspace_eq_ok_iff.2 hk, except_ok_bind]
    cases c.table keyspace name with
    | error e => rfl
    | ok current =>
      rw [except_ok_bind, except_ok_bind]
      cases alter current with
      | error e => rfl
      | ok next =>
        rw [except_ok_bind, except_ok_bind]
        by_cases hsame : next.name = name ∧ next.keyspace = keyspace
        · obtain ⟨rfl, rfl⟩ := hsame
          rw [if_neg (not_not_intro rfl), if_neg (not_or.2 ⟨not_not_intro rfl, not_not_intro rfl⟩)]
          exact congrArg (fun m => Except.ok (m, some next)) (named_publish hk next).symm
        · have hpair : (next.keyspace, next.name) ≠ (keyspace, name) := fun h =>
            hsame ⟨(Prod.mk.inj h).2, (Prod.mk.inj h).1⟩
          rw [if_pos hpair, if_pos (not_and_or.1 hsame)]
          rfl

theorem named_serve_dropTable (c : Catalog) (keyspace name : String) :
    c.named.serve (.dropTable keyspace name) = seen (c.serve (.dropTable keyspace name)) := by
  simp only [NamedTables.serve, serve, dropTable, named_requireTable]
  cases hk : c.keyspace? keyspace with
  | none =>
    rw [requireKeyspace_of_none hk, table_of_none hk]
    rfl
  | some k =>
    rw [requireKeyspace_eq_ok_iff.2 hk]
    cases c.table keyspace name with
    | error e => rfl
    | ok s => exact congrArg (fun m => Except.ok (m, some s)) (named_dropTable hk name).symm

/-- **The operations of a catalog are those of its map**: they are refused for the same reasons,
and otherwise answer the same table and change the map alike. -/
theorem named_serve (c : Catalog) (op : Operation) : c.named.serve op = seen (c.serve op) := by
  cases op with
  | createKeyspace name durable => exact named_serve_createKeyspace c name durable
  | dropKeyspace name => exact named_serve_dropKeyspace c name
  | createTable d ifNotExists => exact named_serve_createTable c d ifNotExists
  | alterTable keyspace name alter => exact named_serve_alterTable c keyspace name alter
  | dropTable keyspace name => exact named_serve_dropTable c keyspace name

theorem named_run (c : Catalog) (operations : List Operation) :
    (c.run operations).named = c.named.run operations := by
  induction operations generalizing c with
  | nil => rfl
  | cons op rest ih =>
    have hstep : (stateAfter c (c.serve op)).named = stateAfter c.named (c.named.serve op) := by
      rw [named_serve]
      cases c.serve op <;> rfl
    show (run (stateAfter c (c.serve op)) rest).named = _
    rw [ih, hstep]
    rfl

/-! ### What an operation changes -/

/-- What becomes of the keyspace or of the table that an operation is about, and its answer. -/
def Entry (c c' : Catalog) (answer : Option TableSchema) : Operation → Prop
  | .createKeyspace name durable =>
    c.keyspace? name = none ∧ c'.keyspace? name = some ⟨name, durable, []⟩ ∧ answer = none
  | .dropKeyspace name => c.keyspace? name ≠ none ∧ c'.keyspace? name = none ∧ answer = none
  | .createTable d ifNotExists =>
    ∃ s, answer = some s ∧ c'.table d.keyspace d.name = .ok s ∧
      (c.table d.keyspace d.name = .ok s ∧ ifNotExists = true ∧ c' = c ∨
        c.table d.keyspace d.name = .error (.tableNotFound (d.keyspace ++ "." ++ d.name)) ∧
          d.compile = .ok s)
  | .alterTable keyspace name alter =>
    ∃ previous s, c.table keyspace name = .ok previous ∧ alter previous = .ok s ∧
      s.keyspace = keyspace ∧ s.name = name ∧ answer = some s ∧ c'.table keyspace name = .ok s
  | .dropTable keyspace name =>
    ∃ s, c.table keyspace name = .ok s ∧ answer = some s ∧
      c'.table keyspace name = .error (.tableNotFound (keyspace ++ "." ++ name))

/-- All that a successful operation changes. -/
structure Changed (c : Catalog) (op : Operation) (c' : Catalog) (answer : Option TableSchema) :
    Prop where
  elsewhere : ∀ keyspace, keyspace ≠ op.keyspace → c'.keyspace? keyspace = c.keyspace? keyspace
  beside : ∀ name, op.table? = some name → ∃ k k', c.keyspace? op.keyspace = some k ∧
    c'.keyspace? op.keyspace = some k' ∧ k.SameBeside k' name
  entry : Entry c c' answer op

theorem keyspace?_withKeyspace_self (c : Catalog) (name : String) (k : Keyspace) :
    (c.withKeyspace name k).keyspace? name = some k := by
  rw [keyspace?_withKeyspace, if_pos rfl]

theorem keyspace?_withKeyspace_ne (c : Catalog) {name other : String} (h : other ≠ name)
    (k : Keyspace) : (c.withKeyspace name k).keyspace? other = c.keyspace? other := by
  rw [keyspace?_withKeyspace, if_neg h]

theorem table_publish (c : Catalog) (keyspace : String) (k : Keyspace) (s : TableSchema) :
    (c.withKeyspace keyspace (k.publish s)).table keyspace s.name = .ok s := by
  refine table_eq_ok_iff.2 ⟨_, keyspace?_withKeyspace_self c keyspace _, ?_⟩
  rw [Keyspace.publish, Bindings.find?_insert, if_pos rfl]

/-- **All that a successful operation changes**: nothing in other keyspaces, and nothing but one
table in the keyspace of a table. -/
theorem changed_of_serve {op : Operation} {answer : Option TableSchema}
    (h : c.serve op = .ok (c', answer)) : Changed c op c' answer := by
  cases op with
  | createKeyspace name durable =>
    obtain ⟨_, hdone, heq⟩ := except_map_eq_ok.1 h
    obtain ⟨-, hfresh, rfl⟩ := createKeyspace_ok hdone
    cases heq
    exact ⟨fun other hother => keyspace?_withKeyspace_ne c hother _, nofun, hfresh,
      keyspace?_withKeyspace_self c name _, rfl⟩
  | dropKeyspace name =>
    obtain ⟨⟨_, k⟩, hdone, heq⟩ := except_map_eq_ok.1 h
    obtain ⟨hk, rfl⟩ := dropKeyspace_ok hdone
    cases heq
    refine ⟨fun other hother => ?_, nofun, ?_, ?_, rfl⟩
    · exact (keyspace?_erase c name other).trans (if_neg hother)
    · exact hk ▸ Option.some_ne_none k
    · exact (keyspace?_erase c name name).trans (if_pos rfl)
  | createTable d ifNotExists =>
    obtain ⟨⟨_, s⟩, hdone, heq⟩ := except_map_eq_ok.1 h
    obtain ⟨compiled, k, hcompile, hk, ⟨hs, hasked, rfl⟩ | ⟨hfresh, rfl, rfl⟩⟩ :=
      createTable_ok hdone
    · cases heq
      have htable : c'.table d.keyspace d.name = .ok s := table_eq_ok_iff.2 ⟨k, hk, hs⟩
      refine ⟨fun _ _ => rfl, ?_, s, rfl, htable, .inl ⟨htable, hasked, rfl⟩⟩
      rintro name -
      exact ⟨k, k, hk, hk, .refl k name⟩
    · cases heq
      obtain ⟨-, hname⟩ := TableDefinition.identity_of_compile hcompile
      refine ⟨fun other hother => keyspace?_withKeyspace_ne c hother _, ?_, s, rfl, ?_,
        .inr ⟨?_, hcompile⟩⟩
      · rintro name ⟨⟩
        exact ⟨k, _, hk, keyspace?_withKeyspace_self c _ _, hname ▸ .publish k s⟩
      · rw [← hname]
        exact table_publish c d.keyspace k s
      · rw [table_of_keyspace? hk, hfresh]
  | alterTable keyspace name alter =>
    obtain ⟨⟨_, s⟩, hdone, heq⟩ := except_map_eq_ok.1 h
    obtain ⟨k, previous, hk, hprevious, halter, rfl, rfl, rfl⟩ := alterTable_ok hdone
    cases heq
    refine ⟨fun other hother => keyspace?_withKeyspace_ne c hother _, ?_, previous, s,
      table_eq_ok_iff.2 ⟨k, hk, hprevious⟩, halter, rfl, rfl, rfl, table_publish c _ k s⟩
    rintro name ⟨⟩
    exact ⟨k, _, hk, keyspace?_withKeyspace_self c _ _, .publish k s⟩
  | dropTable keyspace name =>
    obtain ⟨⟨_, s⟩, hdone, heq⟩ := except_map_eq_ok.1 h
    obtain ⟨k, hk, hs, rfl⟩ := dropTable_ok hdone
    cases heq
    refine ⟨fun other hother => keyspace?_withKeyspace_ne c hother _, ?_, s,
      table_eq_ok_iff.2 ⟨k, hk, hs⟩, rfl, ?_⟩
    · rintro name ⟨⟩
      exact ⟨k, _, hk, keyspace?_withKeyspace_self c _ _, .erase k _⟩
    · rw [table_of_keyspace? (keyspace?_withKeyspace_self c _ _), Bindings.find?_erase, if_pos rfl]

/-- Asking that a table be there, where one is, gives that table and changes nothing. -/
theorem serve_createTable_of_table {d : TableDefinition} {s compiled : TableSchema}
    (hcompile : d.compile = .ok compiled) (hs : c.table d.keyspace d.name = .ok s) :
    c.serve (.createTable d true) = .ok (c, some s) := by
  obtain ⟨k, hk, hfound⟩ := table_eq_ok_iff.1 hs
  simp only [serve, createTable, hcompile, except_ok_bind, requireKeyspace_eq_ok_iff.2 hk, hfound]
  rfl

/-! ### Names of stored tables -/

/-- Every table has the keyspace and the name that it stands under. -/
def Filed (c : Catalog) : Prop :=
  ∀ keyspace name s, c.table keyspace name = .ok s → s.keyspace = keyspace ∧ s.name = name

theorem filed_empty : Filed empty := by
  intro keyspace name s hs
  cases hs

theorem table_congr {keyspace : String} (h : c'.keyspace? keyspace = c.keyspace? keyspace)
    (name : String) : c'.table keyspace name = c.table keyspace name := by
  simp only [table, requireKeyspace, h]

/-- The other tables of a keyspace stay when one of them changes. -/
theorem Changed.table_beside {op : Operation} {answer : Option TableSchema}
    (h : Changed c op c' answer) {name other : String} (hop : op.table? = some name)
    (hother : other ≠ name) : c'.table op.keyspace other = c.table op.keyspace other := by
  obtain ⟨k, k', hk, hk', hsame⟩ := h.beside name hop
  rw [table_of_keyspace? hk, table_of_keyspace? hk', hsame.tables other hother]

/-- An operation on a keyspace as a whole leaves no table in it. -/
theorem Changed.table_ne_ok {op : Operation} {answer : Option TableSchema}
    (h : Changed c op c' answer) (hop : op.table? = none) (name : String) (s : TableSchema) :
    c'.table op.keyspace name ≠ .ok s := by
  intro hs
  obtain ⟨k, hk, hfound⟩ := table_eq_ok_iff.1 hs
  cases op with
  | createKeyspace keyspace durable =>
    obtain ⟨-, hnew, -⟩ := h.entry
    cases hnew.symm.trans hk
    cases hfound
  | dropKeyspace keyspace =>
    obtain ⟨-, hgone, -⟩ := h.entry
    cases hgone.symm.trans hk
  | createTable | alterTable | dropTable => cases hop

/-- The table that an operation is about has the names under which it looks for it. -/
theorem Changed.identity {op : Operation} {answer : Option TableSchema}
    (h : Changed c op c' answer) (hfiled : c.Filed) {name : String} (hop : op.table? = some name)
    {s : TableSchema} (hs : c'.table op.keyspace name = .ok s) :
    s.keyspace = op.keyspace ∧ s.name = name := by
  cases op with
  | createKeyspace | dropKeyspace => cases hop
  | createTable d ifNotExists =>
    cases hop
    obtain ⟨s', -, hs', ⟨hkept, -⟩ | ⟨-, hcompile⟩⟩ := h.entry
    · cases hs'.symm.trans hs
      exact hfiled d.keyspace d.name s hkept
    · cases hs'.symm.trans hs
      exact TableDefinition.identity_of_compile hcompile
  | alterTable keyspace _ alter =>
    cases hop
    obtain ⟨_, s', -, -, hkeyspace, hname, -, hs'⟩ := h.entry
    cases hs'.symm.trans hs
    exact ⟨hkeyspace, hname⟩
  | dropTable keyspace _ =>
    cases hop
    obtain ⟨_, -, -, hgone⟩ := h.entry
    cases hgone.symm.trans hs

/-- Operations keep tables under their names. -/
theorem Filed.step {op : Operation} {answer : Option TableSchema} (h : c.Filed)
    (hchanged : Changed c op c' answer) : c'.Filed := by
  intro keyspace name s hs
  by_cases hkeyspace : keyspace = op.keyspace
  · subst hkeyspace
    cases hop : op.table? with
    | none => exact absurd hs (hchanged.table_ne_ok hop name s)
    | some changed =>
      by_cases hname : name = changed
      · subst hname
        exact hchanged.identity h hop hs
      · rw [hchanged.table_beside hop hname] at hs
        exact h op.keyspace name s hs
  · rw [table_congr (hchanged.elsewhere keyspace hkeyspace)] at hs
    exact h keyspace name s hs

theorem Filed.run (h : c.Filed) (operations : List Operation) : (c.run operations).Filed := by
  induction operations generalizing c with
  | nil => exact h
  | cons op rest ih =>
    have hnext : (stateAfter c (c.serve op)).Filed := by
      cases hserve : c.serve op with
      | error e => exact h
      | ok outcome => exact h.step (changed_of_serve hserve)
    exact ih hnext

/-! ### Runs -/

/-- The operation that is requested. -/
def Request.operation : Request → Operation
  | .createKeyspace name durable => .createKeyspace name durable
  | .dropKeyspace name => .dropKeyspace name
  | .createTable d ifNotExists => .createTable d ifNotExists
  | .alterTable keyspace name changes => .alterTable keyspace name (·.changeAll changes)
  | .dropTable keyspace name => .dropTable keyspace name

/-- A request is an operation, of which the answer is left out. -/
theorem perform_eq_serve (c : Catalog) (r : Request) :
    c.perform r = (c.serve r.operation).map Prod.fst := by
  cases r with
  | createKeyspace name durable =>
    show c.createKeyspace name durable = ((c.createKeyspace name durable).map _).map _
    rw [except_map_map]
    exact (congrFun Except.map_id _).symm
  | dropKeyspace | createTable | alterTable | dropTable =>
    simp only [perform, serve, Request.operation, except_map_map]

theorem performAll_eq_run (c : Catalog) (requests : List Request) :
    c.performAll requests = c.run (requests.map Request.operation) := by
  induction requests generalizing c with
  | nil => rfl
  | cons r rest ih =>
    have hstep : c.attempt r = stateAfter c (c.serve r.operation) := by
      rw [attempt, perform_eq_serve]
      cases c.serve r.operation <;> rfl
    show (c.attempt r).performAll rest = _
    rw [ih, hstep]
    rfl

/-- A catalog is this map, and the next operation is done to both alike: refused without any
change, or done to nothing but what it is about. -/
structure ActsLike (c : Catalog) (m : NamedTables) (op : Operation) : Prop where
  named : c.named = m
  read : ∀ keyspace name, m.requireTable keyspace name = c.table keyspace name
  filed : c.Filed
  served : m.serve op = seen (c.serve op)
  refused : ∀ e, c.serve op = .error e → c.run [op] = c
  changed : ∀ c' answer, c.serve op = .ok (c', answer) →
    c.run [op] = c' ∧ Changed c op c' answer
  there : ∀ d s compiled, op = .createTable d true → d.compile = .ok compiled →
    c.table d.keyspace d.name = .ok s → c.serve op = .ok (c, some s)

theorem actsLike_named (h : c.Filed) (op : Operation) : ActsLike c c.named op where
  named := rfl
  read := named_requireTable c
  filed := h
  served := named_serve c op
  refused e he := by rw [run, List.foldl_cons, he]; rfl
  changed c' answer hdone := ⟨by rw [run, List.foldl_cons, hdone]; rfl, changed_of_serve hdone⟩
  there d s compiled hop hcompile hs := hop ▸ serve_createTable_of_table hcompile hs

/-- **A catalog is a map of names**, after every run of operations and for every further one. -/
theorem runs_like_map (operations : List Operation) (op : Operation) :
    ActsLike (empty.run operations) (NamedTables.empty.run operations) op := by
  have hnamed : (empty.run operations).named = NamedTables.empty.run operations :=
    named_run empty operations
  rw [← hnamed]
  exact actsLike_named (filed_empty.run operations) op

end Catalog

end WideColumn
