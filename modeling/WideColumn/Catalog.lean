import WideColumn.Json.Reader
import WideColumn.Json.Writer
import WideColumn.Schema.Compilation
import WideColumn.Schema.JsonForm

/-!
# The catalog

The keyspaces and the tables in them, by name.  Every operation gives a new catalog or the
reason why it was refused, so a refused operation changes nothing.

A catalog is saved as a JSON text of its `snapshot`, and loaded from one: `ofSnapshot` takes the
tables as they are written and only checks the names of keyspaces.
-/

namespace WideColumn

/-- A keyspace. -/
structure Keyspace where
  name : String
  durableWrites : Bool
  tables : Bindings String TableSchema := []
deriving DecidableEq, Repr

/-- The keyspaces by name. -/
structure Catalog where
  keyspaces : Bindings String Keyspace := []
deriving DecidableEq, Repr

/-- The keyspace with a table added, in place of one with its name. -/
def Keyspace.publish (k : Keyspace) (s : TableSchema) : Keyspace :=
  { k with tables := k.tables.insert s.name s }

namespace Catalog

/-- A catalog without keyspaces. -/
def empty : Catalog := {}

/-! ### Keyspaces -/

/-- The keyspace with a name. -/
def keyspace? (c : Catalog) (name : String) : Option Keyspace := c.keyspaces.find? name

/-- The names of the keyspaces, in order. -/
def keyspaceNames (c : Catalog) : List String := c.keyspaces.keys

/-- The keyspace with a name, which must exist. -/
def requireKeyspace (c : Catalog) (name : String) : Except SchemaError Keyspace :=
  match c.keyspace? name with
  | some k => .ok k
  | none => .error (.keyspaceNotFound name)

/-- Puts a keyspace in place of the one with its name. -/
def withKeyspace (c : Catalog) (name : String) (k : Keyspace) : Catalog :=
  { c with keyspaces := c.keyspaces.insert name k }

/-- Adds a keyspace. -/
def createKeyspace (c : Catalog) (name : String) (durable : Bool) : Except SchemaError Catalog := do
  Naming.checkName name
  if (c.keyspace? name).isSome then throw (.keyspaceAlreadyExists name)
  return c.withKeyspace name ⟨name, durable, []⟩

/-- Removes a keyspace with its tables; also what was removed. -/
def dropKeyspace (c : Catalog) (name : String) : Except SchemaError (Catalog × Keyspace) := do
  let k ← c.requireKeyspace name
  return ({ c with keyspaces := c.keyspaces.erase name }, k)

/-! ### Tables -/

/-- A table, which must exist. -/
def table (c : Catalog) (keyspace name : String) : Except SchemaError TableSchema := do
  let k ← c.requireKeyspace keyspace
  match k.tables.find? name with
  | some s => return s
  | none => throw (.tableNotFound (keyspace ++ "." ++ name))

/-- The names of the tables of a keyspace, in order. -/
def tableNames (c : Catalog) (keyspace : String) : Except SchemaError (List String) := do
  return (← c.requireKeyspace keyspace).tables.values.map (·.name)

/-- Adds the table of a definition; also its schema.  If it exists already, that is an error,
unless the caller asks only that it be there. -/
def createTable (c : Catalog) (d : TableDefinition) (ifNotExists : Bool) :
    Except SchemaError (Catalog × TableSchema) := do
  let s ← d.compile
  let k ← c.requireKeyspace d.keyspace
  match k.tables.find? d.name with
  | some existing => if ifNotExists then return (c, existing) else throw (.tableAlreadyExists s.id)
  | none => return (c.withKeyspace d.keyspace (k.publish s), s)

/-- Puts what `alter` makes of a table in its place; also the new schema. -/
def alterTable (c : Catalog) (keyspace name : String)
    (alter : TableSchema → Except SchemaError TableSchema) :
    Except SchemaError (Catalog × TableSchema) := do
  let k ← c.requireKeyspace keyspace
  let current ← c.table keyspace name
  let next ← alter current
  if next.name ≠ name ∨ next.keyspace ≠ keyspace then
    throw (.invalidAlteration current.id .identityChange)
  return (c.withKeyspace keyspace (k.publish next), next)

/-- Removes a table; also its schema. -/
def dropTable (c : Catalog) (keyspace name : String) :
    Except SchemaError (Catalog × TableSchema) := do
  let k ← c.requireKeyspace keyspace
  let s ← c.table keyspace name
  return (c.withKeyspace keyspace { k with tables := k.tables.erase name }, s)

/-! ### Snapshots -/

/-- A keyspace with its tables in order. -/
structure KeyspaceSnapshot where
  name : String
  durableWrites : Bool
  tables : List TableSchema
deriving DecidableEq, Repr

/-- All that a catalog holds, in order. -/
def snapshot (c : Catalog) : List KeyspaceSnapshot :=
  c.keyspaces.values.map fun k => ⟨k.name, k.durableWrites, k.tables.values⟩

/-- The keyspace of a snapshot. -/
def restoreKeyspace (k : KeyspaceSnapshot) : Except SchemaError Keyspace := do
  Naming.checkName k.name
  return k.tables.foldl Keyspace.publish ⟨k.name, k.durableWrites, []⟩

/-- Adds the keyspaces of a snapshot; of two with one name the later counts. -/
def restore (c : Catalog) : List KeyspaceSnapshot → Except SchemaError Catalog
  | [] => .ok c
  | k :: rest => do restore (c.withKeyspace k.name (← restoreKeyspace k)) rest

/-- The catalog of a snapshot. -/
def ofSnapshot (snapshot : List KeyspaceSnapshot) : Except SchemaError Catalog :=
  restore empty snapshot

/-! ### Saving and loading -/

/-- The written keyspace. -/
def KeyspaceSnapshot.toJson (k : KeyspaceSnapshot) : Json :=
  .object [
    ("name", .text k.name),
    ("durable_writes", .bool k.durableWrites),
    ("tables", Json.ofList TableSchema.toJson k.tables)]

/-- The keyspace that was written. -/
def KeyspaceSnapshot.ofJson? (j : Json) : Option KeyspaceSnapshot := do
  match ← j.fields? [("name", .required), ("durable_writes", .required),
    ("tables", .required)] with
  | [some name, some durable, some tables] =>
    return ⟨← name.text?, ← durable.bool?, ← tables.list? TableSchema.ofJson?⟩
  | _ => none

/-- The written snapshot. -/
def snapshotToJson (snapshot : List KeyspaceSnapshot) : Json :=
  .object [("keyspaces", Json.ofList KeyspaceSnapshot.toJson snapshot)]

/-- The snapshot that was written. -/
def snapshotOfJson? (j : Json) : Option (List KeyspaceSnapshot) := do
  match ← j.fields? [("keyspaces", .required)] with
  | [some keyspaces] => keyspaces.list? KeyspaceSnapshot.ofJson?
  | _ => none

/-- The text that a catalog is saved as. -/
def save (c : Catalog) : String := (snapshotToJson c.snapshot).pretty

/-- Why a saved catalog could not be loaded. -/
inductive LoadError where
  /-- The text is not that of a catalog. -/
  | corrupted
  /-- A keyspace is refused. -/
  | refused (e : SchemaError)
deriving DecidableEq, Repr

/-- The catalog that a text holds. -/
def load (text : String) : Except LoadError Catalog :=
  match (Json.ofText? text).bind snapshotOfJson? with
  | none => .error .corrupted
  | some snapshot => (ofSnapshot snapshot).mapError .refused

end Catalog

end WideColumn
