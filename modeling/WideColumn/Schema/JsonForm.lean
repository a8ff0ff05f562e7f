import WideColumn.Json.Basic
import WideColumn.Schema.Table

/-!
# Definitions and tables as JSON

The JSON form of table definitions and of resolved tables.  Every structure has a writer
`toJson` and a reader `ofJson?`.  A written table holds all its fields, and reading takes them
as they are: nothing is worked out anew.  In a definition every field can be left out.
-/

namespace WideColumn

open Json (ofOption ofList ofNat)

/-! ### Types and directions -/

/-- A type as its text. -/
def ColumnType.toJson (t : ColumnType) : Json := .text t.toText

/-- The type that a text stands for. -/
def ColumnType.ofJson? (j : Json) : Option ColumnType := do
  ColumnType.ofText? (← j.text?)

/-- The word for a direction. -/
def Direction.word : Direction → String
  | asc => "asc"
  | desc => "desc"

/-- The direction that a word stands for. -/
def Direction.ofWord? : String → Option Direction
  | "asc" => some asc
  | "desc" => some desc
  | _ => none

/-- The written direction. -/
def Direction.ofJson? (j : Json) : Option Direction := do
  ofWord? (← j.word?)

/-! ### Definitions -/

namespace TableProperties

/-- The written properties. -/
def toJson (p : TableProperties) : Json :=
  .object [
    ("comment", .text p.comment),
    ("default_time_to_live", ofNat p.defaultTimeToLive.toNat),
    ("gc_grace_seconds", ofNat p.gcGraceSeconds.toNat)]

/-- Reads a number of seconds, which has a default. -/
def seconds? (default : UInt32) : Option Json → Option UInt32
  | none => some default
  | some j => j.word32?.map UInt32.ofNat

/-- The properties that were written. -/
def ofJson? (j : Json) : Option TableProperties := do
  let fields ← j.fields? [("comment", .defaulted), ("default_time_to_live", .defaulted),
    ("gc_grace_seconds", .defaulted)]
  let standard : TableProperties := {}
  match fields with
  | [comment, ttl, grace] =>
    return {
      comment := ← comment.elim (some standard.comment) Json.text?
      defaultTimeToLive := ← seconds? standard.defaultTimeToLive ttl
      gcGraceSeconds := ← seconds? standard.gcGraceSeconds grace }
  | _ => none

end TableProperties

/-- The written declaration of a column. -/
def ColumnDeclaration.toJson (c : ColumnDeclaration) : Json :=
  .object [("name", .text c.name), ("type", c.type.toJson), ("static", .bool c.isStatic)]

/-- The column that was declared. -/
def ColumnDeclaration.ofJson? (j : Json) : Option ColumnDeclaration := do
  match ← j.fields? [("name", .required), ("type", .required), ("static", .defaulted)] with
  | [some name, some type, isStatic] =>
    return ⟨← name.text?, ← ColumnType.ofJson? type, ← isStatic.elim (some false) Json.bool?⟩
  | _ => none

/-- The written direction of a clustering column. -/
def OrderEntry.toJson (e : OrderEntry) : Json :=
  .object [("column", .text e.column), ("direction", .text e.direction.word)]

/-- The direction that was asked for; ascending if nothing is said. -/
def OrderEntry.ofJson? (j : Json) : Option OrderEntry := do
  match ← j.fields? [("column", .required), ("direction", .defaulted)] with
  | [some column, direction] =>
    return ⟨← column.text?, ← direction.elim (some .asc) Direction.ofJson?⟩
  | _ => none

namespace TableDefinition

/-- The written definition. -/
def toJson (d : TableDefinition) : Json :=
  .object [
    ("keyspace", .text d.keyspace),
    ("name", .text d.name),
    ("columns", ofList ColumnDeclaration.toJson d.columns),
    ("partition_key_groups", ofList (ofList .text) d.partitionKeys),
    ("clustering_columns", ofList .text d.clusteringColumns),
    ("clustering_order", ofList OrderEntry.toJson d.clusteringOrder),
    ("compact_storage", .bool d.compactStorage),
    ("properties", d.properties.toJson)]

/-- A list, which is empty if it was left out. -/
def listOrEmpty? {α : Type} (read : Json → Option α) : Option Json → Option (List α)
  | none => some []
  | some j => j.list? read

/-- The definition that was written. -/
def ofJson? (j : Json) : Option TableDefinition := do
  let names := ["keyspace", "name", "columns", "partition_key_groups", "clustering_columns",
    "clustering_order", "compact_storage", "properties"]
  match ← j.fields? (names.map (·, .defaulted)) with
  | [keyspace, name, columns, keys, clustering, order, compact, properties] =>
    return {
      keyspace := ← keyspace.elim (some "") Json.text?
      name := ← name.elim (some "") Json.text?
      columns := ← listOrEmpty? ColumnDeclaration.ofJson? columns
      partitionKeys := ← listOrEmpty? (Json.list? Json.text?) keys
      clusteringColumns := ← listOrEmpty? Json.text? clustering
      clusteringOrder := ← listOrEmpty? OrderEntry.ofJson? order
      compactStorage := ← compact.elim (some false) Json.bool?
      properties := ← properties.elim (some {}) TableProperties.ofJson? }
  | _ => none

end TableDefinition

/-! ### Parts of a table -/

/-- The written layout of keys. -/
def KeyLayout.toJson : KeyLayout → Json
  | single t => .object [("kind", .text "single"), ("types", t.toJson)]
  | composite ts => .object [("kind", .text "composite"), ("types", ofList ColumnType.toJson ts)]

/-- The layout of keys that was written. -/
def KeyLayout.ofJson? (j : Json) : Option KeyLayout := do
  match ← j.tagged? "kind" "types" with
  | ("single", some t) => return single (← ColumnType.ofJson? t)
  | ("composite", some ts) => return composite (← ts.list? ColumnType.ofJson?)
  | _ => none

/-- The written types of collections. -/
def CollectionTypes.toJson (cs : CollectionTypes) : Json :=
  .object (cs.map fun (name, t) => (name, t.toJson))

/-- The types of collections that were written. -/
def CollectionTypes.ofJson? (j : Json) : Option CollectionTypes := do
  return Bindings.ofList (← j.members? ColumnType.ofJson?)

namespace CellLayout

/-- The written layout of cell names. -/
def toJson : CellLayout → Json
  | simpleSparse t => .object [("kind", .text "simple_sparse"), ("wrapped", t.toJson)]
  | simpleDense t => .object [("kind", .text "simple_dense"), ("wrapped", t.toJson)]
  | compoundSparse ts cs =>
    .object [
      ("kind", .text "compound_sparse"),
      ("types", ofList ColumnType.toJson ts),
      ("collections", ofOption CollectionTypes.toJson cs)]
  | compoundDense ts =>
    .object [("kind", .text "compound_dense"), ("types", ofList ColumnType.toJson ts)]

/-- The type that a simple layout wraps. -/
def wrapped? (j : Json) : Option ColumnType := do
  match ← j.fields? [("wrapped", .required)] with
  | [some t] => ColumnType.ofJson? t
  | _ => none

/-- The layout of cell names that was written. -/
def ofJson? (j : Json) : Option CellLayout := do
  match ← j.variant? "kind" with
  | ("simple_sparse", j) => return simpleSparse (← wrapped? j)
  | ("simple_dense", j) => return simpleDense (← wrapped? j)
  | ("compound_sparse", j) =>
    match ← j.fields? [("types", .required), ("collections", .optionalByName)] with
    | [some ts, cs] =>
      return compoundSparse (← ts.list? ColumnType.ofJson?)
        (← cs.elim (some none) (Json.optional? CollectionTypes.ofJson?))
    | _ => none
  | ("compound_dense", j) =>
    match ← j.fields? [("types", .required)] with
    | [some ts] => return compoundDense (← ts.list? ColumnType.ofJson?)
    | _ => none
  | _ => none

end CellLayout

/-- The written value column of a compact table. -/
def CompactValue.toJson : CompactValue → Json
  | empty => .object [("kind", .text "empty")]
  | column name => .object [("kind", .text "column"), ("name", .text name)]

/-- The value column that was written. -/
def CompactValue.ofJson? (j : Json) : Option CompactValue := do
  match ← j.tagged? "kind" "name" with
  | ("empty", none) | ("empty", some .null) => return empty
  | ("column", some name) => return column (← name.text?)
  | _ => none

namespace ColumnRole

/-- The word for a role. -/
def word : ColumnRole → String
  | partitionKey => "partition_key"
  | clusteringKey => "clustering_key"
  | static => "static"
  | regular => "regular"
  | compactValue => "compact_value"

/-- The role that a word stands for. -/
def ofWord? : String → Option ColumnRole
  | "partition_key" => some partitionKey
  | "clustering_key" => some clusteringKey
  | "static" => some static
  | "regular" => some regular
  | "compact_value" => some compactValue
  | _ => none

end ColumnRole

/-- The written column. -/
def Column.toJson (c : Column) : Json :=
  .object [
    ("name", .text c.name),
    ("type", c.type.toJson),
    ("kind", .text c.role.word),
    ("component_index", ofOption ofNat c.componentIndex)]

/-- The column that was written. -/
def Column.ofJson? (j : Json) : Option Column := do
  match ← j.fields? [("name", .required), ("type", .required), ("kind", .required),
    ("component_index", .optionalByName)] with
  | [some name, some type, some role, index] =>
    return ⟨← name.text?, ← ColumnType.ofJson? type, ← ColumnRole.ofWord? (← role.word?),
      ← index.elim (some none) (Json.optional? Json.word64?)⟩
  | _ => none

/-! ### Tables -/

namespace TableSchema

/-- The written table. -/
def toJson (s : TableSchema) : Json :=
  .object [
    ("keyspace", .text s.keyspace),
    ("name", .text s.name),
    ("key_encoding", s.keyLayout.toJson),
    ("comparator", s.cellLayout.toJson),
    ("default_validator", s.defaultType.toJson),
    ("is_dense", .bool s.isDense),
    ("is_compact", .bool s.isCompact),
    ("columns", ofList Column.toJson s.columns),
    ("compact_value", ofOption CompactValue.toJson s.compactValue),
    ("properties", s.properties.toJson)]

/-- The table that was written. -/
def ofJson? (j : Json) : Option TableSchema := do
  match ← j.fields? [("keyspace", .required), ("name", .required), ("key_encoding", .required),
    ("comparator", .required), ("default_validator", .required), ("is_dense", .required),
    ("is_compact", .required), ("columns", .required), ("compact_value", .optionalByName),
    ("properties", .required)] with
  | [some keyspace, some name, some key, some cell, some type, some dense, some compact,
      some columns, value, some properties] =>
    return {
      keyspace := ← keyspace.text?
      name := ← name.text?
      keyLayout := ← KeyLayout.ofJson? key
      cellLayout := ← CellLayout.ofJson? cell
      defaultType := ← ColumnType.ofJson? type
      isDense := ← dense.bool?
      isCompact := ← compact.bool?
      columns := ← columns.list? Column.ofJson?
      compactValue := ← value.elim (some none) (Json.optional? CompactValue.ofJson?)
      properties := ← TableProperties.ofJson? properties }
  | _ => none

end TableSchema

end WideColumn
