import WideColumn.Bytes.XxHash
import WideColumn.Schema.Table
import WideColumn.Text.Hex

/-!
# Versions of tables

Two schemas of a table are told apart by a digest of all their fields.  `feed` writes the
fields as bytes, one after the other: integers least significant byte first, texts closed by
`ff` (which no UTF-8 text contains), lists and options with their length in front, variants
with their position in front.  `version` is the digest of these bytes.
-/

namespace WideColumn

namespace Feed

/-- A length, a position or an index in eight bytes. -/
def count (n : Nat) : Bytes := Bytes.littleEndian 8 n

/-- A text and its closing byte. -/
def text (s : String) : Bytes := Text.Utf8.encode s ++ [0xff]

/-- A truth value. -/
def bool (b : Bool) : Bytes := [if b then 1 else 0]

/-- A number of 32 bits. -/
def word32 (n : UInt32) : Bytes := Bytes.littleEndian 4 n.toNat

/-- A list after its length. -/
def list {α : Type} (feed : α → Bytes) (items : List α) : Bytes :=
  count items.length ++ items.flatMap feed

/-- A value that may be missing. -/
def option {α : Type} (feed : α → Bytes) : Option α → Bytes
  | none => count 0
  | some a => count 1 ++ feed a

/-- A column type. -/
def type : ColumnType → Bytes
  | .scalar s => count 0 ++ count s.index
  | .list e frozen => count 1 ++ type e ++ bool frozen
  | .set e frozen => count 2 ++ type e ++ bool frozen
  | .map k v frozen => count 3 ++ type k ++ type v ++ bool frozen
  | .descending t => count 4 ++ type t

/-- A layout of keys. -/
def keyLayout : KeyLayout → Bytes
  | .single t => count 0 ++ type t
  | .composite ts => count 1 ++ list type ts

/-- The types of collections. -/
def collections (cs : CollectionTypes) : Bytes :=
  list (fun (name, t) => text name ++ type t) cs

/-- A layout of cell names. -/
def cellLayout : CellLayout → Bytes
  | .simpleSparse t => count 0 ++ type t
  | .simpleDense t => count 1 ++ type t
  | .compoundSparse ts cs => count 2 ++ list type ts ++ option collections cs
  | .compoundDense ts => count 3 ++ list type ts

/-- A role. -/
def role : ColumnRole → Bytes
  | .partitionKey => count 0
  | .clusteringKey => count 1
  | .static => count 2
  | .regular => count 3
  | .compactValue => count 4

/-- A column. -/
def column (c : Column) : Bytes :=
  text c.name ++ type c.type ++ role c.role ++ option count c.componentIndex

/-- A value column. -/
def compactValue : CompactValue → Bytes
  | .empty => count 0
  | .column name => count 1 ++ text name

/-- Properties. -/
def properties (p : TableProperties) : Bytes :=
  text p.comment ++ word32 p.defaultTimeToLive ++ word32 p.gcGraceSeconds

end Feed

namespace TableSchema

/-- All fields of a table as bytes. -/
def feed (s : TableSchema) : Bytes :=
  Feed.text s.keyspace ++ Feed.text s.name ++ Feed.keyLayout s.keyLayout
    ++ Feed.cellLayout s.cellLayout ++ Feed.type s.defaultType ++ Feed.bool s.isDense
    ++ Feed.bool s.isCompact ++ Feed.list Feed.column s.columns
    ++ Feed.option Feed.compactValue s.compactValue ++ Feed.properties s.properties

/-- The digest of all fields of a table. -/
def version (s : TableSchema) : UInt64 := XxHash.digest s.feed

/-- The version in sixteen hexadecimal digits. -/
def versionText (s : TableSchema) : String :=
  Text.Hex.ofBytes (Bytes.bigEndian 8 s.version.toNat)

end TableSchema

end WideColumn
