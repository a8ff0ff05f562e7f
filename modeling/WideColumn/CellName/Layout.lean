import WideColumn.Bindings
import WideColumn.CellName.Basic
import WideColumn.KeyLayout

/-!
# Cell-name layouts

How the parts of a cell name are packed into bytes, and the order of the packed names.  There
are four layouts:

* **simple** layouts store a single value as it stands, **compound** ones a composite;
* **dense** layouts store clustering values only, for tables with at most one value column;
  **sparse** ones add the name of the column, so that a row can have any number of columns.

A compound sparse layout also records the multi-cell collections of its table: the name of one
of their cells ends in the element.  `encode` and `decode` go between parts and bytes, `order`
compares packed names, and `choose?` picks the layout of a table.
-/

namespace WideColumn

/-- The types of named columns, in the order of the names. -/
abbrev CollectionTypes := Bindings String ColumnType

/-- A layout of cell names. -/
inductive CellLayout where
  /-- The name of the column. -/
  | simpleSparse (wrapped : ColumnType)
  /-- The one clustering value. -/
  | simpleDense (wrapped : ColumnType)
  /-- The clustering values, the name of the column, and perhaps an element of a collection. -/
  | compoundSparse (types : List ColumnType) (collections : Option CollectionTypes)
  /-- The clustering values, or the first few of them. -/
  | compoundDense (types : List ColumnType)
deriving DecidableEq, Repr

namespace CellLayout

/-! ### Choosing a layout -/

/-- The layout of a table with these clustering types and multi-cell collections; `none` if
it is to be compact and has collections. -/
def choose? (clustering : List ColumnType) (compact : Bool) (collections : CollectionTypes) :
    Option CellLayout :=
  match compact, clustering with
  | true, clustering =>
    if !collections.isEmpty then none
    else match clustering with
      | [] => some (simpleSparse .text)
      | [t] => some (simpleDense t)
      | ts => some (compoundDense ts)
  | false, ts => some (compoundSparse ts (if collections.isEmpty then none else some collections))

/-! ### Parts of a layout -/

/-- Do names carry clustering values only? -/
def isDense : CellLayout → Bool
  | simpleDense _ | compoundDense _ => true
  | _ => false

/-- Are names composites? -/
def isCompound : CellLayout → Bool
  | compoundSparse .. | compoundDense _ => true
  | _ => false

/-- The types of the clustering values. -/
def clusteringTypes : CellLayout → List ColumnType
  | simpleSparse _ => []
  | simpleDense t => [t]
  | compoundSparse ts _ | compoundDense ts => ts

/-- The multi-cell collections, if any were ever recorded. -/
def collections? : CellLayout → Option CollectionTypes
  | compoundSparse _ cs => cs
  | _ => none

/-- The type of a multi-cell collection. -/
def collectionType? (layout : CellLayout) (column : String) : Option ColumnType := do
  (← layout.collections?).find? column

/-- The type that tells the elements of a multi-cell collection apart. -/
def elementType? (layout : CellLayout) (column : String) : Option ColumnType := do
  (← layout.collectionType? column).elementNameType?

/-- Records a multi-cell collection, which only compound sparse names can address. -/
def withCollection? (column : String) (type : ColumnType) : CellLayout → Option CellLayout
  | compoundSparse ts cs => some (compoundSparse ts (some ((cs.getD []).insert column type)))
  | _ => none

/-- Changes the type of one clustering value; where there is none, nothing changes. -/
def withClusteringType (position : Nat) (type : ColumnType) : CellLayout → CellLayout
  | simpleSparse t => simpleSparse t
  | simpleDense t => simpleDense (if position = 0 then type else t)
  | compoundSparse ts cs => compoundSparse (ts.set position type) cs
  | compoundDense ts => compoundDense (ts.set position type)

/-! ### Packing -/

/-- The column that a sparse name must have. -/
def requireColumn (name : CellName) : Except EncodingError String :=
  match name.column with
  | some column => .ok column
  | none => .error (.invalidValue "sparse cell names need a column name")

/-- Refuses what a dense name cannot carry. -/
def requireDense (name : CellName) : Except EncodingError Unit :=
  if name.column.isSome ∨ name.isStatic ∨ name.element.isSome then
    .error (.invalidValue "dense cell names carry only clustering values")
  else .ok ()

/-- The leading components of a compound sparse name with `size` clustering values: empty
ones for a static cell. -/
def leadingComponents (size : Nat) (name : CellName) : Except EncodingError (List Bytes) :=
  if name.isStatic then
    if name.clustering.isEmpty then .ok (List.replicate size [])
    else .error (.invalidValue "static cell names carry no clustering values")
  else if name.clustering.length = size then .ok name.clustering
  else .error (.componentCount size name.clustering.length)

/-- The component of an element, which its collection must accept. -/
def elementComponent (layout : CellLayout) (column : String) :
    Option Bytes → Except EncodingError (List Bytes)
  | none => .ok []
  | some element =>
    match layout.elementType? column with
    | none => .error (.invalidValue ("column " ++ column ++ " is not a multi-cell collection"))
    | some t => do
      t.validate element
      return [element]

/-- The packed form of a name. -/
def encode (layout : CellLayout) (name : CellName) : Except EncodingError Bytes := do
  KeyLayout.validateAll layout.clusteringTypes name.clustering
  match layout with
  | simpleSparse _ =>
    let column ← requireColumn name
    if !name.clustering.isEmpty || name.isStatic then
      throw (.invalidValue "simple sparse cell names carry only a column name")
    return Text.Utf8.encode column
  | simpleDense _ =>
    requireDense name
    match name.clustering with
    | [value] => return value
    | values => throw (.componentCount 1 values.length)
  | compoundDense ts =>
    requireDense name
    if ts.length < name.clustering.length then
      throw (.componentCount ts.length name.clustering.length)
    Composite.encode ⟨name.clustering, false⟩
  | compoundSparse ts _ =>
    let column ← requireColumn name
    let leading ← leadingComponents ts.length name
    let element ← layout.elementComponent column name.element
    Composite.encode ⟨leading ++ Text.Utf8.encode column :: element, name.isStatic⟩

/-! ### Unpacking -/

/-- A column name from its bytes. -/
def columnName (bytes : Bytes) : Except EncodingError String :=
  match Text.Utf8.decode? bytes with
  | some column => .ok column
  | none => .error (.invalidValue "column name is not utf-8")

/-- The parts of a packed name. -/
def decode (layout : CellLayout) (bytes : Bytes) : Except EncodingError CellName :=
  match layout with
  | simpleSparse _ => do return ⟨[], some (← columnName bytes), none, false⟩
  | simpleDense _ => .ok (.dense [bytes])
  | compoundDense ts => do
    let c ← Composite.decode bytes
    if c.isStatic ∨ ts.length < c.components.length then
      throw (.componentCount ts.length c.components.length)
    return .dense c.components
  | compoundSparse ts _ => do
    let c ← Composite.decode bytes
    let clustering := if c.isStatic then [] else c.components.take ts.length
    match c.components.drop ts.length with
    | [column] => return ⟨clustering, some (← columnName column), none, c.isStatic⟩
    | [column, element] => return ⟨clustering, some (← columnName column), some element, c.isStatic⟩
    | _ => throw (.componentCount (ts.length + 1) c.components.length)

/-! ### Order -/

/-- Compares clustering values in turn, each by its type, as far as there are values on both
sides. -/
def orderClustering : List ColumnType → List Bytes → List Bytes → Ordering
  | t :: ts, a :: as, b :: bs => (t.order a b).then (orderClustering ts as bs)
  | _, _, _ => .eq

/-- Sorts the absence of an element first, and elements by their type. -/
def orderElement (type : ColumnType) : Option Bytes → Option Bytes → Ordering
  | none, none => .eq
  | none, some _ => .lt
  | some _, none => .gt
  | some a, some b => type.order a b

/-- Compares columns by name. -/
def orderColumn : Option String → Option String → Ordering
  | none, none => .eq
  | none, some _ => .lt
  | some _, none => .gt
  | some a, some b => compare a b

/-- Compares the parts of compound sparse names: static cells first, then the row, the column
and the element. -/
def orderParts (layout : CellLayout) (a b : CellName) : Ordering :=
  let elementType := (a.column.bind layout.elementType?).getD .blob
  Composite.staticFirst a.isStatic b.isStatic <|
    (orderClustering layout.clusteringTypes a.clustering b.clustering).then <|
      (orderColumn a.column b.column).then <|
        orderElement elementType a.element b.element

/-- Compares packed names.  Bytes that are no compound sparse name are compared as they
stand. -/
def order (layout : CellLayout) (a b : Bytes) : Ordering :=
  match layout with
  | simpleSparse t | simpleDense t => t.order a b
  | compoundDense ts => Composite.order ts a b
  | compoundSparse .. =>
    match layout.decode a, layout.decode b with
    | .ok x, .ok y => layout.orderParts x y
    | _, _ => Bytes.order a b

/-! ### In words -/

/-- The layout in words. -/
def toText : CellLayout → String
  | simpleSparse t => "simple_sparse(" ++ t.toText ++ ")"
  | simpleDense t => "simple_dense(" ++ t.toText ++ ")"
  | compoundDense ts => "compound_dense(" ++ ", ".intercalate (ts.map ColumnType.toText) ++ ")"
  | compoundSparse ts cs =>
    let base := "compound_sparse(" ++ ", ".intercalate (ts.map ColumnType.toText) ++ ")"
    match cs with
    | none => base
    | some cs =>
      let entries := cs.map fun (column, t) => column ++ ": " ++ t.toText
      base ++ " with collections \x7b" ++ ", ".intercalate entries ++ "\x7d"

end CellLayout

end WideColumn
