import WideColumn.Proofs.RegisteredCollections

/-!
# Cells of value columns

Each regular or static column of a table that is not compact has cells in all of its rows: their
names can be packed, with each element if the column is a multi-cell collection, and no two of them
are packed alike.

* `Column.cellName`, `HasRow` — the names of the cells of a column, and the rows that it has cells
  in;
* `Consistent.encode_cell_exists_iff` — which of these names can be packed;
* `Consistent.cellName_of_encode` — the packed name tells the column, the row and the element;
* `value_cells_encodable` — **no column of a table is without cells, however it came about**.
-/

namespace WideColumn

open Effects

/-- The name of a cell of the column; cells of a static column are in no row. -/
def Column.cellName (c : Column) (row : List Bytes) (element : Option Bytes) : CellName :=
  ⟨row, some c.name, element, c.role = .static⟩

namespace TableSchema

variable {s : TableSchema} {c c' : Column}

/-- The column has cells in the row: it is one value for each clustering column, all of them valid
and short enough, or nothing for a static column. -/
def HasRow (s : TableSchema) (c : Column) (row : List Bytes) : Prop :=
  if c.role = .static then row = []
  else CellLayout.FillsRow (s.clusteringColumns.map (·.type)) row

theorem mem_columns_of_valueColumns (h : c ∈ s.valueColumns) : c ∈ s.columns :=
  List.mem_of_mem_filter h

namespace Consistent

/-- A table that is not compact has the compound sparse layout of its clustering columns. -/
theorem cellLayout_of_loose (hs : s.Consistent) (hloose : s.isCompact = false) :
    ∃ cs, s.cellLayout = .compoundSparse (s.clusteringColumns.map (·.type)) cs := by
  have hother := mt hs.compact.2 (by simp [hloose])
  rw [← hs.clustering]
  cases hlayout : s.cellLayout with
  | compoundSparse ts cs => exact ⟨cs, rfl⟩
  | simpleSparse | simpleDense | compoundDense =>
    rw [hlayout] at hother
    exact absurd (by simp [CellLayout.isDense, CellLayout.isCompound]) hother

/-- The elements of a multi-cell column are told apart by the type that its own type says. -/
theorem elementType?_of_multiCell (hs : s.Consistent) (hc : c ∈ s.columns)
    (hmulti : c.type.isMultiCell = true) :
    s.cellLayout.elementType? c.name = c.type.elementNameType? := by
  unfold CellLayout.elementType?
  rw [hs.collections c hc hmulti]
  rfl

/-- **The names that can be packed** are those of the rows that the column has cells in, with an
element if the layout has its type. -/
theorem encode_cell_exists_iff (hs : s.Consistent) (hloose : s.isCompact = false)
    (hc : c ∈ s.columns) {row : List Bytes} {element : Option Bytes} :
    (∃ packed, s.cellLayout.encode (c.cellName row element) = .ok packed) ↔
      s.HasRow c row ∧ ∀ bytes ∈ element, bytes.length ≤ Composite.maxComponentSize ∧
        ∃ t, s.cellLayout.elementType? c.name = some t ∧ t.validate bytes = .ok () := by
  obtain ⟨cs, hlayout⟩ := hs.cellLayout_of_loose hloose
  have hsize := Naming.encode_length_le (hs.validNames c hc)
  rw [hlayout, CellLayout.compoundSparse_encode_exists_iff]
  unfold HasRow Column.cellName
  simp only [decide_eq_true_eq]
  refine and_congr_right fun _ => ?_
  constructor
  · rintro ⟨column, hcolumn, -, helement⟩
    obtain rfl := Option.some.inj hcolumn
    exact helement
  · exact fun helement => ⟨c.name, rfl, hsize, helement⟩

/-- **A packed name tells the column, the row and the element.** -/
theorem cellName_of_encode (hs : s.Consistent) (hloose : s.isCompact = false) (hc : c ∈ s.columns)
    (hc' : c' ∈ s.columns) {row row' : List Bytes} {element element' : Option Bytes}
    {packed : Bytes} (h : s.cellLayout.encode (c.cellName row element) = .ok packed)
    (h' : s.cellLayout.encode (c'.cellName row' element') = .ok packed) :
    c = c' ∧ row = row' ∧ element = element' := by
  obtain ⟨cs, hlayout⟩ := hs.cellLayout_of_loose hloose
  have hsame := (CellLayout.decode_of_encode h).symm.trans (CellLayout.decode_of_encode h')
  rw [hlayout] at hsame
  obtain ⟨hrow, hname, helement, -⟩ := CellName.mk.inj (Except.ok.inj hsame)
  exact ⟨hs.eq_of_name hc hc' (Option.some.inj hname), hrow, helement⟩

end Consistent

end TableSchema

namespace TableDefinition

variable {d : TableDefinition} {past : List TableSchema} {s : TableSchema}

/-- **Every value column has cells.**  In a table that was compiled and then changed in any way, and
that is not compact, the cells of a regular or static column can be named in every row that fits the
clustering columns, and in no other; if the column is a multi-cell collection, so can they with every
short element of the type that tells its elements apart.  Cells of different columns, of different
rows or with different elements have different names. -/
theorem value_cells_encodable (h : d.Evolved past s) (hloose : s.isCompact = false) :
    (∀ c ∈ s.valueColumns, ∀ row,
      (∃ packed, s.cellLayout.encode (c.cellName row none) = .ok packed) ↔ s.HasRow c row) ∧
    (∀ c ∈ s.valueColumns, c.type.isMultiCell = true →
      ∃ t, c.type.elementNameType? = some t ∧ ∀ row element,
        (∃ packed, s.cellLayout.encode (c.cellName row (some element)) = .ok packed) ↔
          s.HasRow c row ∧ element.length ≤ Composite.maxComponentSize ∧
            t.validate element = .ok ()) ∧
    ∀ c ∈ s.valueColumns, ∀ c' ∈ s.valueColumns, ∀ row row' element element' packed,
      s.cellLayout.encode (c.cellName row element) = .ok packed →
      s.cellLayout.encode (c'.cellName row' element') = .ok packed →
      c = c' ∧ row = row' ∧ element = element' := by
  have hs := h.consistent
  refine ⟨fun c hc row => ?_, fun c hc hmulti => ?_, fun c hc c' hc' _ _ _ _ _ => ?_⟩
  · rw [hs.encode_cell_exists_iff hloose (TableSchema.mem_columns_of_valueColumns hc)]
    exact and_iff_left nofun
  · have hmem := TableSchema.mem_columns_of_valueColumns hc
    have hnamed := c.type.elementNameType?_isSome.trans hmulti
    obtain ⟨t, ht⟩ := Option.isSome_iff_exists.1 hnamed
    refine ⟨t, ht, fun row element => ?_⟩
    rw [hs.encode_cell_exists_iff hloose hmem, hs.elementType?_of_multiCell hmem hmulti, ht]
    simp
  · exact hs.cellName_of_encode hloose (TableSchema.mem_columns_of_valueColumns hc)
      (TableSchema.mem_columns_of_valueColumns hc')

/-- The static column of the berths after their changes. -/
def berthsWarden : Column := ⟨"warden", .text, .static, some 1⟩

/-- The collection of the berths after their changes. -/
def berthsFlags : Column := ⟨"flags", .set .text false, .regular, some 1⟩

/-- The berths after their changes. -/
def changedBerths : TableSchema where
  keyspace := "harbours"
  name := "berths"
  keyLayout := .composite [.scalar .ascii, .text]
  cellLayout :=
    .compoundSparse [.descending (.scalar .varint)] (some [("flags", .set .text false)])
  defaultType := .blob
  isDense := false
  isCompact := false
  columns := [⟨"harbour", .scalar .ascii, .partitionKey, some 0⟩,
    ⟨"pier", .text, .partitionKey, some 1⟩,
    ⟨"day", .descending (.scalar .varint), .clusteringKey, some 0⟩, berthsFlags, berthsWarden]
  compactValue := none
  properties := { defaultTimeToLive := 60 }

theorem changedBerths_evolved : ∃ past, berthsDefinition.Evolved past changedBerths := by
  have hcompile : berthsDefinition.compile = .ok _ := rfl
  exact (Evolved.compiled hcompile).changeAll
    (show TableSchema.changeAll _ berthsChanges = .ok changedBerths from rfl)

/-- The warden of the berths, and a flag of a boat that lay there on the eighth day. -/
theorem value_cells_berths :
    (∃ past, berthsDefinition.Evolved past changedBerths) ∧
      (∃ packed, changedBerths.cellLayout.encode (berthsWarden.cellName [] none) = .ok packed) ∧
      ∃ packed,
        changedBerths.cellLayout.encode (berthsFlags.cellName [[8]] (some [0x72])) = .ok packed := by
  obtain ⟨past, h⟩ := changedBerths_evolved
  obtain ⟨hplain, helements, -⟩ := value_cells_encodable h rfl
  obtain ⟨t, ht, hiff⟩ := helements berthsFlags (by decide) rfl
  cases ht
  exact ⟨⟨past, h⟩, (hplain berthsWarden (by decide) []).2 rfl,
    (hiff [[8]] [0x72]).2 ⟨⟨rfl, rfl, by decide⟩, by decide, by decide⟩⟩

end TableDefinition

end WideColumn
