import WideColumn.Index.Entry
import WideColumn.Proofs.PackedNames

/-!
# Places of index entries

Where an index records a base cell, as a function of the partition and the cell.

* `entry_congr`, `covers_congr` — only the name and the value of the cell matter;
* `IsCellOf` and `covers_iff_isCellOf` — an index on a regular or a static column covers the cells
  of that column;
* `RecordsValues` — an index that records each cell under its value, in a place that no other
  name shares;
* `recordsValues_of_value_column`, `recordsValues_of_compound_dense` — **indexes on regular,
  static and compact value columns** are of this kind, the latter if names are composites;
* `ofColumn_parts` — all that an index on a column knows.
-/

namespace WideColumn

open Effects

/-! ### Cells of a column -/

namespace TableSchema

/-- Is it a name that the table's layout makes? -/
def HasName (s : TableSchema) (bytes : Bytes) : Prop :=
  ∃ name, s.cellLayout.encode name = .ok bytes

/-- Is it a cell of the column?  A regular column has a cell in each row, a static one a cell in
each partition. -/
def IsCellOf (s : TableSchema) (column : String) (c : Cell) : Prop :=
  (s.role? column = some .regular ∧
      ∃ clustering, s.cellLayout.encode (.regular clustering column) = .ok c.name) ∨
    (s.role? column = some .static ∧ s.cellLayout.encode (.ofStatic column) = .ok c.name)

/-- A name that the layout makes is made of the parts into which it unpacks. -/
theorem HasName.parts {s : TableSchema} {bytes : Bytes} (h : s.HasName bytes) :
    ∃ name, s.cellLayout.decode bytes = .ok name ∧ s.cellLayout.encode name = .ok bytes := by
  obtain ⟨name, hname⟩ := h
  exact ⟨_, CellLayout.decode_of_encode hname, (CellLayout.encode_carried _ _).trans hname⟩

end TableSchema

namespace IndexTarget

/-- The part that the indexed column plays. -/
def role : IndexTarget → ColumnRole
  | partitionKey _ => .partitionKey
  | clusteringKey _ => .clusteringKey
  | regular => .regular
  | static => .static
  | compactValue => .compactValue

theorem role_of_resolve {base : TableSchema} {column : String} {target : IndexTarget}
    (h : resolve base column = .ok target) : base.role? column = some target.role := by
  unfold resolve at h
  unfold TableSchema.role?
  cases hc : base.column? column with
  | none => simp [hc] at h
  | some c =>
    simp only [hc] at h
    split at h
    · cases h
    · cases hr : c.role <;> simp only [hr] at h <;> (try split at h) <;> cases h <;>
        simp [hr, role]

end IndexTarget

namespace SecondaryIndex

variable {x : SecondaryIndex}

/-! ### What matters of a cell -/

theorem covers_congr {c d : Cell} (h : c.name = d.name) : x.covers c = x.covers d := by
  unfold covers
  rw [h]

theorem entry_congr (key : Bytes) {c d : Cell} (hname : c.name = d.name)
    (hvalue : c.value = d.value) : x.entry key c = x.entry key d := by
  unfold entry recordedValue
  rw [hname, hvalue]

/-- The name of the cell that records a base cell. -/
def place (x : SecondaryIndex) (key name : Bytes) : Except EngineError Bytes := do
  let parts ← (x.base.cellLayout.decode name).mapError .encoding
  x.entryCellName key parts

theorem place_ok {key name cellName : Bytes} {parts : CellName}
    (hparts : x.base.cellLayout.decode name = .ok parts) :
    x.place key name = .ok cellName ↔ x.entryCellName key parts = .ok cellName := by
  unfold place
  rw [hparts]
  rfl

/-- The parts of an entry. -/
theorem entry_ok {key : Bytes} {c : Cell} {e : IndexEntry} (h : x.entry key c = .ok e) :
    ∃ parts, x.base.cellLayout.decode c.name = .ok parts ∧
      x.recordedValue key parts c = .ok e.partitionKey ∧ x.place key c.name = .ok e.cellName := by
  obtain ⟨parts, hparts, h⟩ := except_bind_eq_ok.1 h
  obtain ⟨value, hvalue, h⟩ := except_bind_eq_ok.1 h
  obtain ⟨cell, hcell, h⟩ := except_bind_eq_ok.1 h
  cases h
  exact ⟨parts, mapError_eq_ok.1 hparts, hvalue, except_bind_eq_ok.2 ⟨parts, hparts, hcell⟩⟩

/-- The name of an entry's cell tells the partition and the clustering values that are kept. -/
theorem entryCellName_injective {key key' cellName : Bytes} {name name' : CellName}
    (h : x.entryCellName key name = .ok cellName)
    (h' : x.entryCellName key' name' = .ok cellName) :
    key = key' ∧ (x.base.cellLayout.isCompound = true →
      name.clustering.take (x.target.keptClustering x.base.cellLayout) =
        name'.clustering.take (x.target.keptClustering x.base.cellLayout) ∧
      x.target.keptClustering x.base.cellLayout ≤ name.clustering.length ∧
      x.target.keptClustering x.base.cellLayout ≤ name'.clustering.length) := by
  unfold entryCellName at h h'
  cases hc : x.base.cellLayout.isCompound
  · simp only [hc, Bool.not_false, if_true] at h h'
    cases h
    cases h'
    exact ⟨rfl, fun h => by cases h⟩
  · simp only [hc, Bool.not_true, Bool.false_eq_true, if_false] at h h'
    split at h
    · cases h
    · split at h'
      · cases h'
      · have heq := Composite.encode_injective (mapError_eq_ok.1 h) (mapError_eq_ok.1 h')
        injection heq with heq
        obtain ⟨hkey, hkept⟩ := List.cons.inj heq
        exact ⟨hkey, fun _ => ⟨hkept, by omega, by omega⟩⟩

/-! ### Indexes of values -/

/-- The index records each cell under its value, in a place that no other name shares. -/
structure RecordsValues (x : SecondaryIndex) : Prop where
  entry_eq_ok : ∀ key c e, x.entry key c = .ok e ↔
    e.partitionKey = c.value ∧ x.place key c.name = .ok e.cellName
  place_injective : ∀ key key' c c' p, x.covers c = true → x.covers c' = true →
    x.base.HasName c.name → x.base.HasName c'.name →
    x.place key c.name = .ok p → x.place key' c'.name = .ok p → key = key' ∧ c.name = c'.name

/-- Places tell names apart if they tell the parts of names apart. -/
theorem recordsValues_of_parts
    (hvalue : ∀ key name c, x.recordedValue key name c = .ok c.value)
    (hparts : ∀ key key' c c' p name name', x.covers c = true → x.covers c' = true →
      x.base.cellLayout.decode c.name = .ok name → x.base.cellLayout.decode c'.name = .ok name' →
      x.base.cellLayout.encode name = .ok c.name → x.base.cellLayout.encode name' = .ok c'.name →
      x.entryCellName key name = .ok p → x.entryCellName key' name' = .ok p →
      name = name') : x.RecordsValues where
  entry_eq_ok := fun key c e => by
    constructor
    · intro h
      obtain ⟨parts, -, hrecorded, hplace⟩ := entry_ok h
      rw [hvalue] at hrecorded
      exact ⟨(Except.ok.inj hrecorded).symm, hplace⟩
    · rintro ⟨hkey, hplace⟩
      obtain ⟨parts, hdec, hcell⟩ := except_bind_eq_ok.1 hplace
      refine except_bind_eq_ok.2 ⟨parts, hdec, except_bind_eq_ok.2 ⟨_, hvalue _ _ _, ?_⟩⟩
      refine except_bind_eq_ok.2 ⟨_, hcell, ?_⟩
      rw [← hkey]
      rfl
  place_injective := fun key key' c c' p hc hc' hn hn' hp hp' => by
    obtain ⟨name, hdec, henc⟩ := hn.parts
    obtain ⟨name', hdec', henc'⟩ := hn'.parts
    have hcell := (place_ok hdec).1 hp
    have hcell' := (place_ok hdec').1 hp'
    refine ⟨(entryCellName_injective hcell hcell').1, ?_⟩
    have hname := hparts key key' c c' p name name' hc hc' hdec hdec' henc henc' hcell hcell'
    rw [hname] at henc
    exact Except.ok.inj (henc.symm.trans henc')

/-- The index is on a regular or on a static column. -/
def IsOnValueColumn (x : SecondaryIndex) : Prop := x.target = .regular ∨ x.target = .static

/-- The parts of the name of a cell that an index on a value column covers. -/
theorem covers_parts (h : x.IsOnValueColumn) {c : Cell} {name : CellName}
    (hc : x.covers c = true) (hdec : x.base.cellLayout.decode c.name = .ok name) :
    name.column = some x.column ∧ name.element = none ∧
      (name.isStatic = true ↔ x.target = .static) := by
  unfold covers at hc
  rw [hdec] at hc
  rcases h with h | h <;>
    simp only [h, Bool.and_eq_true, decide_eq_true_eq, Bool.not_eq_true', Option.isNone_iff_eq_none]
      at hc <;>
    simp [hc, h]

/-- A sparse name is told by its parts: a static one by its column, any other by its clustering
values too. -/
theorem sparse_clustering {layout : CellLayout} {name : CellName} {packed : Bytes}
    {column : String} (h : layout.encode name = .ok packed) (hcolumn : name.column = some column) :
    (layout.isCompound = false ∨ name.isStatic = true → name.clustering = []) ∧
      (layout.isCompound = true → name.isStatic = false →
        name.clustering.length = layout.clusteringTypes.length) := by
  cases layout with
  | simpleSparse t =>
    obtain ⟨_, _, hclustering, hstatic, _⟩ := CellLayout.simpleSparse_ok h
    exact ⟨fun _ => hclustering, fun hc => by cases hc⟩
  | simpleDense t =>
    rw [CellLayout.simpleDense_ok h] at hcolumn
    cases hcolumn
  | compoundDense ts =>
    rw [(CellLayout.compoundDense_ok h).1] at hcolumn
    cases hcolumn
  | compoundSparse ts cs =>
    obtain ⟨_, leading, _, hlength, hclustering, _⟩ := CellLayout.compoundSparse_ok h
    refine ⟨fun hor => ?_, fun _ hstatic => ?_⟩
    · rcases hor with hc | hstatic
      · cases hc
      · rw [hclustering, if_pos hstatic]
    · rw [hclustering, hstatic]
      exact hlength

/-- **An index on a regular or a static column** records each cell in a place of its own. -/
theorem recordsValues_of_value_column (h : x.IsOnValueColumn) : x.RecordsValues := by
  refine recordsValues_of_parts (fun key name c => ?_) ?_
  · unfold recordedValue
    rcases h with h | h <;> rw [h]
  · intro key key' c c' cellName name name' hc hc' hdec hdec' henc henc' hcell hcell'
    obtain ⟨hcolumn, helement, hstatic⟩ := covers_parts h hc hdec
    obtain ⟨hcolumn', helement', hstatic'⟩ := covers_parts h hc' hdec'
    have hsame : name.isStatic = name'.isStatic := by
      rw [Bool.eq_iff_iff, hstatic, hstatic']
    have hclustering : name.clustering = name'.clustering := by
      have hparts := sparse_clustering henc hcolumn
      have hparts' := sparse_clustering henc' hcolumn'
      by_cases hempty : x.base.cellLayout.isCompound = false ∨ name.isStatic = true
      · rw [hparts.1 hempty, hparts'.1 (hsame ▸ hempty)]
      · simp only [not_or, Bool.not_eq_false, Bool.not_eq_true] at hempty
        obtain ⟨hcompound, hregular⟩ := hempty
        have hkept : x.target.keptClustering x.base.cellLayout =
            x.base.cellLayout.clusteringTypes.length := by
          rcases h with ht | ht
          · simp [IndexTarget.keptClustering, ht, hcompound]
          · rw [hstatic.2 ht] at hregular
            cases hregular
        have htake := ((entryCellName_injective hcell hcell').2 hcompound).1
        rw [hkept, List.take_of_length_le (Nat.le_of_eq (hparts.2 hcompound hregular)),
          List.take_of_length_le (Nat.le_of_eq (hparts'.2 hcompound (hsame ▸ hregular)))] at htake
        exact htake
    obtain ⟨clustering, column, element, isStatic⟩ := name
    obtain ⟨clustering', column', element', isStatic'⟩ := name'
    simp_all

/-- **An index on a compact value** does so too if names are composites: the entry then keeps
all clustering values, which are all that there is of a dense name. -/
theorem recordsValues_of_compound_dense (h : x.target = .compactValue)
    (hcompound : x.base.cellLayout.isCompound = true) : x.RecordsValues := by
  refine recordsValues_of_parts (fun key name c => ?_) ?_
  · unfold recordedValue
    rw [h]
  · intro key key' c c' cellName name name' hc _ hdec _ henc henc' hcell hcell'
    have hdense : x.base.cellLayout.isDense = true := by
      unfold covers at hc
      rw [hdec] at hc
      simpa [h] using hc
    have hkept : x.target.keptClustering x.base.cellLayout =
        x.base.cellLayout.clusteringTypes.length := by
      simp [IndexTarget.keptClustering, h, hcompound]
    have htake := ((entryCellName_injective hcell hcell').2 hcompound).1
    rw [hkept] at htake
    cases hl : x.base.cellLayout with
    | simpleSparse t => rw [hl] at hcompound; cases hcompound
    | simpleDense t => rw [hl] at hcompound; cases hcompound
    | compoundSparse ts cs => rw [hl] at hdense; cases hdense
    | compoundDense ts =>
      rw [hl] at henc henc' htake
      obtain ⟨hname, hlength, -⟩ := CellLayout.compoundDense_ok henc
      obtain ⟨hname', hlength', -⟩ := CellLayout.compoundDense_ok henc'
      rw [CellLayout.clusteringTypes, List.take_of_length_le hlength,
        List.take_of_length_le hlength'] at htake
      rw [hname, hname', htake]

/-! ### Indexes as they are made -/

/-- **All that an index on a column knows.** -/
theorem ofColumn_parts {base : TableSchema} {column : String} {indexName : Option String}
    (h : ofColumn base column indexName = .ok x) :
    ∃ target, ∃ c : Column, IndexTarget.resolve base column = .ok target ∧
      x = { base, column, indexName, target,
            indexSchema :=
              indexTable base column (indexName.getD column) target c.type.base } := by
  unfold ofColumn at h
  cases indexName
  case' some name => obtain ⟨⟨⟩, -, h⟩ := except_bind_eq_ok.1 h
  all_goals
    obtain ⟨target, htarget, h⟩ := except_bind_eq_ok.1 h
    cases hc : base.column? column with
    | none =>
      simp only [hc] at h
      cases h
    | some c =>
      simp only [hc] at h
      cases h
      exact ⟨target, c, mapError_eq_ok.1 htarget, rfl⟩

/-- **The index on a column** whose part is known, under a name that is allowed. -/
theorem ofColumn_of_resolve {base : TableSchema} {column : String} {indexName : Option String}
    {target : IndexTarget} {c : Column}
    (hname : ∀ name ∈ indexName, Naming.checkName name = .ok ())
    (htarget : IndexTarget.resolve base column = .ok target) (hc : base.column? column = some c) :
    ofColumn base column indexName = .ok ⟨base, column, indexName, target,
      indexTable base column (indexName.getD column) target c.type.base⟩ := by
  have hmade := mapError_eq_ok (f := EngineError.index).2 htarget
  unfold ofColumn
  cases indexName with
  | none =>
    simp only [hmade, hc]
    rfl
  | some name =>
    have hnamed := mapError_eq_ok (f := EngineError.schema).2 (hname name rfl)
    simp only [hnamed, hmade, hc]
    rfl

theorem checkName_of_ofColumn {base : TableSchema} {column : String} {indexName : Option String}
    (h : ofColumn base column indexName = .ok x) :
    ∀ name ∈ indexName, Naming.checkName name = .ok () := by
  rintro name ⟨⟩
  obtain ⟨⟨⟩, hname, -⟩ := except_bind_eq_ok.1 h
  exact mapError_eq_ok.1 hname

/-- The part that the column plays is that of the target. -/
theorem ofColumn_ok {base : TableSchema} {column : String} {indexName : Option String}
    (h : ofColumn base column indexName = .ok x) :
    x.base = base ∧ x.column = column ∧ base.role? column = some x.target.role := by
  obtain ⟨target, c, htarget, rfl⟩ := ofColumn_parts h
  exact ⟨rfl, rfl, IndexTarget.role_of_resolve htarget⟩

/-- The index knows which part its column plays. -/
def IsResolved (x : SecondaryIndex) : Prop := x.base.role? x.column = some x.target.role

theorem isOnValueColumn_of_role (hx : x.IsResolved)
    (h : x.base.role? x.column = some .regular ∨ x.base.role? x.column = some .static) :
    x.IsOnValueColumn := by
  unfold IsResolved at hx
  unfold IsOnValueColumn
  cases ht : x.target <;> simp_all [IndexTarget.role]

/-- **An index on a regular or a static column covers the cells of that column.** -/
theorem covers_iff_isCellOf (hx : x.IsResolved) (h : x.IsOnValueColumn) {c : Cell}
    (hname : x.base.HasName c.name) : x.covers c = true ↔ x.base.IsCellOf x.column c := by
  constructor
  · intro hc
    obtain ⟨name, hdec, henc⟩ := hname.parts
    obtain ⟨hcolumn, helement, hstatic⟩ := covers_parts h hc hdec
    obtain ⟨clustering, column, element, isStatic⟩ := name
    cases hcolumn
    cases helement
    rcases h with ht | ht
    · have hregular : isStatic = false := by simpa [ht] using hstatic
      subst hregular
      exact .inl ⟨by rw [hx, ht]; rfl, clustering, henc⟩
    · have hisStatic : isStatic = true := hstatic.2 ht
      subst hisStatic
      have hclustering : clustering = [] := (sparse_clustering henc rfl).1 (.inr rfl)
      subst hclustering
      exact .inr ⟨by rw [hx, ht]; rfl, henc⟩
  · rintro (⟨hrole, clustering, henc⟩ | ⟨hrole, henc⟩)
    · have ht : x.target = .regular := by
        rw [hx] at hrole
        cases ht : x.target <;> simp_all [IndexTarget.role]
      unfold covers
      rw [CellLayout.decode_of_encode henc, CellLayout.carried_eq_self rfl, ht]
      simp [CellName.regular]
    · have ht : x.target = .static := by
        rw [hx] at hrole
        cases ht : x.target <;> simp_all [IndexTarget.role]
      unfold covers
      rw [CellLayout.decode_of_encode henc, CellLayout.carried_eq_self rfl, ht]
      simp [CellName.ofStatic]

end SecondaryIndex

end WideColumn
