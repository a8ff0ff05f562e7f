import WideColumn.Proofs.AcceptedDefinitions
import WideColumn.Proofs.RegisteredCollections
import WideColumn.Proofs.TypeNotation

/-!
# Frozen types

A frozen collection is one value: a key may have it, no layout records it, and compact storage takes
it.  `frozen<…>` is read around every collection, also around one in descending order.  Freezing
changes the outermost node only, though, which is the mark then, and the collection below stays
multi-cell.

* `isMultiCell_freeze`, `ofText?_frozen_iff` — what freezing leaves multi-cell, and what `frozen<…>`
  is read as;
* `compile_failsOnly`, `addColumn_failsOnly` — a definition, or a new column, is refused because of
  a collection only if it has one there;
* `fitsKeys_iff`, `staysUnrecorded_iff`, `fitsCompact_iff`, `joinsCompact_iff` — **a type is treated
  as one value if and only if it is not multi-cell**;
* `frozen_text_one_value_iff` — **`frozen<…>` gives such a type** unless a multi-cell collection in
  descending order stands in it.
-/

namespace WideColumn

open Effects

namespace ColumnType

/-! ### Freezing -/

/-- Is it a multi-cell collection in descending order? -/
def isMarkedMultiCell (t : ColumnType) : Bool := t.isDescending && t.isMultiCell

/-- **Freezing does not reach below a mark.** -/
theorem isMultiCell_freeze (t : ColumnType) : t.freeze.isMultiCell = t.isMarkedMultiCell := by
  cases t <;> rfl

/-- What is read in `frozen<…>` is a collection, and is frozen. -/
theorem ofText?_frozen_iff {s : String} {t : ColumnType} :
    ofText? ("frozen<" ++ s ++ ">") = some t ↔
      ∃ inner, ofText? s = some inner ∧ inner.isCollection = true ∧ t = inner.freeze := by
  show parse? (plain ("frozen<" ++ s ++ ">")) = some t ↔
    ∃ inner, parse? (plain s) = some inner ∧ _
  rw [@plain_enclosed "frozen<" "frozen" (by decide), parse?_enclosed (by decide), if_pos rfl,
    Option.bind_eq_some_iff]
  refine exists_congr fun inner => and_congr_right fun _ => ?_
  cases inner.isCollection <;> simp [eq_comm]

end ColumnType

/-! ### Definitions that are refused because of a collection -/

namespace TableDefinition

/-- What an error about a collection says of the definition: the key column, or one of the columns,
is a multi-cell collection. -/
def HasFault (d : TableDefinition) : SchemaError → Prop
  | .collectionKeyColumn name => ∃ c, d.column? name = some c ∧ c.type.isMultiCell = true
  | .collectionWithCompactStorage =>
    d.compactStorage = true ∧ ∃ c ∈ d.columns, c.type.isMultiCell = true
  | _ => True

variable (d : TableDefinition)

theorem checkName_failsOnly (name : String) : FailsOnly d.HasFault (Naming.checkName name) :=
  .ite (fun _ => .error trivial) fun _ => .ite (fun _ => .error trivial) fun _ => .ok ()

theorem checkColumnNames_failsOnly (seen : List String) (columns : List ColumnDeclaration) :
    FailsOnly d.HasFault (checkColumnNames seen columns) := by
  induction columns generalizing seen with
  | nil => exact .ok ()
  | cons c rest ih =>
    have hname : FailsOnly d.HasFault (Naming.checkColumnName c.name) :=
      .ite (fun _ => .error trivial) fun _ => .ok ()
    exact hname.bind fun _ _ => .guard (fun _ => trivial) fun _ => ih _

theorem check_failsOnly (p : TableProperties) : FailsOnly d.HasFault p.check :=
  .ite (fun _ => .error trivial) fun _ => .ok ()

theorem partitionKeyNames_failsOnly : FailsOnly d.HasFault d.partitionKeyNames := by
  unfold partitionKeyNames
  split
  · exact .error trivial
  · exact .error trivial
  · exact .ok _
  · exact .error trivial

/-- A key column is refused as a collection if it is one. -/
theorem keyColumns_failsOnly (taken names : List String) :
    FailsOnly d.HasFault (d.keyColumns taken names) := by
  induction names generalizing taken with
  | nil => exact .ok []
  | cons name rest ih =>
    have hcolumn : FailsOnly d.HasFault (d.keyColumn taken name) := by
      unfold keyColumn
      split
      · exact .error trivial
      · rename_i c hc
        refine .ite (fun _ => .error trivial) fun _ => .ite (fun hmulti => .error ⟨c, hc, hmulti⟩)
          fun _ => ?_
        exact .ite (fun _ => .error trivial) fun _ => .ite (fun _ => .error trivial) fun _ => .ok c
    exact hcolumn.bind fun _ _ => (ih _).bind fun _ _ => .ok _

theorem checkOrder_failsOnly (clustering expected named : List String) (entries : List OrderEntry) :
    FailsOnly d.HasFault (checkOrder clustering expected named entries) := by
  fun_induction checkOrder clustering expected named entries with
  | case1 => exact .ok ()
  | case5 named entry rest _ _ expected ih => exact ih
  | case2 | case3 | case4 | case6 | case7 => exact .error trivial

theorem keySplit_failsOnly : FailsOnly d.HasFault d.keySplit := by
  have hdirections : FailsOnly d.HasFault d.clusteringDirections :=
    .ite (fun _ => .ok _) fun _ => (d.checkOrder_failsOnly _ _ _ _).bind fun _ _ => .ok _
  exact d.partitionKeyNames_failsOnly.bind fun _ _ => (d.keyColumns_failsOnly _ _).bind fun _ _ =>
    (d.keyColumns_failsOnly _ _).bind fun _ _ => hdirections.bind fun _ _ => .ok _

theorem checkStatic_failsOnly (k : KeySplit) :
    FailsOnly d.HasFault (checkStatic d.compactStorage k) :=
  .ite (fun _ => .ok ()) fun _ => .ite (fun _ => .error trivial) fun _ =>
    .ite (fun _ => .error trivial) fun _ => .ok ()

theorem resolve_failsOnly (compact : Bool) (count : Nat) (remaining : List ColumnDeclaration) :
    FailsOnly d.HasFault (DefaultValue.resolve compact count remaining) := by
  unfold DefaultValue.resolve
  split <;> first | exact .ok _ | exact .error trivial

variable {d} in
/-- A compact table without a layout has a collection. -/
theorem hasFault_of_choose? {k : KeySplit} (hsplit : d.keySplit = .ok k)
    (hlayout : CellLayout.choose? k.clusteringTypes d.compactStorage
      (Bindings.ofList (k.multiCell.map fun c => (c.name, c.type))) = none) :
    d.HasFault .collectionWithCompactStorage := by
  have hnone := mt CellLayout.choose?_exists_iff.2
    (not_exists.2 fun layout hsome => nomatch hlayout.symm.trans hsome)
  obtain ⟨hcompact, hcollections⟩ := Classical.not_imp.1 hnone
  refine ⟨hcompact, ?_⟩
  rw [Bindings.ofList_eq_nil_iff, List.map_eq_nil_iff] at hcollections
  obtain ⟨c, hc⟩ := List.exists_mem_of_ne_nil _ hcollections
  obtain ⟨hremaining, hmulti⟩ := List.mem_filter.1 hc
  exact ⟨c, declared_of_remaining hsplit hremaining, hmulti⟩

/-- **A definition is refused because of a collection only if it has one there.** -/
theorem compile_failsOnly : FailsOnly d.HasFault d.compile := by
  unfold compile
  refine (d.checkName_failsOnly _).bind fun _ _ => (d.checkColumnNames_failsOnly _ _).bind fun _ _ =>
    (d.check_failsOnly _).bind fun _ _ => d.keySplit_failsOnly.bind fun k hsplit =>
    .guard (fun _ => trivial) fun _ => ?_
  have hcounters : FailsOnly d.HasFault (checkCounters (k.remaining.map (·.type))) :=
    .ite (fun _ => .error trivial) fun _ => .ok ()
  refine hcounters.bind fun _ _ => (d.checkStatic_failsOnly k).bind fun _ _ => ?_
  simp only
  split
  · exact (d.resolve_failsOnly _ _ _).bind fun _ _ => .ok _
  · rename_i hlayout
    refine .error (hasFault_of_choose? hsplit ?_)
    exact Option.eq_none_iff_forall_ne_some.2 hlayout

end TableDefinition

/-- What an error about a collection says of a new column. -/
def ColumnDeclaration.HasFault (c : ColumnDeclaration) : SchemaError → Prop
  | .collectionWithCompactStorage => c.type.isMultiCell = true
  | _ => True

/-- **A new column is refused as a collection only if it is one.** -/
theorem TableSchema.addColumn_failsOnly (s : TableSchema) (c : ColumnDeclaration) :
    FailsOnly c.HasFault (s.addColumn c) := by
  have hname : FailsOnly c.HasFault (Naming.checkColumnName c.name) :=
    .ite (fun _ => .error trivial) fun _ => .ok ()
  have hstatic : FailsOnly c.HasFault (s.checkNewStatic c) :=
    .ite (fun _ => .ok ()) fun _ => .ite (fun _ => .error trivial) fun _ =>
      .ite (fun _ => .error trivial) fun _ => .ok ()
  have hlayout : FailsOnly c.HasFault (s.layoutWith c) := by
    refine .ite (fun _ => .ok _) fun hsingle => ?_
    have hmulti : c.type.isMultiCell = true := by
      simpa [ColumnDeclaration.isMultiCell] using hsingle
    refine .ite (fun _ => .error hmulti) fun _ => ?_
    split
    · exact .ok _
    · exact .error trivial
  have hcounters (types : List ColumnType) : FailsOnly c.HasFault (checkCounters types) :=
    .ite (fun _ => .error trivial) fun _ => .ok ()
  exact hname.bind fun _ _ => .guard (fun _ => trivial) fun _ => .guard (fun _ => trivial) fun _ =>
    hstatic.bind fun _ _ => hlayout.bind fun _ _ => .guard (fun _ => trivial) fun _ =>
    (hcounters _).bind fun _ _ => .ok _

/-! ### Types that are one value -/

namespace ColumnType

/-- No definition is refused because a key column of the type is a collection. -/
def FitsKeys (t : ColumnType) : Prop :=
  ∀ (d : TableDefinition) (c : ColumnDeclaration), d.column? c.name = some c → c.type = t →
    d.compile ≠ .error (.collectionKeyColumn c.name)

/-- No layout records the type, and what stands on record under the name of a column of the type is
a collection that earlier versions of the table had under that name. -/
def StaysUnrecorded (t : ColumnType) : Prop :=
  ∀ (d : TableDefinition) past s, d.Evolved past s →
    (∀ name, s.cellLayout.collectionType? name ≠ some t) ∧
      ∀ c ∈ s.columns, c.type = t →
        s.cellLayout.collectionType? c.name = past.findSome? (·.collection? c.name)

/-- A compact table is refused for its collections only if one of them has another type. -/
def FitsCompact (t : ColumnType) : Prop :=
  ∀ d : TableDefinition, d.compile = .error .collectionWithCompactStorage →
    ∃ c ∈ d.columns, c.type.isMultiCell = true ∧ c.type ≠ t

/-- No compact table refuses a new column of the type for being a collection. -/
def JoinsCompact (t : ColumnType) : Prop :=
  ∀ (s : TableSchema) (c : ColumnDeclaration), c.type = t →
    s.addColumn c ≠ .error .collectionWithCompactStorage

variable {t : ColumnType}

theorem isCounter_of_isMultiCell (h : t.isMultiCell = true) : t.isCounter = false := by
  unfold isMultiCell at h
  unfold isCounter
  split at h <;> simp_all

/-! ### Tables with a column of the type -/

/-- A table with the type in its key. -/
def keyedBy (t : ColumnType) : TableDefinition where
  name := "t"
  columns := [⟨"k", t, false⟩]
  partitionKeys := [["k"]]

/-- A table with the type outside its key. -/
def valuedBy (t : ColumnType) (compact : Bool) : TableDefinition where
  name := "t"
  columns := [⟨"k", .text, false⟩, ⟨"v", t, false⟩]
  partitionKeys := [["k"]]
  compactStorage := compact

/-- The parts of a table with the type outside its key. -/
def valuedSplit (t : ColumnType) : KeySplit := ⟨[⟨"k", .text, false⟩], [], [⟨"v", t, false⟩]⟩

/-- A compact table with one value. -/
def compactTable : TableSchema where
  keyspace := ""
  name := "t"
  keyLayout := .single .text
  cellLayout := .simpleSparse .text
  defaultType := .text
  isDense := false
  isCompact := true
  columns := [⟨"k", .text, .partitionKey, none⟩, ⟨"v", .text, .regular, none⟩]
  compactValue := none
  properties := {}

example : (valuedBy .text true).compile = .ok compactTable := by decide

/-- The names of these tables and of their columns are valid, that of an added one among them. -/
theorem names_valid : Naming.checkName "t" = .ok () ∧
    ∀ name ∈ ["k", "v", "v2"], Naming.checkColumnName name = .ok () := by decide

theorem keyedBy_compile (h : t.isMultiCell = true) :
    (keyedBy t).compile = .error (.collectionKeyColumn "k") := by
  have hname : Naming.checkName (keyedBy t).name = .ok () := names_valid.1
  have hcolumns : TableDefinition.checkColumnNames [] (keyedBy t).columns = .ok () := by
    simp [keyedBy, TableDefinition.checkColumnNames_eq_ok_iff, names_valid.2]
  have hproperties : (keyedBy t).properties.check = .ok () := rfl
  have hcolumn : (keyedBy t).keyColumn [] "k" = .error (.collectionKeyColumn "k") := if_pos h
  have hsplit : (keyedBy t).keySplit = .error (.collectionKeyColumn "k") := by
    show ((keyedBy t).keyColumn [] "k" >>= _) >>= _ = _
    rw [hcolumn]
    rfl
  unfold TableDefinition.compile
  rw [hname, hcolumns, hproperties, hsplit]
  rfl

/-- A multi-cell collection outside the key is recorded, or it keeps the table from being compact. -/
theorem valuedBy_compile (h : t.isMultiCell = true) (compact : Bool) :
    (valuedBy t compact).compile =
      if compact then .error .collectionWithCompactStorage
      else .ok ((valuedBy t false).table (valuedSplit t) (.compoundSparse [] (some [("v", t)]))
        ⟨DefaultValue.counterOrBlob (valuedSplit t).remaining, none⟩) := by
  have hname : Naming.checkName (valuedBy t compact).name = .ok () := names_valid.1
  have hcolumns : TableDefinition.checkColumnNames [] (valuedBy t compact).columns = .ok () := by
    simp [valuedBy, TableDefinition.checkColumnNames_eq_ok_iff, names_valid.2]
  have hproperties : (valuedBy t compact).properties.check = .ok () := rfl
  have hsplit : (valuedBy t compact).keySplit = .ok (valuedSplit t) := rfl
  have hcounter := isCounter_of_isMultiCell h
  have hhas : (valuedSplit t).hasCounters = false := by
    simp [valuedSplit, KeySplit.hasCounters, hcounter]
  have hcounters : checkCounters ((valuedSplit t).remaining.map (·.type)) = .ok () :=
    checkCounters_eq_ok_iff.2 (.inr (List.forall_mem_singleton.2 hcounter))
  have hmulti : (valuedSplit t).multiCell = [⟨"v", t, false⟩] := List.filter_cons_of_pos h
  unfold TableDefinition.compile
  rw [hname, hcolumns, hproperties, hsplit]
  simp only [except_ok_bind, hhas, hcounters, hmulti]
  cases compact <;> rfl

theorem compactTable_addColumn (h : t.isMultiCell = true) :
    compactTable.addColumn ⟨"v2", t, false⟩ = .error .collectionWithCompactStorage := by
  have hname : Naming.checkColumnName "v2" = .ok () := names_valid.2 "v2" (by decide)
  have hlayout : compactTable.layoutWith ⟨"v2", t, false⟩ =
      .error .collectionWithCompactStorage := by
    unfold TableSchema.layoutWith ColumnDeclaration.isMultiCell
    rw [h]
    rfl
  unfold TableSchema.addColumn
  rw [hname, hlayout]
  rfl

/-! ### What a type is good for -/

/-- **A type fits keys** if it is not multi-cell, and only then. -/
theorem fitsKeys_iff : t.FitsKeys ↔ t.isMultiCell = false := by
  rw [← Bool.not_eq_true]
  constructor
  · exact fun h hmulti => h (keyedBy t) ⟨"k", t, false⟩ rfl rfl (keyedBy_compile hmulti)
  · rintro hsingle d c hc rfl herror
    obtain ⟨other, hother, hmulti⟩ := d.compile_failsOnly _ herror
    obtain rfl : c = other := Option.some.inj (hc.symm.trans hother)
    exact hsingle hmulti

/-- **A type stays unrecorded** if it is not multi-cell, and only then. -/
theorem staysUnrecorded_iff : t.StaysUnrecorded ↔ t.isMultiCell = false := by
  rw [← Bool.not_eq_true]
  constructor
  · intro h hmulti
    have hcompile := (valuedBy_compile hmulti false).trans (if_neg Bool.false_ne_true)
    exact (h _ _ _ (.compiled hcompile)).1 "v" rfl
  · intro hsingle d past s hs
    have hnone {version : TableSchema} {name : String} :
        version.collection? name ≠ some t :=
      fun hsome => hsingle (TableSchema.isMultiCell_of_collection? hsome)
    refine ⟨fun name hrecorded => ?_, fun c hc htype => ?_⟩
    · rw [hs.recordsCollections name] at hrecorded
      obtain ⟨version, -, hsome⟩ := List.exists_of_findSome?_eq_some hrecorded
      exact hnone hsome
    · have hcurrent : s.collection? c.name = none := by
        refine Option.eq_none_iff_forall_ne_some.2 fun type hsome => ?_
        obtain ⟨other, hother, hname, -, rfl⟩ := hs.consistent.collection?_eq_some_iff.1 hsome
        obtain rfl := hs.consistent.eq_of_name hother hc hname
        exact hnone (htype ▸ hsome)
      rw [hs.recordsCollections c.name, List.findSome?_cons, hcurrent]

/-- **A type fits compact storage** if it is not multi-cell, and only then. -/
theorem fitsCompact_iff : t.FitsCompact ↔ t.isMultiCell = false := by
  rw [← Bool.not_eq_true]
  constructor
  · intro h hmulti
    have hcompile := (valuedBy_compile hmulti true).trans (if_pos rfl)
    obtain ⟨c, hc, hother, hne⟩ := h (valuedBy t true) hcompile
    rcases List.mem_pair.1 hc with rfl | rfl
    · cases hother
    · exact hne rfl
  · intro hsingle d herror
    obtain ⟨-, c, hc, hmulti⟩ := d.compile_failsOnly _ herror
    refine ⟨c, hc, hmulti, ?_⟩
    rintro rfl
    exact hsingle hmulti

/-- **A type joins compact tables** if it is not multi-cell, and only then. -/
theorem joinsCompact_iff : t.JoinsCompact ↔ t.isMultiCell = false := by
  rw [← Bool.not_eq_true]
  constructor
  · exact fun h hmulti => h compactTable ⟨"v2", t, false⟩ rfl (compactTable_addColumn hmulti)
  · rintro hsingle s c rfl herror
    exact hsingle (s.addColumn_failsOnly c _ herror)

/-! ### Frozen texts -/

/-- **When `frozen<…>` is one value.**  Freezing leaves a type multi-cell if and only if it is a
multi-cell collection in descending order.  The same goes for a text between the brackets: for all
other types that can stand there, and for these only, a column of the type that is read fits keys,
is recorded by no layout, and fits compact storage. -/
theorem frozen_text_one_value_iff (u : ColumnType) (s : String) (t : ColumnType) :
    (u.freeze.isMultiCell = false ↔ u.isMarkedMultiCell = false) ∧
    (ofText? ("frozen<" ++ s ++ ">") = some t →
      ∃ inner, ofText? s = some inner ∧ t = inner.freeze ∧
        (t.isMultiCell = false ↔ inner.isMarkedMultiCell = false) ∧
        (t.FitsKeys ↔ inner.isMarkedMultiCell = false) ∧
        (t.StaysUnrecorded ↔ inner.isMarkedMultiCell = false) ∧
        (t.FitsCompact ↔ inner.isMarkedMultiCell = false) ∧
        (t.JoinsCompact ↔ inner.isMarkedMultiCell = false)) := by
  refine ⟨by rw [isMultiCell_freeze], fun h => ?_⟩
  obtain ⟨inner, hinner, -, rfl⟩ := ofText?_frozen_iff.1 h
  refine ⟨inner, hinner, rfl, ?_⟩
  rw [fitsKeys_iff, staysUnrecorded_iff, fitsCompact_iff, joinsCompact_iff, isMultiCell_freeze]
  exact ⟨Iff.rfl, Iff.rfl, Iff.rfl, Iff.rfl, Iff.rfl⟩

/-- A collection that is frozen below its mark stays frozen. -/
theorem frozen_text_below_mark :
    ∃ t, ofText? ("frozen<" ++ "reversed<frozen<list<int>>>" ++ ">") = some t ∧ t.FitsKeys ∧
      t.StaysUnrecorded ∧ t.FitsCompact ∧ t.JoinsCompact := by
  have hread : ofText? "reversed<frozen<list<int>>>" =
      some (.descending (.list (.scalar .int) true)) :=
    ofText?_toText (.descending (.list (.scalar .int) true))
  have hfrozen : ofText? ("frozen<" ++ "reversed<frozen<list<int>>>" ++ ">") =
      some (.descending (.list (.scalar .int) true)) :=
    ofText?_frozen_iff.2 ⟨_, hread, rfl, rfl⟩
  obtain ⟨inner, hinner, -, -, hkeys, hunrecorded, hcompact, hjoins⟩ :=
    (frozen_text_one_value_iff .text _ _).2 hfrozen
  obtain rfl := Option.some.inj (hread.symm.trans hinner)
  exact ⟨_, hfrozen, hkeys.2 rfl, hunrecorded.2 rfl, hcompact.2 rfl, hjoins.2 rfl⟩

/-- **A collection that is not frozen.**  Under a mark `frozen<…>` leaves it multi-cell, and a table
with such a column in its key is refused. -/
theorem marked_collection_not_frozen :
    (descending (list (scalar .int) false)).freeze.isMultiCell = true ∧
      ofText? ("frozen<" ++ "reversed<list<int>>" ++ ">") =
        some (.descending (.list (.scalar .int) false)) ∧
      (keyedBy (.descending (.list (.scalar .int) false))).compile =
        .error (.collectionKeyColumn "k") := by
  have hread : ofText? "reversed<list<int>>" = some (.descending (.list (.scalar .int) false)) :=
    ofText?_toText (.descending (.list (.scalar .int) false))
  exact ⟨rfl, ofText?_frozen_iff.2 ⟨_, hread, rfl, rfl⟩, keyedBy_compile rfl⟩

end ColumnType

end WideColumn
