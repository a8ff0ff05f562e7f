import WideColumn.Proofs.CatalogRuns
import WideColumn.Proofs.TableTypes
import WideColumn.Schema.Version

/-!
# Catalogs that are saved and loaded

A catalog is saved as a text and comes back from it.  Whatever requests have made of it, loading
succeeds and gives the same keyspaces with the same tables.  Only their types are read from texts,
and there several descending marks in a row are one.  No text stands for a type that has them, but a
column can be declared with one, and its table comes back as another.

* `ofSnapshot_snapshot` — a catalog is what its snapshot says;
* `load_save` — **a saved catalog is loaded with its types reread**;
* `load_save_eq_self_iff` — it is the same catalog if and only if no type has double marks;
* `load_save_performAll` — **whatever a run of requests has made of a catalog comes back**, and when
  it is the same;
* `double_marks_not_restored` — a run after which it is not.
-/

namespace WideColumn

open Effects

/-! ### Snapshots -/

/-- The keyspace as it stands in a snapshot. -/
def Keyspace.snapshot (k : Keyspace) : Catalog.KeyspaceSnapshot :=
  ⟨k.name, k.durableWrites, k.tables.values⟩

namespace Catalog

variable {c : Catalog}

theorem snapshot_eq (c : Catalog) : c.snapshot = c.keyspaces.values.map Keyspace.snapshot := rfl

/-- Tables that stand under their names are put back in their places. -/
theorem foldl_publish {tables : Bindings String TableSchema} (h : ∀ b ∈ tables, b.2.name = b.1)
    (k : Keyspace) :
    tables.values.foldl Keyspace.publish k =
      { k with tables := tables.foldl (fun m (name, s) => Bindings.insert name s m) k.tables } := by
  induction tables generalizing k with
  | nil => rfl
  | cons binding rest ih =>
    obtain ⟨hname, hrest⟩ := List.forall_mem_cons.1 h
    show (Bindings.values rest).foldl Keyspace.publish (k.publish binding.2) = _
    rw [ih hrest, Keyspace.publish, hname]
    rfl

/-- A keyspace is what its snapshot says. -/
theorem restoreKeyspace_snapshot {k : Keyspace} (h : k.Keyed) :
    restoreKeyspace k.snapshot = .ok k := by
  have htables : k.tables.foldl (fun m (name, s) => Bindings.insert name s m) [] = k.tables :=
    Bindings.ofList_eq_self h.sorted
  refine except_bind_eq_ok.2 ⟨(), h.name, ?_⟩
  show Except.ok (k.tables.values.foldl Keyspace.publish ⟨k.name, k.durableWrites, []⟩) = _
  rw [foldl_publish h.tables, htables]

theorem restore_snapshots {keyspaces : Bindings String Keyspace}
    (h : ∀ b ∈ keyspaces, b.2.name = b.1 ∧ b.2.Keyed) (c : Catalog) :
    restore c (keyspaces.values.map Keyspace.snapshot) =
      .ok ⟨keyspaces.foldl (fun m (name, k) => Bindings.insert name k m) c.keyspaces⟩ := by
  induction keyspaces generalizing c with
  | nil => rfl
  | cons binding rest ih =>
    obtain ⟨⟨hname, hkeyed⟩, hrest⟩ := List.forall_mem_cons.1 h
    refine except_bind_eq_ok.2 ⟨binding.2, restoreKeyspace_snapshot hkeyed, ?_⟩
    show restore (c.withKeyspace binding.2.name binding.2)
      ((Bindings.values rest).map Keyspace.snapshot) = _
    rw [ih hrest, hname]
    rfl

/-- **A catalog is what its snapshot says.** -/
theorem ofSnapshot_snapshot (h : c.Keyed) : ofSnapshot c.snapshot = .ok c := by
  have hkeyspaces : Bindings.ofList c.keyspaces = c.keyspaces :=
    Bindings.ofList_eq_self h.sorted
  unfold ofSnapshot
  rw [snapshot_eq, restore_snapshots h.keyspaces]
  show Except.ok (Catalog.mk (Bindings.ofList c.keyspaces)) = _
  rw [hkeyspaces]

/-! ### Types reread -/

end Catalog

/-- The keyspace with the types of its tables reread. -/
def Keyspace.reread (k : Keyspace) : Keyspace :=
  { k with tables := k.tables.mapValues TableSchema.reread }

theorem Keyspace.Keyed.reread {k : Keyspace} (h : k.Keyed) : k.reread.Keyed := by
  refine ⟨h.name, Bindings.mapValues_sorted _ h.sorted, fun b hb => ?_⟩
  obtain ⟨⟨name, s⟩, hs, rfl⟩ := List.mem_map.1 hb
  exact h.tables (name, s) hs

theorem Keyspace.snapshot_reread (k : Keyspace) : k.reread.snapshot = k.snapshot.reread := by
  unfold snapshot reread Catalog.KeyspaceSnapshot.reread Bindings.values Bindings.mapValues
  simp only [List.map_map]
  rfl

namespace Catalog

variable {c : Catalog}

/-- The catalog with the types of its tables reread. -/
def reread (c : Catalog) : Catalog := { keyspaces := c.keyspaces.mapValues Keyspace.reread }

theorem Keyed.reread (h : c.Keyed) : c.reread.Keyed := by
  refine ⟨Bindings.mapValues_sorted _ h.sorted, fun b hb => ?_⟩
  obtain ⟨⟨name, k⟩, hk, rfl⟩ := List.mem_map.1 hb
  obtain ⟨hname, hkeyed⟩ := h.keyspaces (name, k) hk
  exact ⟨hname, hkeyed.reread⟩

theorem snapshot_reread (c : Catalog) :
    c.reread.snapshot = c.snapshot.map KeyspaceSnapshot.reread := by
  rw [snapshot_eq, snapshot_eq]
  unfold reread Bindings.values Bindings.mapValues
  simp only [List.map_map]
  exact List.map_congr_left fun b _ => b.2.snapshot_reread

/-- Rereading leaves a catalog alone if and only if none of its tables has double marks. -/
theorem reread_eq_self_iff : c.reread = c ↔ ∀ s ∈ c.tables, s.SingleMarks := by
  have hkeyspace (k : Keyspace) : k.reread = k ↔ ∀ b ∈ k.tables, b.2.SingleMarks := by
    have htables : k.reread = k ↔ k.tables.mapValues TableSchema.reread = k.tables := by
      constructor
      · exact congrArg Keyspace.tables
      · intro h
        rw [Keyspace.reread, h]
    rw [htables, Bindings.mapValues_eq_self_iff]
    exact forall₂_congr fun b _ => TableSchema.reread_eq_self_iff
  have hkeyspaces : c.reread = c ↔ c.keyspaces.mapValues Keyspace.reread = c.keyspaces := by
    constructor
    · exact congrArg Catalog.keyspaces
    · intro h
      rw [reread, h]
  rw [hkeyspaces, Bindings.mapValues_eq_self_iff]
  constructor
  · intro h s hs
    obtain ⟨b, hb, b', hb', rfl⟩ := mem_tables.1 hs
    exact (hkeyspace b.2).1 (h b hb) b' hb'
  · intro h b hb
    exact (hkeyspace b.2).2 fun b' hb' => h b'.2 (mem_tables.2 ⟨b, hb, b', hb', rfl⟩)

/-! ### Saving and loading -/

/-- **A saved catalog is loaded with its types reread.** -/
theorem load_save (h : c.Keyed) (hstorable : ∀ s ∈ c.tables, s.Storable) :
    load (save c) = .ok c.reread := by
  have htables : ∀ k ∈ c.snapshot, ∀ s ∈ k.tables, s.Storable := by
    intro k hk s hs
    rw [snapshot_eq] at hk
    obtain ⟨keyspace, hkeyspace, rfl⟩ := List.mem_map.1 hk
    exact hstorable s (List.mem_flatMap.2 ⟨keyspace, hkeyspace, hs⟩)
  unfold load save
  -- A snapshot takes seven of the 127 levels that may stand in each other.
  rw [Json.ofText?_pretty (snapshotToJson_writable htables 120), Option.bind_some,
    snapshotOfJson?_toJson htables, ← snapshot_reread]
  show (ofSnapshot c.reread.snapshot).mapError LoadError.refused = _
  rw [ofSnapshot_snapshot h.reread]
  rfl

/-- It is the same catalog if and only if no type has double marks. -/
theorem load_save_eq_self_iff (h : c.Keyed) (hstorable : ∀ s ∈ c.tables, s.Storable) :
    load (save c) = .ok c ↔ ∀ s ∈ c.tables, s.SingleMarks := by
  rw [load_save h hstorable, Except.ok.injEq, reread_eq_self_iff]

/-! ### Runs -/

/-- The types that a request names. -/
def Request.types : Request → List ColumnType
  | createTable d _ => d.columns.map (·.type)
  | alterTable _ _ changes => changes.flatMap SchemaChange.types
  | createKeyspace .. | dropKeyspace _ | dropTable .. => []

/-- The tables of a run are consistent, and their collections are in order. -/
theorem consistent_performAll (requests : List Request) :
    ∀ s ∈ (empty.performAll requests).tables, s.Consistent ∧ s.Ordered :=
  tables_performAll (P := fun s => s.Consistent ∧ s.Ordered)
    (fun _ _ _ _ hcompile => ⟨TableDefinition.consistent_of_compile hcompile,
      TableSchema.ordered_of_compile hcompile⟩)
    (fun _ _ _ _ _ _ _ _ h hchange => ⟨h.1.change hchange, h.2.change hchange⟩)
    fun _ hs => absurd hs not_mem_tables_empty

/-- Double marks do not come about in a run. -/
theorem singleMarks_performAll {requests : List Request}
    (h : ∀ r ∈ requests, ∀ t ∈ r.types, t.hasSingleMarks = true) :
    ∀ s ∈ (empty.performAll requests).tables, s.SingleMarks := by
  refine tables_performAll (P := TableSchema.SingleMarks) ?_ ?_
    fun _ hs => absurd hs not_mem_tables_empty
  · intro d ifNotExists hr s hcompile
    exact TableSchema.singleMarks_of_compile hcompile fun c hc =>
      h _ hr _ (List.mem_map_of_mem hc)
  · intro keyspace name changes hr change hchange s s' hs hnext
    exact hs.change (fun t ht => h _ hr _ (List.mem_flatMap.2 ⟨change, hchange, ht⟩)) hnext

/-- The tables of a run can be written, if they have no more columns than words have values. -/
theorem storable_performAll {requests : List Request}
    (hcolumns : ∀ s ∈ (empty.performAll requests).tables,
      s.columns.length ≤ 0x10000000000000000) :
    ∀ s ∈ (empty.performAll requests).tables, s.Storable := by
  intro s hs
  obtain ⟨hconsistent, hordered⟩ := consistent_performAll requests s hs
  exact hconsistent.storable hordered (hcolumns s hs)

/-- **Whatever a run of requests has made of a catalog comes back**: keyspaces, tables and all that
they say, with their types reread.  It is the same catalog if and only if no type of its tables has
double marks, which is so if every type in the requests is one that can be written. -/
theorem load_save_performAll {requests : List Request}
    (hcolumns : ∀ s ∈ (empty.performAll requests).tables,
      s.columns.length ≤ 0x10000000000000000) :
    load (save (empty.performAll requests)) = .ok (empty.performAll requests).reread ∧
      (load (save (empty.performAll requests)) = .ok (empty.performAll requests) ↔
        ∀ s ∈ (empty.performAll requests).tables, s.SingleMarks) ∧
      ((∀ r ∈ requests, ∀ t ∈ r.types, ∃ text, ColumnType.ofText? text = some t) →
        load (save (empty.performAll requests)) = .ok (empty.performAll requests)) := by
  have hkeyed : (empty.performAll requests).Keyed := keyed_empty.performAll requests
  have hstorable := storable_performAll hcolumns
  have hsame := load_save_eq_self_iff hkeyed hstorable
  refine ⟨load_save hkeyed hstorable, hsame, fun hwritten => hsame.2 ?_⟩
  exact singleMarks_performAll fun r hr t ht => ColumnType.exists_ofText?_iff.1 (hwritten r hr t ht)

/-- A table that is altered, beside a keyspace that comes and goes. -/
def harbourRequests : List Request :=
  [.createKeyspace "harbours" true, .createKeyspace "archive" false,
    .createTable TableDefinition.berthsDefinition false,
    .alterTable "harbours" "berths" TableDefinition.berthsChanges, .dropKeyspace "archive",
    .createTable TableDefinition.berthsDefinition true]

theorem load_save_performAll_harbours :
    (∀ s ∈ (empty.performAll harbourRequests).tables,
        s.columns.length ≤ 0x10000000000000000) ∧
      (∀ r ∈ harbourRequests, ∀ t ∈ r.types, ∃ text, ColumnType.ofText? text = some t) ∧
      (empty.performAll harbourRequests).keyspaceNames = ["harbours"] ∧
      (empty.performAll harbourRequests).tableNames "harbours" = .ok ["berths"] ∧
      load (save (empty.performAll harbourRequests)) =
        .ok (empty.performAll harbourRequests) := by
  have hcolumns : ∀ s ∈ (empty.performAll harbourRequests).tables,
      s.columns.length ≤ 0x10000000000000000 := by decide +kernel
  have hmarks : ∀ r ∈ harbourRequests, ∀ t ∈ r.types, t.hasSingleMarks = true := by decide
  have hwritten : ∀ r ∈ harbourRequests, ∀ t ∈ r.types,
      ∃ text, ColumnType.ofText? text = some t :=
    fun r hr t ht => ColumnType.exists_ofText?_iff.2 (hmarks r hr t ht)
  exact ⟨hcolumns, hwritten, by decide +kernel, by decide +kernel,
    (load_save_performAll hcolumns).2.2 hwritten⟩

/-- Soundings at berths: a depth is declared with two marks in a row. -/
def soundingsDefinition : TableDefinition where
  keyspace := "harbours"
  name := "soundings"
  columns := [⟨"berth", .text, false⟩, ⟨"depth", .descending (.descending (.scalar .int)), false⟩]
  partitionKeys := [["berth"]]

def soundingsRequests : List Request :=
  [.createKeyspace "harbours" true, .createTable soundingsDefinition false]

/-- **Two marks in a row come back as one.**  The table is accepted, saved and loaded, and is
another one then. -/
theorem double_marks_not_restored :
    ∃ s s' c, (empty.performAll soundingsRequests).table "harbours" "soundings" = .ok s ∧
      s.columns.map (·.type) = [.text, .descending (.descending (.scalar .int))] ∧
      load (save (empty.performAll soundingsRequests)) = .ok c ∧
      c.table "harbours" "soundings" = .ok s' ∧
      s'.columns.map (·.type) = [.text, .descending (.scalar .int)] ∧ s'.version ≠ s.version ∧
      load (save (empty.performAll soundingsRequests)) ≠
        .ok (empty.performAll soundingsRequests) := by
  have hkeyed : (empty.performAll soundingsRequests).Keyed := keyed_empty.performAll _
  have hstorable : ∀ s ∈ (empty.performAll soundingsRequests).tables, s.Storable :=
    storable_performAll (by decide +kernel)
  refine ⟨_, _, _, rfl, rfl, load_save hkeyed hstorable, rfl, rfl, by decide +kernel, ?_⟩
  intro hsame
  have hmarks := (load_save_eq_self_iff hkeyed hstorable).1 hsame
  unfold TableSchema.SingleMarks at hmarks
  exact absurd hmarks (by decide +kernel)

end Catalog

end WideColumn
