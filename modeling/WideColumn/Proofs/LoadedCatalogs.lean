import WideColumn.Proofs.CatalogMaps
import WideColumn.Proofs.SavedCatalogs

/-!
# Catalogs of any snapshot

A snapshot lists keyspaces with their tables, and a catalog can be made of any such list.  Only the
names of the keyspaces are checked.  Of two entries for one keyspace the later counts, as a whole,
and of two tables of one name in an entry the later; and a table stands in the keyspace of its
entry, whichever keyspace it names itself.

* `Bindings.find?_foldl_insert_named` — look-ups after the insertion of named items;
* `ofSnapshot_eq_ok_iff` — **which snapshots are accepted**, and the catalog that is made of them;
* `Stands` — the table of a snapshot that is the last one of its name;
* `alterTable_of_identity` — a table of another keyspace cannot be altered where it stands;
* `filed_and_whole_performAll` — a catalog of a run comes back from its snapshot as it should;
* `filed_and_whole_iff` — **when tables have the names that they stand under and none is missing**;
* `tables_lost_and_misplaced` — a snapshot that is accepted, and neither holds.
-/

namespace WideColumn

open Effects

/-! ### Last items -/

theorem Bindings.find?_foldl_insert_named {ι α : Type} (name : ι → String) (value : ι → α)
    (items : List ι) (m : Bindings String α) (key : String) :
    find? key (items.foldl (fun m i => insert (name i) (value i) m) m) =
      ((items.reverse.find? fun i => name i = key).map value).or (find? key m) := by
  induction items generalizing m with
  | nil => rfl
  | cons i rest ih =>
    rw [List.foldl_cons, ih, List.reverse_cons, List.find?_append, find?_insert]
    by_cases hkey : name i = key
    · simp [hkey]
    · simp [hkey, Ne.symm hkey]

/-- Where names are apart, each item is the last one of its name. -/
theorem find?_reverse_of_nodup {ι : Type} {name : ι → String} {items : List ι}
    (h : (items.map name).Nodup) {i : ι} (hi : i ∈ items) :
    items.reverse.find? (fun j => name j = name i) = some i := by
  have hreverse : (items.reverse.map name).Nodup := by rwa [List.map_reverse, List.nodup_reverse]
  exact (find?_name_eq_some_iff hreverse).2 ⟨List.mem_reverse.2 hi, rfl⟩

namespace Catalog

/-- The last entry for a keyspace. -/
def lastKeyspace? (snapshot : List KeyspaceSnapshot) (keyspace : String) :
    Option KeyspaceSnapshot :=
  snapshot.reverse.find? fun k => k.name = keyspace

/-- The last table of a name. -/
def KeyspaceSnapshot.lastTable? (k : KeyspaceSnapshot) (name : String) : Option TableSchema :=
  k.tables.reverse.find? fun s => s.name = name

/-- The table is the last one of its name in the last entry for a keyspace. -/
def Stands (snapshot : List KeyspaceSnapshot) (keyspace name : String) (s : TableSchema) : Prop :=
  ∃ k, lastKeyspace? snapshot keyspace = some k ∧ k.lastTable? name = some s

/-- Every table of the snapshot stands in the catalog, in the keyspace of its entry. -/
def Whole (snapshot : List KeyspaceSnapshot) (c : Catalog) : Prop :=
  ∀ k ∈ snapshot, ∀ s ∈ k.tables, c.table k.name s.name = .ok s

/-! ### Accepted snapshots -/

variable {snapshot : List KeyspaceSnapshot} {c c' : Catalog}

/-- The keyspace that is made of an entry. -/
def KeyspaceSnapshot.filled (k : KeyspaceSnapshot) : Keyspace :=
  k.tables.foldl Keyspace.publish ⟨k.name, k.durableWrites, []⟩

theorem tables_foldl_publish (tables : List TableSchema) (k : Keyspace) :
    (tables.foldl Keyspace.publish k).tables =
      tables.foldl (fun m s => Bindings.insert s.name s m) k.tables := by
  induction tables generalizing k with
  | nil => rfl
  | cons s rest ih => exact ih (k.publish s)

theorem find?_filled (k : KeyspaceSnapshot) (name : String) :
    k.filled.tables.find? name = k.lastTable? name := by
  rw [KeyspaceSnapshot.filled, tables_foldl_publish]
  have hfound := Bindings.find?_foldl_insert_named TableSchema.name id k.tables [] name
  rwa [Option.map_id_fun, id_eq, Bindings.find?_nil, Option.or_none] at hfound

theorem restoreKeyspace_eq_ok_iff {entry : KeyspaceSnapshot} {k : Keyspace} :
    restoreKeyspace entry = .ok k ↔ Naming.checkName entry.name = .ok () ∧ k = entry.filled := by
  unfold restoreKeyspace
  rw [except_bind_eq_ok]
  constructor
  · rintro ⟨⟨⟩, hname, hk⟩
    cases hk
    exact ⟨hname, rfl⟩
  · rintro ⟨hname, rfl⟩
    exact ⟨(), hname, rfl⟩

theorem restore_eq_ok_iff :
    restore c snapshot = .ok c' ↔
      (∀ k ∈ snapshot, Naming.checkName k.name = .ok ()) ∧
        c' = ⟨snapshot.foldl (fun m k => m.insert k.name k.filled) c.keyspaces⟩ := by
  induction snapshot generalizing c with
  | nil => simp [restore, eq_comm]
  | cons entry rest ih =>
    rw [restore, except_bind_eq_ok, List.forall_mem_cons]
    constructor
    · rintro ⟨k, hk, hrest⟩
      obtain ⟨hname, rfl⟩ := restoreKeyspace_eq_ok_iff.1 hk
      obtain ⟨hnames, hc'⟩ := ih.1 hrest
      exact ⟨⟨hname, hnames⟩, hc'⟩
    · rintro ⟨⟨hname, hnames⟩, hc'⟩
      exact ⟨entry.filled, restoreKeyspace_eq_ok_iff.2 ⟨hname, rfl⟩, ih.2 ⟨hnames, hc'⟩⟩

/-- **Which snapshots are accepted**, and the catalog that is made of them. -/
theorem ofSnapshot_eq_ok_iff :
    ofSnapshot snapshot = .ok c ↔
      (∀ k ∈ snapshot, Naming.checkName k.name = .ok ()) ∧
        c = ⟨snapshot.foldl (fun m k => m.insert k.name k.filled) []⟩ :=
  restore_eq_ok_iff

theorem keyspace?_ofSnapshot (h : ofSnapshot snapshot = .ok c) (keyspace : String) :
    c.keyspace? keyspace = (lastKeyspace? snapshot keyspace).map KeyspaceSnapshot.filled := by
  obtain ⟨-, rfl⟩ := ofSnapshot_eq_ok_iff.1 h
  show Bindings.find? keyspace _ = _
  rw [Bindings.find?_foldl_insert_named KeyspaceSnapshot.name KeyspaceSnapshot.filled,
    Bindings.find?_nil, Option.or_none]
  rfl

/-- The tables of the catalog are the last ones of their names. -/
theorem table_ofSnapshot (h : ofSnapshot snapshot = .ok c) {keyspace name : String}
    {s : TableSchema} : c.table keyspace name = .ok s ↔ Stands snapshot keyspace name s := by
  rw [table_eq_ok_iff, keyspace?_ofSnapshot h]
  simp only [Option.map_eq_some_iff, exists_exists_and_eq_and, find?_filled, Stands]

theorem Stands.name_eq {keyspace name : String} {s : TableSchema}
    (h : Stands snapshot keyspace name s) : s.name = name := by
  obtain ⟨k, -, hs⟩ := h
  simpa using List.find?_some hs

/-- A table that stands in a keyspace is in an entry for it. -/
theorem Stands.exists_entry {keyspace name : String} {s : TableSchema}
    (h : Stands snapshot keyspace name s) : ∃ k ∈ snapshot, k.name = keyspace ∧ s ∈ k.tables := by
  obtain ⟨k, hk, hs⟩ := h
  have hname : k.name = keyspace := by simpa using List.find?_some hk
  exact ⟨k, List.mem_reverse.1 (List.mem_of_find?_eq_some hk), hname,
    List.mem_reverse.1 (List.mem_of_find?_eq_some hs)⟩

/-- No keyspace is missing. -/
theorem exists_keyspace?_ofSnapshot (h : ofSnapshot snapshot = .ok c) {k : KeyspaceSnapshot}
    (hk : k ∈ snapshot) : ∃ k', c.keyspace? k.name = some k' := by
  rw [keyspace?_ofSnapshot h]
  have hthere : (lastKeyspace? snapshot k.name).isSome :=
    List.find?_isSome.2 ⟨k, List.mem_reverse.2 hk, by simp⟩
  obtain ⟨k', hk'⟩ := Option.isSome_iff_exists.1 hthere
  exact ⟨k'.filled, by rw [hk', Option.map_some]⟩

/-! ### Where tables stand -/

/-- An alteration that keeps the names of a table succeeds if the table names the keyspace that it
stands in, and only then. -/
theorem alterTable_of_identity {keyspace name : String} {s next : TableSchema}
    (hs : c.table keyspace name = .ok s) (hname : s.name = name)
    {alter : TableSchema → Except SchemaError TableSchema} (halter : alter s = .ok next)
    (hsame : next.keyspace = s.keyspace ∧ next.name = s.name) :
    (s.keyspace = keyspace → ∃ c', c.alterTable keyspace name alter = .ok (c', next)) ∧
      (s.keyspace ≠ keyspace →
        c.alterTable keyspace name alter = .error (.invalidAlteration s.id .identityChange)) := by
  obtain ⟨k, hk, -⟩ := table_eq_ok_iff.1 hs
  have halterTable : c.alterTable keyspace name alter =
      if next.name ≠ name ∨ next.keyspace ≠ keyspace then
        .error (.invalidAlteration s.id .identityChange)
      else .ok (c.withKeyspace keyspace (k.publish next), next) := by
    rw [alterTable, requireKeyspace_eq_ok_iff.2 hk, except_ok_bind, hs, except_ok_bind, halter,
      except_ok_bind]
    rfl
  rw [halterTable, hsame.1, hsame.2, hname]
  constructor
  · intro hkeyspace
    rw [if_neg (not_or.2 ⟨not_not_intro rfl, not_not_intro hkeyspace⟩)]
    exact ⟨_, rfl⟩
  · intro hkeyspace
    rw [if_pos (.inr hkeyspace)]

/-- A table is dropped where it stands. -/
theorem dropTable_of_table {keyspace name : String} {s : TableSchema}
    (hs : c.table keyspace name = .ok s) : ∃ c', c.dropTable keyspace name = .ok (c', s) := by
  obtain ⟨k, hk, -⟩ := table_eq_ok_iff.1 hs
  rw [dropTable, requireKeyspace_eq_ok_iff.2 hk, except_ok_bind, hs]
  exact ⟨_, rfl⟩

theorem filed_ofSnapshot (h : ofSnapshot snapshot = .ok c) :
    c.Filed ↔ ∀ keyspace name s, Stands snapshot keyspace name s → s.keyspace = keyspace := by
  constructor
  · intro hfiled keyspace name s hs
    exact (hfiled keyspace name s ((table_ofSnapshot h).2 hs)).1
  · intro hkeyspaces keyspace name s hs
    have hstands := (table_ofSnapshot h).1 hs
    exact ⟨hkeyspaces keyspace name s hstands, hstands.name_eq⟩

theorem whole_ofSnapshot (h : ofSnapshot snapshot = .ok c) :
    Whole snapshot c ↔ ∀ k ∈ snapshot, ∀ s ∈ k.tables, Stands snapshot k.name s.name s :=
  forall₂_congr fun _ _ => forall₂_congr fun _ _ => table_ofSnapshot h

/-- Where names are apart, each table is the last one of its name. -/
theorem stands_of_nodup (hentries : (snapshot.map KeyspaceSnapshot.name).Nodup)
    {k : KeyspaceSnapshot} (hk : k ∈ snapshot) (htables : (k.tables.map TableSchema.name).Nodup)
    {s : TableSchema} (hs : s ∈ k.tables) : Stands snapshot k.name s.name s :=
  ⟨k, find?_reverse_of_nodup hentries hk, find?_reverse_of_nodup htables hs⟩

/-- The tables of its own snapshot are all in a catalog. -/
theorem Keyed.whole_snapshot (h : c.Keyed) : Whole c.snapshot c := by
  intro entry hentry s hs
  obtain ⟨k, hk, rfl⟩ := List.mem_map.1 hentry
  obtain ⟨⟨keyspace, k⟩, hbinding, rfl⟩ := List.mem_map.1 hk
  obtain ⟨⟨name, s⟩, htable, rfl⟩ := List.mem_map.1 hs
  obtain ⟨hkeyspace, hkeyed⟩ := h.keyspaces (keyspace, k) hbinding
  have hname : s.name = name := hkeyed.tables (name, s) htable
  show c.table k.name s.name = .ok s
  rw [hkeyspace, hname]
  exact table_eq_ok_iff.2 ⟨k, Bindings.find?_eq_some_of_mem h.sorted hbinding,
    Bindings.find?_eq_some_of_mem hkeyed.sorted htable⟩

/-- **What a run of requests has made of a catalog is loaded from its snapshot as it should be.** -/
theorem filed_and_whole_performAll (requests : List Request) :
    ofSnapshot (empty.performAll requests).snapshot = .ok (empty.performAll requests) ∧
      (empty.performAll requests).Filed ∧
      Whole (empty.performAll requests).snapshot (empty.performAll requests) := by
  have hkeyed : (empty.performAll requests).Keyed := keyed_empty.performAll requests
  refine ⟨ofSnapshot_snapshot hkeyed, ?_, hkeyed.whole_snapshot⟩
  rw [performAll_eq_run]
  exact filed_empty.run _

/-- What a catalog holds of a snapshot. -/
structure HoldsLast (snapshot : List KeyspaceSnapshot) (c : Catalog) : Prop where
  keyspaces : ∀ k ∈ snapshot, ∃ k', c.keyspace? k.name = some k'
  tables : ∀ keyspace name s, c.table keyspace name = .ok s ↔ Stands snapshot keyspace name s
  named : ∀ keyspace name s, c.table keyspace name = .ok s → s.name = name
  altered : ∀ keyspace name s, c.table keyspace name = .ok s →
    ∀ alter next, alter s = .ok next → next.keyspace = s.keyspace ∧ next.name = s.name →
      (s.keyspace = keyspace → ∃ c', c.alterTable keyspace name alter = .ok (c', next)) ∧
        (s.keyspace ≠ keyspace →
          c.alterTable keyspace name alter = .error (.invalidAlteration s.id .identityChange))
  dropped : ∀ keyspace name s, c.table keyspace name = .ok s →
    ∃ c', c.dropTable keyspace name = .ok (c', s)

theorem holdsLast_ofSnapshot (h : ofSnapshot snapshot = .ok c) : HoldsLast snapshot c where
  keyspaces _ hk := exists_keyspace?_ofSnapshot h hk
  tables _ _ _ := table_ofSnapshot h
  named _ _ _ hs := ((table_ofSnapshot h).1 hs).name_eq
  altered _ _ _ hs _ _ halter hsame :=
    alterTable_of_identity hs ((table_ofSnapshot h).1 hs).name_eq halter hsame
  dropped _ _ _ hs := dropTable_of_table hs

/-- **When tables have the names that they stand under and none is missing.**  A snapshot is
accepted if the names of its keyspaces are valid.  The catalog then holds the last table of each
name.  These have the keyspaces that they stand in, and are all tables of the snapshot, if and only
if each table of the snapshot names the keyspace of its entry and is the last one of its name
there. -/
theorem filed_and_whole_iff (snapshot : List KeyspaceSnapshot) :
    ((∃ c, ofSnapshot snapshot = .ok c) ↔ ∀ k ∈ snapshot, Naming.checkName k.name = .ok ()) ∧
      ∀ c, ofSnapshot snapshot = .ok c → HoldsLast snapshot c ∧
        (c.Filed ↔ ∀ keyspace name s, Stands snapshot keyspace name s → s.keyspace = keyspace) ∧
        (c.Filed ∧ Whole snapshot c ↔ ∀ k ∈ snapshot, ∀ s ∈ k.tables,
          s.keyspace = k.name ∧ Stands snapshot k.name s.name s) := by
  constructor
  · constructor
    · rintro ⟨c, h⟩
      exact (ofSnapshot_eq_ok_iff.1 h).1
    · intro hnames
      exact ⟨_, ofSnapshot_eq_ok_iff.2 ⟨hnames, rfl⟩⟩
  · intro c h
    refine ⟨holdsLast_ofSnapshot h, filed_ofSnapshot h, ?_⟩
    rw [whole_ofSnapshot h]
    constructor
    · rintro ⟨hfiled, hwhole⟩ k hk s hs
      have hstands := hwhole k hk s hs
      exact ⟨(hfiled k.name s.name s ((table_ofSnapshot h).2 hstands)).1, hstands⟩
    · intro hall
      refine ⟨(filed_ofSnapshot h).2 ?_, fun k hk s hs => (hall k hk s hs).2⟩
      intro keyspace name s hs
      obtain ⟨k, hk, rfl, htable⟩ := hs.exists_entry
      exact (hall k hk s htable).1

/-- A table of names. -/
def namesTable (keyspace name column : String) : TableSchema where
  keyspace
  name
  keyLayout := .single .text
  cellLayout := .compoundSparse [] none
  defaultType := .blob
  isDense := false
  isCompact := false
  columns := [⟨column, .text, .partitionKey, none⟩]
  compactValue := none
  properties := {}

/-- A harbor with the boats of a lake, and an entry that is not the last one for it. -/
def harborSnapshot : List KeyspaceSnapshot :=
  [⟨"harbor", true, [namesTable "harbor" "berths" "berth"]⟩,
    ⟨"harbor", true, [namesTable "lake" "boats" "boat"]⟩]

/-- A snapshot that is accepted: one of its tables is missing, and the other one has another
keyspace than the one that it stands in and cannot be altered. -/
theorem tables_lost_and_misplaced : ∃ c, ofSnapshot harborSnapshot = .ok c ∧
    c.table "harbor" "berths" = .error (.tableNotFound "harbor.berths") ∧
    c.table "harbor" "boats" = .ok (namesTable "lake" "boats" "boat") ∧
    c.alterTable "harbor" "boats" .ok = .error (.invalidAlteration "lake.boats" .identityChange) ∧
    ¬c.Filed ∧ ¬Whole harborSnapshot c := by
  refine ⟨_, rfl, by decide, by decide, by decide, ?_, ?_⟩
  · intro hfiled
    have hkeyspace := (hfiled "harbor" "boats" (namesTable "lake" "boats" "boat") (by decide)).1
    exact absurd hkeyspace (by decide)
  · intro hwhole
    have hfound := hwhole _ List.mem_cons_self _ List.mem_cons_self
    exact absurd hfound (by decide)

/-- Boats and berths of one harbor. -/
def fleetSnapshot : List KeyspaceSnapshot :=
  [⟨"harbor", true, [namesTable "harbor" "berths" "berth", namesTable "harbor" "boats" "boat"]⟩]

/-- Tables that are all there, under their names. -/
theorem filed_and_whole_fleet : ∃ c, ofSnapshot fleetSnapshot = .ok c ∧
    c.Filed ∧ Whole fleetSnapshot c := by
  have hapart : (fleetSnapshot.map KeyspaceSnapshot.name).Nodup := by decide
  have hlast : ∀ k ∈ fleetSnapshot, ∀ s ∈ k.tables,
      s.keyspace = k.name ∧ Stands fleetSnapshot k.name s.name s := by
    intro k hk s hs
    have hkeyspace : ∀ k ∈ fleetSnapshot, ∀ s ∈ k.tables, s.keyspace = k.name := by decide
    have htables : ∀ k ∈ fleetSnapshot, (k.tables.map TableSchema.name).Nodup := by decide
    exact ⟨hkeyspace k hk s hs, stands_of_nodup hapart hk (htables k hk) hs⟩
  exact ⟨_, rfl, ((filed_and_whole_iff fleetSnapshot).2 _ rfl).2.2.2 hlast⟩

end Catalog

end WideColumn
