import WideColumn.Catalog
import WideColumn.Proofs.JsonTexts
import WideColumn.Proofs.SortedBindings
import WideColumn.Proofs.TypeNotation

/-!
# Tables and their JSON forms

What is read of the JSON form of a table is the table again, with every type reread from its text.
The form of a table can be written as a text, too.

* `Json.fields?_object` — the fields of an object whose names are those asked for, in order;
* `TableSchema.Storable` — places fit into words, and collections are in order;
* `TableSchema.ofJson?_toJson` — **the form of a storable table is read as the table reread**;
* `TableSchema.toJson_writable` — **and it can be written**;
* `TableSchema.reread_eq_self_iff` — rereading changes a table only where a type has double marks;
* `KeyspaceSnapshot.ofJson?_toJson`, `Catalog.snapshotOfJson?_toJson` — so for keyspaces and whole
  snapshots.
-/

namespace WideColumn

namespace Json

/-! ### Objects -/

/-- Where names are apart, the value of a member is found by its name. -/
theorem lookup?_of_mem {members : List (String × Json)} (h : (members.map Prod.fst).Nodup)
    {m : String × Json} (hm : m ∈ members) : lookup? m.1 members = some (some m.2) := by
  have hfilter : members.filter (·.1 = m.1) = [m] := by
    induction members with
    | nil => cases hm
    | cons head rest ih =>
      obtain ⟨hfirst, hrest⟩ := List.nodup_cons.1 h
      rcases List.mem_cons.1 hm with rfl | hm
      · rw [List.filter_cons_of_pos (by simp), List.filter_eq_nil_iff.2 fun other hother => ?_]
        simp only [decide_eq_true_eq]
        exact fun hsame => hfirst (List.mem_map.2 ⟨other, hother, hsame⟩)
      · rw [List.filter_cons_of_neg, ih hrest hm]
        simp only [decide_eq_true_eq]
        exact fun hsame => hfirst (List.mem_map.2 ⟨m, hm, hsame.symm⟩)
  unfold lookup?
  rw [hfilter]

theorem namedFields?_eq {members fields : List (String × Json)} {names : List (String × Presence)}
    (h : ∀ m ∈ fields, lookup? m.1 members = some (some m.2))
    (hnames : fields.map Prod.fst = names.map Prod.fst) :
    namedFields? members names = some (fields.map fun m => some m.2) := by
  induction names generalizing fields with
  | nil =>
    obtain rfl := List.map_eq_nil_iff.1 hnames
    rfl
  | cons head rest ih =>
    obtain ⟨m, fields, rfl⟩ := List.exists_cons_of_ne_nil (l := fields) (by
      rintro rfl
      cases hnames)
    obtain ⟨hname, hrest⟩ := List.cons.inj hnames
    obtain ⟨hm, hfields⟩ := List.forall_mem_cons.1 h
    obtain ⟨name, presence⟩ := head
    rw [hname] at hm
    rw [namedFields?, hm, ih hfields hrest]
    rfl

/-- **The fields of an object** that has the fields that are asked for, in this order. -/
theorem fields?_object {members : List (String × Json)} {names : List (String × Presence)}
    (hnames : members.map Prod.fst = names.map Prod.fst) (h : (names.map Prod.fst).Nodup) :
    (object members).fields? names = some (members.map fun m => some m.2) :=
  namedFields?_eq (fun _ hm => lookup?_of_mem (hnames ▸ h) hm) hnames

/-- A variant whose name is the first member, and the other members without it. -/
theorem variant?_object {tag name : String} {members : List (String × Json)}
    (hread : (object ((tag, text name) :: members)).isReadable = true)
    (h : tag ∉ members.map Prod.fst) :
    (object ((tag, text name) :: members)).variant? tag = some (name, object members) := by
  have hothers : ∀ m ∈ members, decide (m.1 ≠ tag) = true := by
    intro m hm
    exact decide_eq_true fun hsame => h (List.mem_map.2 ⟨m, hm, hsame⟩)
  have hnone : members.filter (·.1 = tag) = [] :=
    List.filter_eq_nil_iff.2 fun m hm => by simpa using hothers m hm
  have hfound : lookup? tag ((tag, text name) :: members) = some (some (text name)) := by
    unfold lookup?
    rw [List.filter_cons_of_pos (by simp), hnone]
  unfold variant?
  rw [hread]
  simp only [hfound, Option.bind_eq_bind, Option.bind_some]
  rw [List.filter_cons_of_neg (by simp), List.filter_eq_self.2 hothers]
  rfl

/-! ### Items -/

theorem mapM_map {α β γ : Type} {write : α → β} {read : β → Option γ} {f : α → γ} {items : List α}
    (h : ∀ a ∈ items, read (write a) = some (f a)) :
    (items.map write).mapM read = some (items.map f) := by
  induction items with
  | nil => rfl
  | cons a rest ih =>
    obtain ⟨ha, hrest⟩ := List.forall_mem_cons.1 h
    rw [List.map_cons, List.mapM_cons, ha, ih hrest]
    rfl

/-- Items that can be read one by one can be read as a list. -/
theorem list?_ofList {α β : Type} {write : α → Json} {read : Json → Option β} {f : α → β}
    {items : List α} (h : ∀ a ∈ items, read (write a) = some (f a)) :
    (ofList write items).list? read = some (items.map f) :=
  mapM_map h

/-- A value that is never `null` can be left out. -/
theorem optional?_ofOption {α β : Type} {write : α → Json} {read : Json → Option β} {f : α → β}
    {value : Option α} (h : ∀ a, value = some a → write a ≠ null ∧ read (write a) = some (f a)) :
    (ofOption write value).optional? read = some (value.map f) := by
  cases value with
  | none => rfl
  | some a =>
    obtain ⟨hne, hread⟩ := h a rfl
    show optional? read (write a) = _
    unfold optional?
    split
    · rename_i hnull
      exact absurd hnull hne
    · rw [hread]
      rfl

theorem optional?_ofOption_self {α : Type} {write : α → Json} {read : Json → Option α}
    {value : Option α} (h : ∀ a, value = some a → write a ≠ null ∧ read (write a) = some a) :
    (ofOption write value).optional? read = some value := by
  rw [optional?_ofOption (f := id) h, Option.map_id_fun, id_eq]

theorem natBelow?_ofNat {n bound : Nat} (h : n < bound) : (ofNat n).natBelow? bound = some n := by
  have hint : (n : Int) < bound := Int.ofNat_lt.2 h
  show (if 0 ≤ (n : Int) ∧ (n : Int) < bound then some (n : Int).toNat else none) = some n
  rw [if_pos ⟨Int.natCast_nonneg n, hint⟩, Int.toNat_natCast]

theorem word64?_ofNat {n : Nat} (h : n < 0x10000000000000000) : (ofNat n).word64? = some n :=
  natBelow?_ofNat h

theorem word32?_ofNat (n : UInt32) : (ofNat n.toNat).word32? = some n.toNat :=
  natBelow?_ofNat n.toNat_lt

/-! ### What can be written -/

theorem Writable.noMembers {room : Nat} : Writable (room + 1) (Json.object []) :=
  .object fun _ hm => absurd hm List.not_mem_nil

theorem Writable.member {room : Nat} {name : String} {j : Json} {members : List (String × Json)}
    (h : Writable room j) (hrest : Writable (room + 1) (Json.object members)) :
    Writable (room + 1) (Json.object ((name, j) :: members)) := by
  cases hrest with
  | object hrest => exact .object (List.forall_mem_cons.2 ⟨h, hrest⟩)

theorem Writable.ofList {α : Type} {room : Nat} {write : α → Json} {items : List α}
    (h : ∀ a ∈ items, Writable room (write a)) : Writable (room + 1) (ofList write items) :=
  .array fun _ hj => by
    obtain ⟨a, ha, rfl⟩ := List.mem_map.1 hj
    exact h a ha

theorem Writable.ofOption {α : Type} {room : Nat} {write : α → Json} {value : Option α}
    (h : ∀ a, value = some a → Writable room (write a)) :
    Writable room (ofOption write value) := by
  cases value with
  | none => exact .null
  | some a => exact h a rfl

theorem areReadable_of_forall {items : List Json} (h : ∀ j ∈ items, j.isReadable = true) :
    areReadable items = true := by
  induction items with
  | nil => rfl
  | cons j rest ih =>
    obtain ⟨hj, hrest⟩ := List.forall_mem_cons.1 h
    rw [areReadable, hj, ih hrest]
    rfl

theorem membersAreReadable_of_forall {members : List (String × Json)}
    (h : ∀ m ∈ members, m.2.isReadable = true) : membersAreReadable members = true := by
  induction members with
  | nil => rfl
  | cons m rest ih =>
    obtain ⟨hm, hrest⟩ := List.forall_mem_cons.1 h
    rw [membersAreReadable, hm, ih hrest]
    rfl

/-- What can be written is readable. -/
theorem Writable.isReadable {room : Nat} {j : Json} (h : Writable room j) :
    j.isReadable = true := by
  induction h with
  | null | bool | integer | text => rfl
  | array _ ih => exact areReadable_of_forall ih
  | object _ ih => exact membersAreReadable_of_forall ih

end Json

open Json (Writable ofList ofOption)

/-! ### Types -/

namespace ColumnType

@[simp] theorem ofJson?_toJson (t : ColumnType) : ofJson? t.toJson = some t.reread :=
  ofText?_toText t

theorem list?_toJson (types : List ColumnType) :
    (ofList toJson types).list? ofJson? = some (types.map reread) :=
  Json.list?_ofList fun t _ => ofJson?_toJson t

theorem toJson_writable (t : ColumnType) (room : Nat) : Writable room t.toJson := .text _

theorem list_writable (types : List ColumnType) (room : Nat) :
    Writable (room + 1) (ofList toJson types) :=
  .ofList fun t _ => t.toJson_writable room

end ColumnType

/-! ### Properties -/

namespace TableProperties

theorem seconds?_ofNat (default n : UInt32) :
    seconds? default (some (.ofNat n.toNat)) = some n := by
  show (Json.word32? (.ofNat n.toNat)).map UInt32.ofNat = some n
  rw [Json.word32?_ofNat, Option.map_some, UInt32.ofNat_toNat]

/- The fields are variables in the next lemma and in those of columns and tables, so that nothing
is computed of what is written in them. -/

/-- Properties are read field by field. -/
theorem ofJson?_of_fields {j comment ttl grace : Json} {p : TableProperties}
    (h : j.fields? [("comment", .defaulted), ("default_time_to_live", .defaulted),
      ("gc_grace_seconds", .defaulted)] = some [some comment, some ttl, some grace])
    (hcomment : comment.text? = some p.comment)
    (httl : ∀ default, seconds? default (some ttl) = some p.defaultTimeToLive)
    (hgrace : ∀ default, seconds? default (some grace) = some p.gcGraceSeconds) :
    ofJson? j = some p := by
  unfold ofJson?
  rw [h, Option.bind_eq_bind, Option.bind_some]
  simp only [Option.elim_some, Option.bind_eq_bind, Option.bind_some, hcomment, httl, hgrace]
  rfl

theorem ofJson?_toJson (p : TableProperties) : ofJson? p.toJson = some p :=
  ofJson?_of_fields (Json.fields?_object rfl (by decide)) rfl
    (fun default => seconds?_ofNat default _) (fun default => seconds?_ofNat default _)

theorem toJson_writable (p : TableProperties) (room : Nat) : Writable (room + 1) p.toJson := by
  have hseconds (n : UInt32) : Writable room (.ofNat n.toNat) :=
    .integer (Nat.lt_trans n.toNat_lt (by decide))
  exact .member (.text _) <| .member (hseconds _) <| .member (hseconds _) .noMembers

end TableProperties

/-! ### Layouts -/

/-- The layout with its types reread. -/
def KeyLayout.reread : KeyLayout → KeyLayout
  | single t => single t.reread
  | composite ts => composite (ts.map ColumnType.reread)

namespace KeyLayout

theorem ofJson?_toJson (layout : KeyLayout) : ofJson? layout.toJson = some layout.reread := by
  cases layout with
  | single t =>
    show (ColumnType.ofJson? t.toJson).bind (fun t => some (single t)) = _
    rw [ColumnType.ofJson?_toJson]
    rfl
  | composite ts =>
    show ((ofList ColumnType.toJson ts).list? ColumnType.ofJson?).bind
      (fun ts => some (composite ts)) = _
    rw [ColumnType.list?_toJson]
    rfl

theorem toJson_writable (layout : KeyLayout) (room : Nat) :
    Writable (room + 2) layout.toJson := by
  cases layout with
  | single t =>
    exact .member (.text _) <| .member (t.toJson_writable _) .noMembers
  | composite ts =>
    exact .member (.text _) <| .member (ColumnType.list_writable ts _) .noMembers

end KeyLayout

/-- The collections with their types reread. -/
def CollectionTypes.reread (cs : CollectionTypes) : CollectionTypes :=
  cs.mapValues ColumnType.reread

namespace CollectionTypes

theorem reread_sorted {cs : CollectionTypes} (h : cs.Sorted) : cs.reread.Sorted :=
  Bindings.mapValues_sorted _ h

theorem members?_toJson (cs : CollectionTypes) :
    cs.toJson.members? ColumnType.ofJson? = some cs.reread :=
  Json.mapM_map fun (_, t) _ => by
    show (ColumnType.ofJson? t.toJson).map _ = _
    rw [ColumnType.ofJson?_toJson]
    rfl

/-- Collections come back in their order. -/
theorem ofJson?_toJson {cs : CollectionTypes} (h : cs.Sorted) :
    ofJson? cs.toJson = some cs.reread := by
  unfold ofJson?
  rw [members?_toJson, Option.bind_eq_bind, Option.bind_some,
    Bindings.ofList_eq_self (reread_sorted h)]
  rfl

theorem toJson_writable (cs : CollectionTypes) (room : Nat) : Writable (room + 1) cs.toJson :=
  .object fun _ hm => by
    obtain ⟨⟨_, t⟩, -, rfl⟩ := List.mem_map.1 hm
    exact t.toJson_writable room

end CollectionTypes

/-- The layout with its types reread. -/
def CellLayout.reread : CellLayout → CellLayout
  | simpleSparse t => simpleSparse t.reread
  | simpleDense t => simpleDense t.reread
  | compoundSparse ts cs =>
    compoundSparse (ts.map ColumnType.reread) (cs.map CollectionTypes.reread)
  | compoundDense ts => compoundDense (ts.map ColumnType.reread)

namespace CellLayout

theorem toJson_writable (layout : CellLayout) (room : Nat) :
    Writable (room + 2) layout.toJson := by
  cases layout with
  | simpleSparse t =>
    exact .member (.text _) <| .member (t.toJson_writable _) .noMembers
  | simpleDense t =>
    exact .member (.text _) <| .member (t.toJson_writable _) .noMembers
  | compoundSparse ts cs =>
    have hcollections : Writable (room + 1) (ofOption CollectionTypes.toJson cs) :=
      .ofOption fun cs _ => cs.toJson_writable room
    exact .member (.text _) <| .member (ColumnType.list_writable ts room) <|
      .member hcollections .noMembers
  | compoundDense ts =>
    exact .member (.text _) <| .member (ColumnType.list_writable ts _) .noMembers

theorem wrapped?_object (t : ColumnType) :
    wrapped? (.object [("wrapped", t.toJson)]) = some t.reread := by
  unfold wrapped?
  rw [Json.fields?_object rfl (by decide)]
  exact t.ofJson?_toJson

/-- **The form of a layout is read as the layout reread.** -/
theorem ofJson?_toJson {layout : CellLayout}
    (h : ∀ cs, layout.collections? = some cs → cs.Sorted) :
    ofJson? layout.toJson = some layout.reread := by
  have hread := (layout.toJson_writable 0).isReadable
  cases layout with
  | simpleSparse t =>
    unfold ofJson?
    rw [toJson, Json.variant?_object hread (by simp)]
    show (wrapped? (.object [("wrapped", t.toJson)])).bind (fun t => some (simpleSparse t)) = _
    rw [wrapped?_object]
    rfl
  | simpleDense t =>
    unfold ofJson?
    rw [toJson, Json.variant?_object hread (by simp)]
    show (wrapped? (.object [("wrapped", t.toJson)])).bind (fun t => some (simpleDense t)) = _
    rw [wrapped?_object]
    rfl
  | compoundSparse ts cs =>
    have hcollections : (ofOption CollectionTypes.toJson cs).optional? CollectionTypes.ofJson? =
        some (cs.map CollectionTypes.reread) :=
      Json.optional?_ofOption fun cs' hcs => ⟨nofun, CollectionTypes.ofJson?_toJson (h cs' hcs)⟩
    unfold ofJson?
    rw [toJson, Json.variant?_object hread (by simp), Option.bind_eq_bind, Option.bind_some]
    simp only
    rw [Json.fields?_object rfl (by decide)]
    simp only [Option.bind_eq_bind, Option.bind_some, List.map_cons, List.map_nil,
      Option.elim_some, ColumnType.list?_toJson, hcollections]
    rfl
  | compoundDense ts =>
    unfold ofJson?
    rw [toJson, Json.variant?_object hread (by simp), Option.bind_eq_bind, Option.bind_some]
    simp only
    rw [Json.fields?_object rfl (by decide)]
    simp only [Option.bind_eq_bind, Option.bind_some, List.map_cons, List.map_nil,
      ColumnType.list?_toJson]
    rfl

end CellLayout

/-! ### Columns -/

namespace CompactValue

theorem ofJson?_toJson (value : CompactValue) : ofJson? value.toJson = some value := by
  cases value <;> rfl

theorem toJson_writable (value : CompactValue) (room : Nat) :
    Writable (room + 1) value.toJson := by
  cases value with
  | empty =>
    exact .member (.text _) .noMembers
  | column name =>
    exact .member (.text _) <| .member (.text _) .noMembers

end CompactValue

theorem ColumnRole.ofWord?_word (role : ColumnRole) : ofWord? role.word = some role := by
  cases role <;> rfl

namespace Column

/-- The column with its type reread. -/
def reread (c : Column) : Column := { c with type := c.type.reread }

/-- The place of the column is one that a word can hold. -/
def Indexed (c : Column) : Prop := ∀ i, c.componentIndex = some i → i < 0x10000000000000000

/-- Columns are read field by field. -/
theorem ofJson?_of_fields {j name type role index : Json} {c : Column}
    (h : j.fields? [("name", .required), ("type", .required), ("kind", .required),
      ("component_index", .optionalByName)] = some [some name, some type, some role, some index])
    (hname : name.text? = some c.name) (htype : ColumnType.ofJson? type = some c.type)
    (hrole : (role.word?).bind ColumnRole.ofWord? = some c.role)
    (hindex : index.optional? Json.word64? = some c.componentIndex) :
    ofJson? j = some c := by
  obtain ⟨word, hword, hrole⟩ := Option.bind_eq_some_iff.1 hrole
  unfold ofJson?
  rw [h, Option.bind_eq_bind, Option.bind_some]
  simp only [Option.bind_eq_bind, Option.bind_some, Option.elim_some, hname, htype, hword, hrole,
    hindex]
  rfl

theorem ofJson?_toJson {c : Column} (h : c.Indexed) : ofJson? c.toJson = some c.reread := by
  have hindex : (ofOption Json.ofNat c.componentIndex).optional? Json.word64? =
      some c.componentIndex :=
    Json.optional?_ofOption_self fun i hi => ⟨nofun, Json.word64?_ofNat (h i hi)⟩
  exact ofJson?_of_fields (Json.fields?_object rfl (by decide)) rfl c.type.ofJson?_toJson
    c.role.ofWord?_word hindex

theorem toJson_writable {c : Column} (h : c.Indexed) (room : Nat) :
    Writable (room + 1) c.toJson := by
  have hindex : Writable room (ofOption Json.ofNat c.componentIndex) :=
    .ofOption fun i hi => .integer (h i hi)
  exact .member (.text _) <| .member (c.type.toJson_writable room) <| .member (.text _) <|
    .member hindex .noMembers

end Column

/-! ### Tables -/

namespace TableSchema

/-- The table with its types reread. -/
def reread (s : TableSchema) : TableSchema :=
  { s with
    keyLayout := s.keyLayout.reread
    cellLayout := s.cellLayout.reread
    defaultType := s.defaultType.reread
    columns := s.columns.map Column.reread }

/-- Everything in the table can be written: collections are in order, and places fit into words. -/
structure Storable (s : TableSchema) : Prop where
  collections : ∀ cs, s.cellLayout.collections? = some cs → cs.Sorted
  columns : ∀ c ∈ s.columns, c.Indexed

/-- Tables are read field by field. -/
theorem ofJson?_of_fields {j keyspace name key cell type dense compact columns value properties :
      Json} {s : TableSchema}
    (h : j.fields? [("keyspace", .required), ("name", .required), ("key_encoding", .required),
      ("comparator", .required), ("default_validator", .required), ("is_dense", .required),
      ("is_compact", .required), ("columns", .required), ("compact_value", .optionalByName),
      ("properties", .required)] = some [some keyspace, some name, some key, some cell, some type,
        some dense, some compact, some columns, some value, some properties])
    (hkeyspace : keyspace.text? = some s.keyspace) (hname : name.text? = some s.name)
    (hkey : KeyLayout.ofJson? key = some s.keyLayout)
    (hcell : CellLayout.ofJson? cell = some s.cellLayout)
    (htype : ColumnType.ofJson? type = some s.defaultType)
    (hdense : dense.bool? = some s.isDense) (hcompact : compact.bool? = some s.isCompact)
    (hcolumns : columns.list? Column.ofJson? = some s.columns)
    (hvalue : value.optional? CompactValue.ofJson? = some s.compactValue)
    (hproperties : TableProperties.ofJson? properties = some s.properties) :
    ofJson? j = some s := by
  unfold ofJson?
  rw [h, Option.bind_eq_bind, Option.bind_some]
  simp only [Option.bind_eq_bind, Option.bind_some, Option.elim_some, hkeyspace, hname, hkey,
    hcell, htype, hdense, hcompact, hcolumns, hvalue, hproperties]
  rfl

/-- **The form of a table is read as the table reread.** -/
theorem ofJson?_toJson {s : TableSchema} (h : s.Storable) : ofJson? s.toJson = some s.reread := by
  have hcolumns : (ofList Column.toJson s.columns).list? Column.ofJson? =
      some (s.columns.map Column.reread) :=
    Json.list?_ofList fun c hc => Column.ofJson?_toJson (h.columns c hc)
  have hvalue : (ofOption CompactValue.toJson s.compactValue).optional? CompactValue.ofJson? =
      some s.compactValue :=
    Json.optional?_ofOption_self fun value _ =>
      ⟨by cases value <;> exact nofun, value.ofJson?_toJson⟩
  exact ofJson?_of_fields (Json.fields?_object rfl (by decide)) rfl rfl
    s.keyLayout.ofJson?_toJson (CellLayout.ofJson?_toJson h.collections)
    s.defaultType.ofJson?_toJson rfl rfl hcolumns hvalue s.properties.ofJson?_toJson

/-- **And it can be written.** -/
theorem toJson_writable {s : TableSchema} (h : s.Storable) (room : Nat) :
    Writable (room + 3) s.toJson := by
  have hcolumns : Writable (room + 2) (ofList Column.toJson s.columns) :=
    .ofList fun c hc => Column.toJson_writable (h.columns c hc) room
  have hvalue : Writable (room + 2) (ofOption CompactValue.toJson s.compactValue) :=
    .ofOption fun value _ => value.toJson_writable (room + 1)
  exact .member (.text _) <| .member (.text _) <| .member (s.keyLayout.toJson_writable room) <|
    .member (s.cellLayout.toJson_writable room) <| .member (s.defaultType.toJson_writable _) <|
    .member (.bool _) <| .member (.bool _) <| .member hcolumns <| .member hvalue <|
    .member (s.properties.toJson_writable (room + 1)) .noMembers

end TableSchema

/-! ### Types of a table -/

theorem ColumnType.map_reread_eq_self_iff {types : List ColumnType} :
    types.map reread = types ↔ ∀ t ∈ types, t.hasSingleMarks = true := by
  have hmap : types.map reread = types.map id ↔ ∀ t ∈ types, t.reread = id t := List.map_inj_left
  rw [List.map_id] at hmap
  rw [hmap]
  exact forall₂_congr fun t _ => reread_eq_self_iff

theorem KeyLayout.reread_eq_self_iff {layout : KeyLayout} :
    layout.reread = layout ↔ ∀ t ∈ layout.types, t.hasSingleMarks = true := by
  rw [← ColumnType.map_reread_eq_self_iff]
  cases layout <;> simp [reread, types]

theorem CollectionTypes.reread_eq_self_iff {cs : CollectionTypes} :
    cs.reread = cs ↔ ∀ t ∈ Bindings.values cs, t.hasSingleMarks = true := by
  unfold reread Bindings.values
  rw [Bindings.mapValues_eq_self_iff, List.forall_mem_map]
  exact forall₂_congr fun b _ => ColumnType.reread_eq_self_iff

/-- The types in a layout, those of collections among them. -/
def CellLayout.types : CellLayout → List ColumnType
  | simpleSparse t | simpleDense t => [t]
  | compoundSparse ts cs => ts ++ Bindings.values (cs.getD [])
  | compoundDense ts => ts

theorem CellLayout.reread_eq_self_iff {layout : CellLayout} :
    layout.reread = layout ↔ ∀ t ∈ layout.types, t.hasSingleMarks = true := by
  cases layout with
  | simpleSparse t | simpleDense t | compoundDense ts =>
    rw [← ColumnType.map_reread_eq_self_iff]
    simp [reread, types]
  | compoundSparse ts cs =>
    have hcollections : cs.map CollectionTypes.reread = cs ↔
        ∀ t ∈ Bindings.values (cs.getD []), t.hasSingleMarks = true := by
      cases cs with
      | none => simp [Bindings.values]
      | some cs => exact Option.some_inj.trans CollectionTypes.reread_eq_self_iff
    show compoundSparse _ _ = compoundSparse _ _ ↔ ∀ t ∈ ts ++ _, _
    rw [List.forall_mem_append, ← hcollections, ← ColumnType.map_reread_eq_self_iff,
      CellLayout.compoundSparse.injEq]

theorem Column.map_reread_eq_self_iff {columns : List Column} :
    columns.map reread = columns ↔ ∀ c ∈ columns, c.type.hasSingleMarks = true := by
  have hmap : columns.map reread = columns.map id ↔ ∀ c ∈ columns, c.reread = id c :=
    List.map_inj_left
  rw [List.map_id] at hmap
  rw [hmap]
  refine forall₂_congr fun c _ => ?_
  rw [← ColumnType.reread_eq_self_iff]
  exact ⟨congrArg Column.type, fun h => by rw [reread, h, id_eq]⟩

namespace TableSchema

/-- The types in a table, wherever they stand. -/
def types (s : TableSchema) : List ColumnType :=
  s.keyLayout.types ++ s.cellLayout.types ++ s.defaultType :: s.columns.map (·.type)

/-- **Rereading leaves a table alone** if and only if it has no type with double marks. -/
theorem reread_eq_self_iff {s : TableSchema} :
    s.reread = s ↔ ∀ t ∈ s.types, t.hasSingleMarks = true := by
  unfold types
  rw [List.forall_mem_append, List.forall_mem_append, List.forall_mem_cons, List.forall_mem_map,
    ← KeyLayout.reread_eq_self_iff, ← CellLayout.reread_eq_self_iff,
    ← ColumnType.reread_eq_self_iff, ← Column.map_reread_eq_self_iff]
  constructor
  · intro h
    exact ⟨⟨congrArg keyLayout h, congrArg cellLayout h⟩, congrArg defaultType h,
      congrArg columns h⟩
  · rintro ⟨⟨hkey, hcell⟩, htype, hcolumns⟩
    rw [reread, hkey, hcell, htype, hcolumns]

end TableSchema

/-! ### Snapshots -/

namespace Catalog

/-- The keyspace with its tables reread. -/
def KeyspaceSnapshot.reread (k : KeyspaceSnapshot) : KeyspaceSnapshot :=
  { k with tables := k.tables.map TableSchema.reread }

namespace KeyspaceSnapshot

theorem ofJson?_toJson {k : KeyspaceSnapshot} (h : ∀ s ∈ k.tables, s.Storable) :
    ofJson? k.toJson = some k.reread := by
  have htables : (ofList TableSchema.toJson k.tables).list? TableSchema.ofJson? =
      some (k.tables.map TableSchema.reread) :=
    Json.list?_ofList fun s hs => TableSchema.ofJson?_toJson (h s hs)
  have hfields : k.toJson.fields? [("name", .required), ("durable_writes", .required),
      ("tables", .required)] = some [some (.text k.name), some (.bool k.durableWrites),
        some (ofList TableSchema.toJson k.tables)] := Json.fields?_object rfl (by decide)
  unfold ofJson?
  rw [hfields, Option.bind_eq_bind, Option.bind_some]
  simp only [Option.bind_eq_bind, Option.bind_some, Json.text?, Json.bool?, htables]
  rfl

theorem toJson_writable {k : KeyspaceSnapshot} (h : ∀ s ∈ k.tables, s.Storable) (room : Nat) :
    Writable (room + 5) k.toJson := by
  have htables : Writable (room + 4) (ofList TableSchema.toJson k.tables) :=
    .ofList fun s hs => TableSchema.toJson_writable (h s hs) room
  exact .member (.text _) <| .member (.bool _) <| .member htables .noMembers

end KeyspaceSnapshot

variable {snapshot : List KeyspaceSnapshot}

/-- **The form of a snapshot is read as the snapshot reread.** -/
theorem snapshotOfJson?_toJson (h : ∀ k ∈ snapshot, ∀ s ∈ k.tables, s.Storable) :
    snapshotOfJson? (snapshotToJson snapshot) = some (snapshot.map KeyspaceSnapshot.reread) := by
  unfold snapshotOfJson? snapshotToJson
  rw [Json.fields?_object rfl (by decide), Option.bind_eq_bind, Option.bind_some]
  exact Json.list?_ofList fun k hk => KeyspaceSnapshot.ofJson?_toJson (h k hk)

theorem snapshotToJson_writable (h : ∀ k ∈ snapshot, ∀ s ∈ k.tables, s.Storable) (room : Nat) :
    Writable (room + 7) (snapshotToJson snapshot) := by
  exact .member (.ofList fun k hk => KeyspaceSnapshot.toJson_writable (h k hk) _) .noMembers

end Catalog

end WideColumn
