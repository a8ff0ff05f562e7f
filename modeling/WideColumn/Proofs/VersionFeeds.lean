import Mathlib.Data.List.Basic
import WideColumn.Proofs.TextOrder
import WideColumn.Schema.Version

/-!
# Versions cover every field

The version of a table is a digest of the bytes that its fields are written as, one after the other
and with nothing around them.  Every field says where it ends: whatever follows it, no other value
has these bytes.  So two tables that differ are written differently, and neither is the beginning of
the other.  Lengths and places are written in eight bytes and must fit there.

* `Feed.Delimits` — the bytes of a value tell which value it is and where they end;
* `Feed.count_delimits`, `Feed.text_delimits`, `Feed.list_delimits`, `Feed.type_delimits` and
  further ones — each kind of field does;
* `TableSchema.feed_delimits` — **a table as a whole does**;
* `TableSchema.version_covers_fields` — two tables have one version if they are the same table, or
  if the digest gives different bytes the same value.
-/

namespace WideColumn

namespace Bytes

/-- A number can be told from its lowest bytes if it has no others. -/
theorem littleEndian_inj (width : Nat) {m n : Nat} (hm : m < 256 ^ width) (hn : n < 256 ^ width)
    (h : littleEndian width m = littleEndian width n) : m = n := by
  induction width generalizing m n with
  | zero => omega
  | succ width ih =>
    rw [Nat.pow_succ] at hm hn
    obtain ⟨hlow, hhigh⟩ := List.cons.inj h
    have hlow : m % 256 = n % 256 := by
      simpa only [Nat.toUInt8, UInt8.toNat_ofNat'] using congrArg UInt8.toNat hlow
    have hhigh : m / 256 = n / 256 :=
      ih (Nat.div_lt_of_lt_mul (by omega)) (Nat.div_lt_of_lt_mul (by omega)) hhigh
    omega

end Bytes

namespace Text.Utf8

/-- The byte `ff` does not occur in texts. -/
theorem not_mem_encode (s : String) : 0xff ∉ encode s := by
  rw [encode_eq_flatMap]
  intro h
  obtain ⟨c, -, hc⟩ := List.mem_flatMap.1 h
  rw [utf8EncodeChar_eq] at hc
  have hpoint := point_lt c
  have hlead : leadByte c.toNat < 255 := by
    unfold leadByte
    split_ifs <;> omega
  have hlater (n : Nat) : (0xff : UInt8) ≠ laterByte n := by
    intro heq
    have hnat : 255 = n % 64 + 128 := by
      have hvalue := congrArg UInt8.toNat heq
      rw [laterByte, UInt8.toNat_ofNat', Nat.mod_eq_of_lt (by omega)] at hvalue
      exact hvalue
    omega
  rcases List.mem_cons.1 hc with hfirst | hrest
  · have hnat : 255 = leadByte c.toNat := by
      have hvalue := congrArg UInt8.toNat hfirst
      rw [UInt8.toNat_ofNat', Nat.mod_eq_of_lt (by omega)] at hvalue
      exact hvalue
    omega
  · unfold laterBytes at hrest
    split_ifs at hrest <;> simp [hlater] at hrest

end Text.Utf8

namespace Feed

variable {α : Type}

/-- Whatever follows, the bytes of a good value tell which value it is and where they end. -/
def Delimits (feed : α → Bytes) (good : α → Prop) : Prop :=
  ∀ ⦃a a' : α⦄ ⦃rest rest' : Bytes⦄, good a → good a' →
    feed a ++ rest = feed a' ++ rest' → a = a' ∧ rest = rest'

/-! ### Numbers and texts -/

/-- Values that are told apart by as many bytes as all others have end with the last of them. -/
theorem delimits_of_length {feed : α → Bytes} {good : α → Prop} {width : Nat}
    (hlength : ∀ a, (feed a).length = width)
    (hinj : ∀ a a', good a → good a' → feed a = feed a' → a = a') : Delimits feed good := by
  intro a a' rest rest' ha ha' h
  obtain ⟨hfeed, hrest⟩ := List.append_inj h ((hlength a).trans (hlength a').symm)
  exact ⟨hinj a a' ha ha' hfeed, hrest⟩

theorem count_delimits : Delimits count (· < 0x10000000000000000) :=
  delimits_of_length (Bytes.littleEndian_length 8) fun _ _ hm hn h =>
    Bytes.littleEndian_inj 8 hm hn h

theorem word32_delimits : Delimits word32 fun _ => True :=
  delimits_of_length (fun n => Bytes.littleEndian_length 4 n.toNat) fun m n _ _ h =>
    UInt32.toNat_inj.1 (Bytes.littleEndian_inj 4 m.toNat_lt n.toNat_lt h)

theorem bool_delimits : Delimits bool fun _ => True := by
  have hlength : ∀ b, (bool b).length = 1 := fun _ => rfl
  refine delimits_of_length hlength fun b b' _ _ h => ?_
  cases b <;> cases b' <;> simp [bool] at h ⊢

/-- Where a byte occurs for the first time is the same on both sides. -/
theorem eq_of_append_cons {b : UInt8} {xs ys rest rest' : Bytes} (hxs : b ∉ xs) (hys : b ∉ ys)
    (h : xs ++ b :: rest = ys ++ b :: rest') : xs = ys ∧ rest = rest' := by
  induction xs generalizing ys with
  | nil =>
    cases ys with
    | nil => exact ⟨rfl, (List.cons.inj h).2⟩
    | cons y ys => exact absurd (List.cons.inj h).1 (List.ne_of_not_mem_cons hys)
  | cons x xs ih =>
    cases ys with
    | nil => exact absurd (List.cons.inj h).1.symm (List.ne_of_not_mem_cons hxs)
    | cons y ys =>
      obtain ⟨rfl, htail⟩ := List.cons.inj h
      obtain ⟨rfl, hrest⟩ := ih (List.not_mem_of_not_mem_cons hxs)
        (List.not_mem_of_not_mem_cons hys) htail
      exact ⟨rfl, hrest⟩

/-- A text ends at the first `ff`. -/
theorem text_delimits : Delimits text fun _ => True := by
  intro s s' rest rest' _ _ h
  simp only [text, List.append_assoc, List.singleton_append] at h
  obtain ⟨hbytes, hrest⟩ :=
    eq_of_append_cons (Text.Utf8.not_mem_encode s) (Text.Utf8.not_mem_encode s') h
  exact ⟨Text.Utf8.encode_inj hbytes, hrest⟩

/-! ### Lists and options -/

/-- As many items on both sides are the same items, each of them ending by itself. -/
theorem items_delimits {feed : α → Bytes} {good : α → Prop} (hfeed : Delimits feed good)
    {items items' : List α} {rest rest' : Bytes} (hlength : items.length = items'.length)
    (hgood : ∀ a ∈ items, good a) (hgood' : ∀ a ∈ items', good a)
    (h : items.flatMap feed ++ rest = items'.flatMap feed ++ rest') :
    items = items' ∧ rest = rest' := by
  induction items generalizing items' with
  | nil =>
    obtain rfl := List.length_eq_zero_iff.1 hlength.symm
    exact ⟨rfl, h⟩
  | cons a items ih =>
    cases items' with
    | nil => cases hlength
    | cons a' items' =>
      obtain ⟨ha, hmore⟩ := List.forall_mem_cons.1 hgood
      obtain ⟨ha', hmore'⟩ := List.forall_mem_cons.1 hgood'
      simp only [List.flatMap_cons, List.append_assoc] at h
      obtain ⟨rfl, htail⟩ := hfeed ha ha' h
      obtain ⟨rfl, hrest⟩ := ih (Nat.succ.inj hlength) hmore hmore' htail
      exact ⟨rfl, hrest⟩

/-- The items of a list are counted first. -/
theorem list_delimits {feed : α → Bytes} {good : α → Prop} (hfeed : Delimits feed good) :
    Delimits (list feed) fun items =>
      items.length < 0x10000000000000000 ∧ ∀ a ∈ items, good a := by
  rintro items items' rest rest' ⟨hcount, hgood⟩ ⟨hcount', hgood'⟩ h
  simp only [list, List.append_assoc] at h
  obtain ⟨hlength, hitems⟩ := count_delimits hcount hcount' h
  exact items_delimits hfeed hlength hgood hgood' hitems

/-- What two numbers are followed by is the same if all of the bytes are. -/
theorem count_append_inj {m n : Nat} {rest rest' : Bytes} (hm : m < 0x10000000000000000)
    (hn : n < 0x10000000000000000) :
    count m ++ rest = count n ++ rest' ↔ m = n ∧ rest = rest' := by
  refine ⟨fun h => count_delimits hm hn h, ?_⟩
  rintro ⟨rfl, rfl⟩
  rfl

/-- Whether there is a value comes first. -/
theorem option_delimits {feed : α → Bytes} {good : α → Prop} (hfeed : Delimits feed good) :
    Delimits (option feed) fun value => ∀ a, value = some a → good a := by
  intro value value' rest rest' hgood hgood' h
  cases value with
  | none =>
    cases value' with
    | none => exact ⟨rfl, List.append_cancel_left h⟩
    | some a' => simp [option, count_append_inj] at h
  | some a =>
    cases value' with
    | none => simp [option, count_append_inj] at h
    | some a' =>
      simp only [option, List.append_assoc] at h
      obtain ⟨rfl, hrest⟩ := hfeed (hgood a rfl) (hgood' a' rfl) (List.append_cancel_left h)
      exact ⟨rfl, hrest⟩

/-! ### Types -/

theorem index_inj {s s' : ScalarType} (h : s.index = s'.index) : s = s' := by
  have hsame := congrArg (fun i => ScalarType.all[i]?) h
  simpa only [ScalarType.all_index, Option.some.injEq] using hsame

theorem index_lt (s : ScalarType) : s.index < 0x10000000000000000 := by
  cases s <;> decide

/-- The variant of a type comes first, and then come its parts. -/
theorem type_delimits : Delimits type fun _ => True := by
  intro t
  induction t with
  | scalar s =>
    intro t' rest rest' _ _ h
    cases t' with
    | scalar s' =>
      simp only [type, List.append_assoc] at h
      obtain ⟨hindex, hrest⟩ :=
        count_delimits (index_lt s) (index_lt s') (List.append_cancel_left h)
      exact ⟨congrArg ColumnType.scalar (index_inj hindex), hrest⟩
    | list | set | map | descending => simp [type, count_append_inj] at h
  | list e frozen ih =>
    intro t' rest rest' _ _ h
    cases t' with
    | list e' frozen' =>
      simp only [type, List.append_assoc] at h
      obtain ⟨rfl, hfrozen⟩ := ih trivial trivial (List.append_cancel_left h)
      obtain ⟨rfl, hrest⟩ := bool_delimits trivial trivial hfrozen
      exact ⟨rfl, hrest⟩
    | scalar | set | map | descending => simp [type, count_append_inj] at h
  | set e frozen ih =>
    intro t' rest rest' _ _ h
    cases t' with
    | set e' frozen' =>
      simp only [type, List.append_assoc] at h
      obtain ⟨rfl, hfrozen⟩ := ih trivial trivial (List.append_cancel_left h)
      obtain ⟨rfl, hrest⟩ := bool_delimits trivial trivial hfrozen
      exact ⟨rfl, hrest⟩
    | scalar | list | map | descending => simp [type, count_append_inj] at h
  | map k v frozen ihk ihv =>
    intro t' rest rest' _ _ h
    cases t' with
    | map k' v' frozen' =>
      simp only [type, List.append_assoc] at h
      obtain ⟨rfl, hvalue⟩ := ihk trivial trivial (List.append_cancel_left h)
      obtain ⟨rfl, hfrozen⟩ := ihv trivial trivial hvalue
      obtain ⟨rfl, hrest⟩ := bool_delimits trivial trivial hfrozen
      exact ⟨rfl, hrest⟩
    | scalar | list | set | descending => simp [type, count_append_inj] at h
  | descending t ih =>
    intro t' rest rest' _ _ h
    cases t' with
    | descending t' =>
      simp only [type, List.append_assoc] at h
      obtain ⟨rfl, hrest⟩ := ih trivial trivial (List.append_cancel_left h)
      exact ⟨rfl, hrest⟩
    | scalar | list | set | map => simp [type, count_append_inj] at h

/-! ### Layouts -/

theorem types_delimits :
    Delimits (list type) fun types => types.length < 0x10000000000000000 := by
  intro types types' rest rest' hlength hlength' h
  exact list_delimits type_delimits ⟨hlength, fun _ _ => trivial⟩ ⟨hlength', fun _ _ => trivial⟩ h

theorem keyLayout_delimits :
    Delimits keyLayout fun layout => layout.types.length < 0x10000000000000000 := by
  intro layout layout' rest rest' hlength hlength' h
  cases layout with
  | single t =>
    cases layout' with
    | single t' =>
      simp only [keyLayout, List.append_assoc] at h
      obtain ⟨rfl, hrest⟩ := type_delimits trivial trivial (List.append_cancel_left h)
      exact ⟨rfl, hrest⟩
    | composite => simp [keyLayout, count_append_inj] at h
  | composite types =>
    cases layout' with
    | single => simp [keyLayout, count_append_inj] at h
    | composite types' =>
      simp only [keyLayout, List.append_assoc] at h
      obtain ⟨rfl, hrest⟩ := types_delimits hlength hlength' (List.append_cancel_left h)
      exact ⟨rfl, hrest⟩

theorem collections_delimits :
    Delimits collections fun cs => cs.length < 0x10000000000000000 := by
  have hentry : Delimits (fun entry : String × ColumnType => text entry.1 ++ type entry.2)
      fun _ => True := by
    rintro ⟨name, t⟩ ⟨name', t'⟩ rest rest' _ _ h
    simp only [List.append_assoc] at h
    obtain ⟨rfl, htype⟩ := text_delimits trivial trivial h
    obtain ⟨rfl, hrest⟩ := type_delimits trivial trivial htype
    exact ⟨rfl, hrest⟩
  intro cs cs' rest rest' hlength hlength' h
  exact list_delimits hentry ⟨hlength, fun _ _ => trivial⟩ ⟨hlength', fun _ _ => trivial⟩ h

theorem cellLayout_delimits :
    Delimits cellLayout fun layout => layout.clusteringTypes.length < 0x10000000000000000 ∧
      ∀ cs, layout.collections? = some cs → cs.length < 0x10000000000000000 := by
  rintro layout layout' rest rest' ⟨hlength, hcollections⟩ ⟨hlength', hcollections'⟩ h
  cases layout with
  | simpleSparse t =>
    cases layout' with
    | simpleSparse t' =>
      simp only [cellLayout, List.append_assoc] at h
      obtain ⟨rfl, hrest⟩ := type_delimits trivial trivial (List.append_cancel_left h)
      exact ⟨rfl, hrest⟩
    | simpleDense | compoundSparse | compoundDense => simp [cellLayout, count_append_inj] at h
  | simpleDense t =>
    cases layout' with
    | simpleDense t' =>
      simp only [cellLayout, List.append_assoc] at h
      obtain ⟨rfl, hrest⟩ := type_delimits trivial trivial (List.append_cancel_left h)
      exact ⟨rfl, hrest⟩
    | simpleSparse | compoundSparse | compoundDense => simp [cellLayout, count_append_inj] at h
  | compoundSparse types cs =>
    cases layout' with
    | compoundSparse types' cs' =>
      simp only [cellLayout, List.append_assoc] at h
      obtain ⟨rfl, hcs⟩ := types_delimits hlength hlength' (List.append_cancel_left h)
      obtain ⟨rfl, hrest⟩ := option_delimits collections_delimits hcollections hcollections' hcs
      exact ⟨rfl, hrest⟩
    | simpleSparse | simpleDense | compoundDense => simp [cellLayout, count_append_inj] at h
  | compoundDense types =>
    cases layout' with
    | compoundDense types' =>
      simp only [cellLayout, List.append_assoc] at h
      obtain ⟨rfl, hrest⟩ := types_delimits hlength hlength' (List.append_cancel_left h)
      exact ⟨rfl, hrest⟩
    | simpleSparse | simpleDense | compoundSparse => simp [cellLayout, count_append_inj] at h

/-! ### Columns and properties -/

theorem role_delimits : Delimits role fun _ => True := by
  intro r r' rest rest' _ _ h
  cases r <;> cases r' <;> simp [role, count_append_inj] at h ⊢ <;> exact h

theorem column_delimits :
    Delimits column fun c => ∀ i, c.componentIndex = some i → i < 0x10000000000000000 := by
  rintro ⟨name, t, r, index⟩ ⟨name', t', r', index'⟩ rest rest' hindex hindex' h
  simp only [column, List.append_assoc] at h
  obtain ⟨rfl, htype⟩ := text_delimits trivial trivial h
  obtain ⟨rfl, hrole⟩ := type_delimits trivial trivial htype
  obtain ⟨rfl, hplace⟩ := role_delimits trivial trivial hrole
  obtain ⟨rfl, hrest⟩ := option_delimits count_delimits hindex hindex' hplace
  exact ⟨rfl, hrest⟩

theorem compactValue_delimits : Delimits compactValue fun _ => True := by
  intro value value' rest rest' _ _ h
  cases value with
  | empty =>
    cases value' with
    | empty => exact ⟨rfl, List.append_cancel_left h⟩
    | column => simp [compactValue, count_append_inj] at h
  | column name =>
    cases value' with
    | empty => simp [compactValue, count_append_inj] at h
    | column name' =>
      simp only [compactValue, List.append_assoc] at h
      obtain ⟨rfl, hrest⟩ := text_delimits trivial trivial (List.append_cancel_left h)
      exact ⟨rfl, hrest⟩

theorem properties_delimits : Delimits properties fun _ => True := by
  rintro ⟨comment, ttl, grace⟩ ⟨comment', ttl', grace'⟩ rest rest' _ _ h
  simp only [properties, List.append_assoc] at h
  obtain ⟨rfl, httl⟩ := text_delimits trivial trivial h
  obtain ⟨rfl, hgrace⟩ := word32_delimits trivial trivial httl
  obtain ⟨rfl, hrest⟩ := word32_delimits trivial trivial hgrace
  exact ⟨rfl, hrest⟩

end Feed

/-! ### Tables -/

namespace TableSchema

/-- Lengths and places fit into eight bytes. -/
structure FitsWords (s : TableSchema) : Prop where
  keyTypes : s.keyLayout.types.length < 0x10000000000000000
  clusteringTypes : s.cellLayout.clusteringTypes.length < 0x10000000000000000
  collections : ∀ cs, s.cellLayout.collections? = some cs → cs.length < 0x10000000000000000
  columns : s.columns.length < 0x10000000000000000
  places : ∀ c ∈ s.columns, ∀ i, c.componentIndex = some i → i < 0x10000000000000000

/-- **A table can be told from its bytes, and where they end.** -/
theorem feed_delimits : Feed.Delimits feed FitsWords := by
  intro s s' rest rest' hs hs' h
  simp only [feed, List.append_assoc] at h
  obtain ⟨hkeyspace, h⟩ := Feed.text_delimits trivial trivial h
  obtain ⟨hname, h⟩ := Feed.text_delimits trivial trivial h
  obtain ⟨hkey, h⟩ := Feed.keyLayout_delimits hs.keyTypes hs'.keyTypes h
  obtain ⟨hcell, h⟩ := Feed.cellLayout_delimits ⟨hs.clusteringTypes, hs.collections⟩
    ⟨hs'.clusteringTypes, hs'.collections⟩ h
  obtain ⟨hdefault, h⟩ := Feed.type_delimits trivial trivial h
  obtain ⟨hdense, h⟩ := Feed.bool_delimits trivial trivial h
  obtain ⟨hcompact, h⟩ := Feed.bool_delimits trivial trivial h
  obtain ⟨hcolumns, h⟩ := Feed.list_delimits Feed.column_delimits ⟨hs.columns, hs.places⟩
    ⟨hs'.columns, hs'.places⟩ h
  obtain ⟨hvalue, h⟩ := Feed.option_delimits Feed.compactValue_delimits (fun _ _ => trivial)
    (fun _ _ => trivial) h
  obtain ⟨hproperties, hrest⟩ := Feed.properties_delimits trivial trivial h
  cases s
  cases s'
  simp only at hkeyspace hname hkey hcell hdefault hdense hcompact hcolumns hvalue hproperties
  subst hkeyspace hname hkey hcell hdefault hdense hcompact hcolumns hvalue hproperties
  exact ⟨rfl, hrest⟩

/-- **The version covers every field.**  Whatever follows the bytes of two tables, they are the same
only if the tables are.  So no table is written as the beginning of another one, and tables that
differ have one version only where the digest gives different bytes the same value. -/
theorem version_covers_fields {s s' : TableSchema} (hs : s.FitsWords) (hs' : s'.FitsWords) :
    (∀ rest rest', s.feed ++ rest = s'.feed ++ rest' → s = s' ∧ rest = rest') ∧
      (s ≠ s' → ¬s.feed <+: s'.feed) ∧
      (s.version = s'.version ↔
        s = s' ∨ s.feed ≠ s'.feed ∧ XxHash.digest s.feed = XxHash.digest s'.feed) := by
  have hbegins : s.feed <+: s'.feed → s = s' := by
    rintro ⟨rest, hrest⟩
    exact (feed_delimits hs hs' (hrest.trans (List.append_nil _).symm)).1
  refine ⟨fun rest rest' h => feed_delimits hs hs' h, fun hne hfeed => hne (hbegins hfeed), ?_⟩
  constructor
  · intro hversion
    by_cases hfeed : s.feed = s'.feed
    · exact .inl (hbegins (hfeed ▸ List.prefix_refl _))
    · exact .inr ⟨hfeed, hversion⟩
  · rintro (rfl | ⟨-, hdigest⟩)
    · rfl
    · exact hdigest

/-- Boats on lakes, year by year, in a table of any name. -/
def boatsTable (keyspace name : String) : TableSchema where
  keyspace
  name
  keyLayout := .single .text
  cellLayout := .compoundSparse [.scalar .int] (some [("boats", .set .text false)])
  defaultType := .blob
  isDense := false
  isCompact := false
  columns := [⟨"lake", .text, .partitionKey, none⟩, ⟨"year", .scalar .int, .clusteringKey, some 0⟩,
    ⟨"boats", .set .text false, .regular, some 1⟩]
  compactValue := none
  properties := {}

theorem boatsTable_fitsWords (keyspace name : String) : (boatsTable keyspace name).FitsWords where
  keyTypes := by simp [boatsTable, KeyLayout.types]
  clusteringTypes := by simp [boatsTable, CellLayout.clusteringTypes]
  collections := by simp [boatsTable, CellLayout.collections?]
  columns := by simp [boatsTable]
  places := by simp [boatsTable]

/-- The names of the keyspace and of the table do not run into each other. -/
theorem version_covers_names :
    (boatsTable "lake" "boats").FitsWords ∧ (boatsTable "lakeboat" "s").FitsWords ∧
      boatsTable "lake" "boats" ≠ boatsTable "lakeboat" "s" ∧
      ¬(boatsTable "lake" "boats").feed <+: (boatsTable "lakeboat" "s").feed := by
  have hne : boatsTable "lake" "boats" ≠ boatsTable "lakeboat" "s" := by decide
  exact ⟨boatsTable_fitsWords _ _, boatsTable_fitsWords _ _, hne,
    (version_covers_fields (boatsTable_fitsWords _ _) (boatsTable_fitsWords _ _)).2.1 hne⟩

end TableSchema

end WideColumn
