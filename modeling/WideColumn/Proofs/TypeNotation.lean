import WideColumn.Proofs.TypeGrammar

/-!
# Types read back from their texts

The text of a type stands for that type, except that several descending marks in a row count as
one.

* `reread` — the type with one mark in place of several in a row;
* `hasSingleMarks` and `reread_eq_self_iff` — the types that this leaves alone;
* `tree`, `word_tree`, `type_tree` — the derivation of the text of a type stands for the type reread;
* `ofText?_toText` — **so does the text**;
* `exists_ofText?_iff` — and the types that texts stand for are those without double marks;
* `texts_read_by_grammar` — **the texts that are read** are those that are derived.
-/

namespace WideColumn

namespace ColumnType

/-! ### Marks -/

/-- The type with one descending mark in place of several in a row. -/
def reread : ColumnType → ColumnType
  | scalar s => scalar s
  | list e frozen => list e.reread frozen
  | set e frozen => set e.reread frozen
  | map k v frozen => map k.reread v.reread frozen
  | descending t => t.reread.descend

/-- Does no descending mark stand right below another one? -/
def hasSingleMarks : ColumnType → Bool
  | scalar _ => true
  | list e _ | set e _ => e.hasSingleMarks
  | map k v _ => k.hasSingleMarks && v.hasSingleMarks
  | descending t => !t.isDescending && t.hasSingleMarks

theorem descend_of_not_isDescending {t : ColumnType} (h : t.isDescending = false) :
    t.descend = descending t := by
  cases t with
  | descending => cases h
  | scalar | list | set | map => rfl

@[simp] theorem hasSingleMarks_descend (t : ColumnType) :
    t.descend.hasSingleMarks = t.hasSingleMarks := by
  cases t <;> rfl

@[simp] theorem hasSingleMarks_reread (t : ColumnType) : t.reread.hasSingleMarks = true := by
  induction t with
  | scalar => rfl
  | list e frozen ih => exact ih
  | set e frozen ih => exact ih
  | map k v frozen ihk ihv =>
    show (k.reread.hasSingleMarks && v.reread.hasSingleMarks) = true
    rw [ihk, ihv]
    rfl
  | descending t ih => exact (hasSingleMarks_descend _).trans ih

/-- **Only double marks are lost.** -/
theorem reread_eq_self_iff {t : ColumnType} : t.reread = t ↔ t.hasSingleMarks = true := by
  constructor
  · intro h
    rw [← h]
    exact hasSingleMarks_reread t
  · intro h
    induction t with
    | scalar => rfl
    | list e frozen ih => exact congrArg (list · frozen) (ih h)
    | set e frozen ih => exact congrArg (set · frozen) (ih h)
    | map k v frozen ihk ihv =>
      obtain ⟨hk, hv⟩ := Bool.and_eq_true_iff.1 h
      show map k.reread v.reread frozen = _
      rw [ihk hk, ihv hv]
    | descending t ih =>
      obtain ⟨hmark, ht⟩ := Bool.and_eq_true_iff.1 h
      show t.reread.descend = _
      rw [ih ht, descend_of_not_isDescending (by simpa using hmark)]

/-! ### Letters -/

/-- The letters of a type in its frozen form. -/
def frozenLetters (frozen : Bool) (inner : List Char) : List Char :=
  if frozen then enclosed "frozen" inner else inner

/-- The text of a type without blanks. -/
def letters : ColumnType → List Char
  | scalar s => s.name.toList
  | list e frozen => frozenLetters frozen (enclosed "list" e.letters)
  | set e frozen => frozenLetters frozen (enclosed "set" e.letters)
  | map k v frozen => frozenLetters frozen (enclosed "map" (k.letters ++ ',' :: v.letters))
  | descending t => enclosed "reversed" t.letters

/-- The text in lower case without its white space. -/
def plain (s : String) : List Char := Text.lowerAscii (Text.withoutWhiteSpace s.toList)

theorem plain_append (s t : String) : plain (s ++ t) = plain s ++ plain t := by
  unfold plain Text.lowerAscii Text.withoutWhiteSpace
  rw [String.toList_append, List.filter_append, List.map_append]

theorem plain_enclosed {opening head : String} (h : plain opening = head.toList ++ ['<'])
    (inner : String) : plain (opening ++ inner ++ ">") = enclosed head (plain inner) := by
  rw [plain_append, plain_append, h, show plain ">" = ['>'] from by decide]
  simp [enclosed]

theorem plain_frozenText (frozen : Bool) (inner : String) :
    plain (frozenText frozen inner) = frozenLetters frozen (plain inner) := by
  cases frozen with
  | false => rfl
  | true => exact plain_enclosed (by decide) inner

/-- The letters are what reading makes of the text. -/
theorem plain_toText (t : ColumnType) : plain t.toText = t.letters := by
  induction t with
  | scalar s => cases s <;> decide
  | list e frozen ih =>
    show plain (frozenText frozen ("list<" ++ e.toText ++ ">")) = _
    rw [plain_frozenText, @plain_enclosed "list<" "list" (by decide), ih]
    rfl
  | set e frozen ih =>
    show plain (frozenText frozen ("set<" ++ e.toText ++ ">")) = _
    rw [plain_frozenText, @plain_enclosed "set<" "set" (by decide), ih]
    rfl
  | map k v frozen ihk ihv =>
    have hsame : "map<" ++ k.toText ++ ", " ++ v.toText ++ ">" =
        "map<" ++ (k.toText ++ ", " ++ v.toText) ++ ">" := by simp only [String.append_assoc]
    show plain (frozenText frozen ("map<" ++ k.toText ++ ", " ++ v.toText ++ ">")) = _
    rw [plain_frozenText, hsame, @plain_enclosed "map<" "map" (by decide), plain_append,
      plain_append, ihk, ihv, show plain ", " = [','] from by decide]
    simp [letters]
  | descending t ih =>
    show plain ("reversed<" ++ t.toText ++ ">") = _
    rw [@plain_enclosed "reversed<" "reversed" (by decide), ih]
    rfl

/-! ### The derivation of a text -/

/-- Puts `frozen` in front of the tree of a frozen collection. -/
def frozenTree (frozen : Bool) (inner : TypeTree) : TypeTree :=
  if frozen then .behind .frozen inner else inner

/-- The derivation of the text of a type. -/
def tree : ColumnType → TypeTree
  | scalar s => .name s
  | list e frozen => frozenTree frozen (.behind .list e.tree)
  | set e frozen => frozenTree frozen (.behind .set e.tree)
  | map k v frozen => frozenTree frozen (.map k.tree v.tree)
  | descending t => .behind .reversed t.tree

theorem word_frozenTree (frozen : Bool) (inner : TypeTree) :
    (frozenTree frozen inner).word = frozenLetters frozen inner.word := by
  cases frozen <;> rfl

/-- What is derived is the letters. -/
theorem word_tree (t : ColumnType) : t.tree.word = t.letters := by
  induction t with
  | scalar => rfl
  | list e frozen ih =>
    show (frozenTree frozen (.behind .list e.tree)).word = _
    rw [word_frozenTree, letters, ← ih]
    rfl
  | set e frozen ih =>
    show (frozenTree frozen (.behind .set e.tree)).word = _
    rw [word_frozenTree, letters, ← ih]
    rfl
  | map k v frozen ihk ihv =>
    show (frozenTree frozen (.map k.tree v.tree)).word = _
    rw [word_frozenTree, letters, ← ihk, ← ihv]
    rfl
  | descending t ih => exact congrArg (enclosed "reversed") ih

theorem isProper_frozenTree (frozen : Bool) {inner : TypeTree} (h : inner.isProper = true)
    (hcollection : inner.isCollection = true) : (frozenTree frozen inner).isProper = true := by
  cases frozen with
  | false => exact h
  | true => exact Bool.and_eq_true_iff.2 ⟨h, hcollection⟩

theorem isProper_tree (t : ColumnType) : t.tree.isProper = true := by
  induction t with
  | scalar => rfl
  | list e frozen ih =>
    exact isProper_frozenTree frozen (Bool.and_eq_true_iff.2 ⟨ih, rfl⟩) rfl
  | set e frozen ih =>
    exact isProper_frozenTree frozen (Bool.and_eq_true_iff.2 ⟨ih, rfl⟩) rfl
  | map k v frozen ihk ihv =>
    exact isProper_frozenTree frozen (Bool.and_eq_true_iff.2 ⟨ihk, ihv⟩) rfl
  | descending t ih => exact Bool.and_eq_true_iff.2 ⟨ih, rfl⟩

theorem type_frozenTree (frozen : Bool) (inner : TypeTree) :
    (frozenTree frozen inner).type = if frozen then inner.type.freeze else inner.type := by
  cases frozen <;> rfl

/-- The derivation stands for the type reread. -/
theorem type_tree (t : ColumnType) : t.tree.type = t.reread := by
  induction t with
  | scalar => rfl
  | list e frozen ih =>
    show (frozenTree frozen (.behind .list e.tree)).type = _
    rw [type_frozenTree, reread, ← ih]
    cases frozen <;> rfl
  | set e frozen ih =>
    show (frozenTree frozen (.behind .set e.tree)).type = _
    rw [type_frozenTree, reread, ← ih]
    cases frozen <;> rfl
  | map k v frozen ihk ihv =>
    show (frozenTree frozen (.map k.tree v.tree)).type = _
    rw [type_frozenTree, reread, ← ihk, ← ihv]
    cases frozen <;> rfl
  | descending t ih => exact congrArg descend ih

/-! ### Reading -/

/-- The letters of a type stand for the type reread. -/
theorem parse?_letters (t : ColumnType) : parse? t.letters = some t.reread := by
  rw [← word_tree, TypeTree.parse?_word t.isProper_tree, type_tree]

/-- **The text of a type stands for the type reread.** -/
theorem ofText?_toText (t : ColumnType) : ofText? t.toText = some t.reread := by
  show parse? (plain t.toText) = _
  rw [plain_toText, parse?_letters]

/-! ### Types that texts stand for -/

theorem hasSingleMarks_freeze (t : ColumnType) : t.freeze.hasSingleMarks = t.hasSingleMarks := by
  cases t <;> rfl

/-- No derivation stands for a type with double marks. -/
theorem hasSingleMarks_type (d : TypeTree) : d.type.hasSingleMarks = true := by
  induction d with
  | name | varchar => rfl
  | map k v ihk ihv => exact Bool.and_eq_true_iff.2 ⟨ihk, ihv⟩
  | behind head d ih =>
    cases head with
    | list | set => exact ih
    | reversed => exact (hasSingleMarks_descend _).trans ih
    | frozen => exact (hasSingleMarks_freeze _).trans ih

/-- No text stands for a type with double marks. -/
theorem hasSingleMarks_of_parse? {s : List Char} {t : ColumnType} (h : parse? s = some t) :
    t.hasSingleMarks = true := by
  obtain ⟨d, -, rfl⟩ := parse?_eq_some_iff.1 h
  exact hasSingleMarks_type d.1

/-- **The types that texts stand for** are those without double marks. -/
theorem exists_ofText?_iff {t : ColumnType} :
    (∃ s, ofText? s = some t) ↔ t.hasSingleMarks = true := by
  constructor
  · rintro ⟨s, h⟩
    exact hasSingleMarks_of_parse? h
  · intro h
    exact ⟨t.toText, by rw [ofText?_toText, reread_eq_self_iff.2 h]⟩

/-- **Texts are read by the grammar.**  The text of a type without double marks is read back as that
type.  A text is read if and only if it is derived when white space and letter case are left out, and
then in one way only; what is read is the type of the derivation, and it has no double marks. -/
theorem texts_read_by_grammar :
    (∀ t : ColumnType, t.hasSingleMarks = true → ofText? t.toText = some t) ∧
    ∀ s : String,
      ((ofText? s).isSome = true ↔ ∃! d : TypeDerivation,
        d.1.word = Text.lowerAscii (Text.withoutWhiteSpace s.toList)) ∧
      ∀ d : TypeDerivation, d.1.word = Text.lowerAscii (Text.withoutWhiteSpace s.toList) →
        ofText? s = some d.1.type ∧ d.1.type.hasSingleMarks = true := by
  refine ⟨fun t ht => ?_, fun s => ⟨parse?_isSome_iff, fun d hd => ⟨?_, hasSingleMarks_type d.1⟩⟩⟩
  · rw [ofText?_toText, reread_eq_self_iff.2 ht]
  · exact parse?_eq_some_iff.2 ⟨d, hd, rfl⟩

/-- The crews of boats by hour, latest hour first, and the text of the type in two spellings. -/
theorem texts_read_by_grammar_crews :
    ofText? "map<reversed<int>, frozen<set<text>>>" =
        some (.map (.descending (.scalar .int)) (.set .text true) false) ∧
      (∃! d : TypeDerivation, d.1.word =
        Text.lowerAscii (Text.withoutWhiteSpace "Map < Reversed<Int>, FROZEN<Set<VarChar>> >".toList)) ∧
      ofText? "Map < Reversed<Int>, FROZEN<Set<VarChar>> >" =
        some (.map (.descending (.scalar .int)) (.set .text true) false) := by
  obtain ⟨hround, hread⟩ := texts_read_by_grammar
  obtain ⟨hiff, hderived⟩ := hread "Map < Reversed<Int>, FROZEN<Set<VarChar>> >"
  obtain ⟨htype, -⟩ := hderived
    ⟨.map (.behind .reversed (.name .int)) (.behind .frozen (.behind .set .varchar)), rfl⟩ (by decide)
  exact ⟨hround (.map (.descending (.scalar .int)) (.set .text true) false) rfl,
    hiff.1 (by rw [htype]; rfl), htype⟩

end ColumnType

end WideColumn
