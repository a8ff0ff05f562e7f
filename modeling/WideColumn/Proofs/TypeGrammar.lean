import Mathlib.Logic.ExistsUnique
import WideColumn.ColumnType.Notation

/-!
# The grammar of types

A type is the name of a scalar, `varchar`, `map<T,T>`, or one of the words `list`, `set`,
`reversed` and `frozen` in front of `<T>`, where `frozen` wants a collection.  Reading takes such a
text apart at its first `<`, its last `>` and the first comma that no brackets enclose, and finds
exactly the derivations of this grammar.

* `TypeTree`, `TypeDerivation` — derivations, with the word that is derived and the type that it
  stands for;
* `splitAtComma?_word` — the comma of a map is not looked for inside a derived word;
* `parse?_word` — every derived word is read, as the type of its derivation;
* `exists_derivation_of_parse?` — what is read was derived;
* `word_injective` — no word is derived twice;
* `parse?_eq_some_iff`, `parse?_isSome_iff` — **reading finds the derivations**.
-/

namespace WideColumn

namespace ColumnType

/-! ### Splitting -/

/-- Arguments in angle brackets behind a head. -/
def enclosed (head : String) (arguments : List Char) : List Char :=
  head.toList ++ '<' :: (arguments ++ ['>'])

/-- A character that does not end the search is passed over, and counts if it is a bracket. -/
theorem splitAtComma?_cons {depth : Nat} {c : Char} (hcomma : ¬(c = ',' ∧ depth = 0))
    (hclose : ¬(c = '>' ∧ depth = 0)) (rest : List Char) :
    splitAtComma? depth (c :: rest) =
      (splitAtComma? (if c = '<' then depth + 1 else if c = '>' then depth - 1 else depth)
        rest).map fun p => (c :: p.1, p.2) := by
  rw [splitAtComma?, if_neg hcomma, if_neg hclose]

/-- From this depth on, the search for a comma passes over the letters and comes out at the depth
at which it went in. -/
def PassedFrom (least : Nat) (s : List Char) : Prop :=
  ∀ depth, least ≤ depth → ∀ rest, splitAtComma? depth (s ++ rest) =
    (splitAtComma? depth rest).map fun p => (s ++ p.1, p.2)

theorem PassedFrom.append {least : Nat} {s t : List Char} (hs : PassedFrom least s)
    (ht : PassedFrom least t) : PassedFrom least (s ++ t) := by
  intro depth hdepth rest
  rw [List.append_assoc, hs depth hdepth, ht depth hdepth, Option.map_map]
  congr 1
  funext p
  simp

theorem PassedFrom.mono {least least' : Nat} {s : List Char} (h : PassedFrom least s)
    (hle : least ≤ least') : PassedFrom least' s :=
  fun depth hdepth => h depth (Nat.le_trans hle hdepth)

/-- Does the character separate or enclose arguments? -/
def isDelimiter (c : Char) : Bool := c = ',' || c = '<' || c = '>'

/-- Characters that neither separate nor enclose are passed over. -/
theorem passedFrom_of_plain {s : List Char} (h : s.any isDelimiter = false) :
    PassedFrom 0 s := by
  induction s with
  | nil =>
    intro depth _ rest
    simp
  | cons c s ih =>
    rw [List.any_cons, Bool.or_eq_false_iff] at h
    obtain ⟨hc, hs⟩ := h
    obtain ⟨⟨hcomma, hopen⟩, hclose⟩ : (c ≠ ',' ∧ c ≠ '<') ∧ c ≠ '>' := by
      simpa [isDelimiter] using hc
    intro depth hdepth rest
    rw [List.cons_append,
      splitAtComma?_cons (fun hand => hcomma hand.1) (fun hand => hclose hand.1), if_neg hopen,
      if_neg hclose, ih hs depth hdepth, Option.map_map]
    rfl

theorem passedFrom_comma : PassedFrom 1 [','] := by
  intro depth hdepth rest
  have hne : depth ≠ 0 := by omega
  exact splitAtComma?_cons (fun hand => hne hand.2) (fun hand => hne hand.2) rest

/-- Arguments that are passed over inside the brackets are passed over with them. -/
theorem passedFrom_enclosed {head : String}
    (hhead : head.toList.any isDelimiter = false) {arguments : List Char}
    (h : PassedFrom 1 arguments) : PassedFrom 0 (enclosed head arguments) := by
  refine (passedFrom_of_plain hhead).append fun depth hdepth rest => ?_
  have hclose : splitAtComma? (depth + 1) ('>' :: rest) =
      (splitAtComma? depth rest).map fun p => ('>' :: p.1, p.2) :=
    splitAtComma?_cons (fun hand => absurd hand.1 (by decide))
      (fun hand => absurd hand.2 (Nat.succ_ne_zero depth)) rest
  have hopen : splitAtComma? depth ('<' :: (arguments ++ ['>'] ++ rest)) =
      (splitAtComma? (depth + 1) (arguments ++ ['>'] ++ rest)).map fun p => ('<' :: p.1, p.2) :=
    splitAtComma?_cons (fun hand => absurd hand.1 (by decide))
      (fun hand => absurd hand.1 (by decide)) _
  rw [List.cons_append, hopen, List.append_assoc, h (depth + 1) (by omega), List.singleton_append,
    hclose, Option.map_map, Option.map_map]
  congr 1
  funext p
  simp

/-- Text is split without loss: the comma stood between the parts. -/
theorem eq_of_splitAtComma? {depth : Nat} {s before after : List Char}
    (h : splitAtComma? depth s = some (before, after)) : s = before ++ ',' :: after := by
  induction s generalizing depth before with
  | nil => cases h
  | cons c rest ih =>
    unfold splitAtComma? at h
    split at h
    · rename_i hcomma
      cases h
      rw [hcomma.1]
      rfl
    · split at h
      · cases h
      · obtain ⟨⟨b, a⟩, hrest, heq⟩ := Option.map_eq_some_iff.1 h
        cases heq
        exact congrArg (c :: ·) (ih hrest)

/-- Arguments are found by their head. -/
theorem splitHead?_enclosed {head : String} (h : '<' ∉ head.toList) (arguments : List Char) :
    splitHead? (enclosed head arguments) = some (head.toList, arguments) := by
  have hne : ∀ c ∈ head.toList, (decide (c ≠ '<')) = true := by
    intro c hc
    exact decide_eq_true fun heq => h (heq ▸ hc)
  unfold splitHead? enclosed
  rw [List.dropWhile_append_of_pos hne, List.takeWhile_append_of_pos hne]
  simp

/-- What has a head and arguments is the arguments in brackets behind the head. -/
theorem eq_of_splitHead? {s arguments : List Char} {head : String}
    (h : splitHead? s = some (head.toList, arguments)) : s = enclosed head arguments := by
  unfold splitHead? at h
  split at h
  · cases h
  · rename_i c inside hopen
    split at h
    · rename_i hclose
      obtain ⟨hhead, harguments⟩ := Prod.mk.inj (Option.some.inj h)
      obtain ⟨arguments', rfl⟩ := List.getLast?_eq_some_iff.1 hclose
      have hc : c = '<' := by
        have hfirst := List.head?_dropWhile_not (fun c => decide (c ≠ '<')) s
        rw [hopen] at hfirst
        simpa using hfirst
      calc s = s.takeWhile (· ≠ '<') ++ s.dropWhile (· ≠ '<') :=
            (List.takeWhile_append_dropWhile).symm
        _ = head.toList ++ '<' :: (arguments' ++ ['>']) := by rw [hhead, hopen, hc]
        _ = enclosed head arguments := by rw [enclosed, ← harguments, List.dropLast_concat]
    · cases h

/-! ### Reading -/

theorem eq_of_ofName? {s : List Char} {t : ScalarType} (h : ScalarType.ofName? s = some t) :
    s = t.name.toList ∨ s = "varchar".toList ∧ t = .text := by
  unfold ScalarType.ofName? at h
  split at h
  · rename_i hs
    exact .inr ⟨hs, (Option.some.inj h).symm⟩
  · have hname := List.find?_some h
    exact .inl (of_decide_eq_true hname).symm

theorem ofName?_name (s : ScalarType) : ScalarType.ofName? s.name.toList = some s := by
  cases s <;> decide

theorem ofName?_varchar : ScalarType.ofName? "varchar".toList = some .text := rfl

theorem ofName?_enclosed (head : String) (arguments : List Char) :
    ScalarType.ofName? (enclosed head arguments) = none := by
  cases h : ScalarType.ofName? (enclosed head arguments) with
  | none => rfl
  | some t =>
    have hopen : '<' ∈ enclosed head arguments := by simp [enclosed]
    rcases eq_of_ofName? h with hname | ⟨hname, -⟩
    · rw [hname] at hopen
      cases t <;> exact absurd hopen (by decide)
    · rw [hname] at hopen
      exact absurd hopen (by decide)

/-- What is read of arguments behind a head. -/
theorem parse?_enclosed {head : String} (h : '<' ∉ head.toList) (arguments : List Char) :
    parse? (enclosed head arguments) =
      if head = "frozen" then
        (parse? arguments).bind fun t => if t.isCollection then some t.freeze else none
      else if head = "reversed" then (parse? arguments).map descend
      else if head = "list" then (parse? arguments).map (list · false)
      else if head = "set" then (parse? arguments).map (set · false)
      else if head = "map" then
        (splitAtComma? 0 arguments).bind fun (key, value) =>
          (parse? key).bind fun k => (parse? value).map fun v => map k v false
      else none := by
  have hsplit := splitHead?_enclosed h arguments
  rw [parse?, ofName?_enclosed]
  simp only
  split
  · rename_i hnone
    rw [hsplit] at hnone
    cases hnone
  · rename_i head' arguments' hsome
    rw [hsplit] at hsome
    cases hsome
    simp only [String.toList_inj]
    congr 5
    split
    · rename_i hcomma
      rw [hcomma]
      rfl
    · rename_i key value hcomma
      rw [hcomma]
      rfl

end ColumnType

/-! ### Derivations -/

/-- A word that stands in front of one type. -/
inductive TypeHead where
  | list | set | reversed | frozen
deriving DecidableEq, Repr

namespace TypeHead

/-- The written word. -/
def word : TypeHead → String
  | list => "list"
  | set => "set"
  | reversed => "reversed"
  | frozen => "frozen"

/-- What the word makes of a type.  A type that is reversed already stays as it is, and so does what
is frozen already; a collection under a mark is not frozen by what stands in front of the mark. -/
def apply : TypeHead → ColumnType → ColumnType
  | list, t => .list t false
  | set, t => .set t false
  | reversed, t => t.descend
  | frozen, t => t.freeze

theorem word_injective {head head' : TypeHead} (h : head.word = head'.word) : head = head' := by
  cases head <;> cases head' <;> first | rfl | exact absurd h (by decide)

theorem word_any_isDelimiter (head : TypeHead) :
    head.word.toList.any ColumnType.isDelimiter = false := by
  cases head <;> decide

theorem not_mem_word (head : TypeHead) : '<' ∉ head.word.toList := by
  cases head <;> decide

theorem word_ne_map (head : TypeHead) : head.word ≠ "map" := by
  cases head <;> decide

end TypeHead

/-- A tree of productions of the grammar. -/
inductive TypeTree where
  | name (s : ScalarType)
  | varchar
  | map (key value : TypeTree)
  | behind (head : TypeHead) (argument : TypeTree)
deriving DecidableEq, Repr

namespace TypeTree

/-- Is it the tree of a collection, perhaps of a reversed one? -/
def isCollection : TypeTree → Bool
  | name _ | varchar => false
  | map _ _ => true
  | behind .reversed t => t.isCollection
  | behind _ _ => true

/-- Does `frozen` stand in front of collections only? -/
def isProper : TypeTree → Bool
  | name _ | varchar => true
  | map k v => k.isProper && v.isProper
  | behind head t => t.isProper && (head != .frozen || t.isCollection)

/-- The word that is derived. -/
def word : TypeTree → List Char
  | name s => s.name.toList
  | varchar => "varchar".toList
  | map k v => ColumnType.enclosed "map" (k.word ++ ',' :: v.word)
  | behind head t => ColumnType.enclosed head.word t.word

/-- The type that the word stands for. -/
def type : TypeTree → ColumnType
  | name s => .scalar s
  | varchar => .text
  | map k v => .map k.type v.type false
  | behind head t => head.apply t.type

end TypeTree

/-- A derivation of the grammar. -/
abbrev TypeDerivation := {t : TypeTree // t.isProper = true}

namespace TypeTree

/-- What is frozen is a collection. -/
theorem isCollection_type {t : TypeTree} (h : t.isProper = true) :
    t.type.isCollection = t.isCollection := by
  induction t with
  | name | varchar | map => rfl
  | behind head t ih =>
    obtain ⟨ht, hhead⟩ := Bool.and_eq_true_iff.1 h
    cases head with
    | list | set => rfl
    | reversed =>
      show t.type.descend.isCollection = t.isCollection
      rw [← ih ht]
      simp [ColumnType.isCollection]
    | frozen =>
      have hcollection : t.isCollection = true := hhead
      show t.type.freeze.isCollection = true
      rw [← hcollection, ← ih ht]
      cases t.type <;> rfl

/-! ### Derived words are read -/

/-- The comma of a map is not looked for inside a derived word. -/
theorem passedFrom_word (t : TypeTree) : ColumnType.PassedFrom 0 t.word := by
  induction t with
  | name s =>
    refine ColumnType.passedFrom_of_plain ?_
    cases s <;> decide
  | varchar => exact ColumnType.passedFrom_of_plain (by decide)
  | map k v ihk ihv =>
    exact ColumnType.passedFrom_enclosed (by decide)
      ((ihk.mono (Nat.zero_le 1)).append
        (ColumnType.passedFrom_comma.append (ihv.mono (Nat.zero_le 1))))
  | behind head t ih =>
    exact ColumnType.passedFrom_enclosed head.word_any_isDelimiter (ih.mono (Nat.zero_le 1))

theorem splitAtComma?_word (t : TypeTree) (rest : List Char) :
    ColumnType.splitAtComma? 0 (t.word ++ ',' :: rest) = some (t.word, rest) := by
  rw [t.passedFrom_word 0 (Nat.le_refl 0)]
  simp [ColumnType.splitAtComma?]

/-- **A derived word is read as the type that it stands for.** -/
theorem parse?_word {t : TypeTree} (h : t.isProper = true) :
    ColumnType.parse? t.word = some t.type := by
  induction t with
  | name s =>
    show ColumnType.parse? s.name.toList = _
    rw [ColumnType.parse?, ColumnType.ofName?_name]
    rfl
  | varchar =>
    show ColumnType.parse? "varchar".toList = _
    rw [ColumnType.parse?, ColumnType.ofName?_varchar]
    rfl
  | map k v ihk ihv =>
    obtain ⟨hk, hv⟩ := Bool.and_eq_true_iff.1 h
    show ColumnType.parse? (ColumnType.enclosed "map" (k.word ++ ',' :: v.word)) = _
    rw [ColumnType.parse?_enclosed (by decide), splitAtComma?_word]
    show (ColumnType.parse? k.word).bind _ = _
    rw [ihk hk, Option.bind_some, ihv hv]
    rfl
  | behind head t ih =>
    obtain ⟨ht, hhead⟩ := Bool.and_eq_true_iff.1 h
    show ColumnType.parse? (ColumnType.enclosed head.word t.word) = _
    cases head with
    | list | set | reversed =>
      rw [ColumnType.parse?_enclosed (by decide), ih ht]
      rfl
    | frozen =>
      rw [ColumnType.parse?_enclosed (by decide), ih ht]
      show (if t.type.isCollection = true then some t.type.freeze else none) = _
      rw [isCollection_type ht, if_pos (show t.isCollection = true from hhead)]
      rfl

/-- A collection under a mark is not frozen by what stands in front of the mark. -/
example : (behind .frozen (behind .reversed (behind .list (name .int)))).isProper = true ∧
    (behind .frozen (behind .reversed (behind .list (name .int)))).type =
      .descending (.list (.scalar .int) false) := by
  decide

/-! ### What is read was derived -/

/-- What is read behind a word that takes any type was derived, if what it stands in front of was. -/
theorem exists_derivation_behind (head : TypeHead) (hhead : head ≠ .frozen)
    {s arguments : List Char} {t : ColumnType}
    (hsplit : ColumnType.splitHead? s = some (head.word.toList, arguments))
    (ih : ∀ {t}, ColumnType.parse? arguments = some t →
      ∃ d : TypeDerivation, d.1.word = arguments ∧ d.1.type = t)
    (h : (ColumnType.parse? arguments).map head.apply = some t) :
    ∃ d : TypeDerivation, d.1.word = s ∧ d.1.type = t := by
  obtain ⟨inner, hinner, rfl⟩ := Option.map_eq_some_iff.1 h
  obtain ⟨⟨d, hd⟩, rfl, rfl⟩ := ih hinner
  have hproper : (behind head d).isProper = true := by
    simp [isProper, hd, hhead]
  exact ⟨⟨behind head d, hproper⟩, (ColumnType.eq_of_splitHead? hsplit).symm, rfl⟩

/-- **What is read was derived**, and the type that is read is that of the derivation. -/
theorem exists_derivation_of_parse? {s : List Char} {t : ColumnType}
    (h : ColumnType.parse? s = some t) :
    ∃ d : TypeDerivation, d.1.word = s ∧ d.1.type = t := by
  fun_induction ColumnType.parse? s generalizing t with
  | case1 s name hname =>
    cases h
    rcases ColumnType.eq_of_ofName? hname with rfl | ⟨rfl, rfl⟩
    · exact ⟨⟨.name name, rfl⟩, rfl, rfl⟩
    · exact ⟨⟨.varchar, rfl⟩, rfl, rfl⟩
  | case2 => cases h
  | case3 s hname arguments hhead hlength ih =>
    obtain ⟨inner, hinner, h⟩ := Option.bind_eq_some_iff.1 h
    obtain ⟨⟨d, hd⟩, rfl, rfl⟩ := ih hinner
    split at h
    · rename_i hcollection
      cases h
      rw [isCollection_type hd] at hcollection
      exact ⟨⟨.behind .frozen d, Bool.and_eq_true_iff.2 ⟨hd, hcollection⟩⟩,
        (ColumnType.eq_of_splitHead? hhead).symm, rfl⟩
    · cases h
  | case4 s hname arguments hhead hlength _ ih =>
    exact exists_derivation_behind .reversed nofun hhead ih h
  | case5 s hname arguments hhead hlength _ _ ih =>
    exact exists_derivation_behind .list nofun hhead ih h
  | case6 s hname arguments hhead hlength _ _ _ ih =>
    exact exists_derivation_behind .set nofun hhead ih h
  | case7 => cases h
  | case8 s hname arguments key value hsplit hshort hhead hlength _ _ _ _ ihk ihv =>
    obtain ⟨k, hk, h⟩ := Option.bind_eq_some_iff.1 h
    obtain ⟨v, hv, rfl⟩ := Option.map_eq_some_iff.1 h
    obtain ⟨⟨dk, hdk⟩, rfl, rfl⟩ := ihk hk
    obtain ⟨⟨dv, hdv⟩, rfl, rfl⟩ := ihv hv
    refine ⟨⟨.map dk dv, Bool.and_eq_true_iff.2 ⟨hdk, hdv⟩⟩, ?_, rfl⟩
    rw [ColumnType.eq_of_splitHead? hhead, ColumnType.eq_of_splitAtComma? hsplit]
    rfl
  | case9 => cases h

/-! ### No word is derived twice -/

theorem enclosed_inj {head head' : String} (h : '<' ∉ head.toList) (h' : '<' ∉ head'.toList)
    {arguments arguments' : List Char}
    (heq : ColumnType.enclosed head arguments = ColumnType.enclosed head' arguments') :
    head = head' ∧ arguments = arguments' := by
  have hsplit := congrArg ColumnType.splitHead? heq
  rw [ColumnType.splitHead?_enclosed h, ColumnType.splitHead?_enclosed h'] at hsplit
  obtain ⟨hhead, harguments⟩ := Prod.mk.inj (Option.some.inj hsplit)
  exact ⟨String.toList_inj.1 hhead, harguments⟩

theorem enclosed_ne_of_ofName? {s : List Char} {name : ScalarType}
    (h : ScalarType.ofName? s = some name) (head : String) (arguments : List Char) :
    s ≠ ColumnType.enclosed head arguments := by
  rintro rfl
  rw [ColumnType.ofName?_enclosed] at h
  cases h

/-- **No word is derived twice.** -/
theorem word_injective {t t' : TypeTree} (h : t.word = t'.word) : t = t' := by
  induction t generalizing t' with
  | name s =>
    have hname := ColumnType.ofName?_name s
    cases t' with
    | name s' =>
      have hs : s.name.toList = s'.name.toList := h
      rw [hs, ColumnType.ofName?_name] at hname
      cases hname
      rfl
    | varchar => cases s <;> exact absurd h (by decide)
    | map k' v' => exact absurd h (enclosed_ne_of_ofName? hname _ _)
    | behind head' t' => exact absurd h (enclosed_ne_of_ofName? hname _ _)
  | varchar =>
    have hname := ColumnType.ofName?_varchar
    cases t' with
    | name s' => cases s' <;> exact absurd h (by decide)
    | varchar => rfl
    | map k' v' => exact absurd h (enclosed_ne_of_ofName? hname _ _)
    | behind head' t' => exact absurd h (enclosed_ne_of_ofName? hname _ _)
  | map k v ihk ihv =>
    cases t' with
    | name s' => exact absurd h.symm (enclosed_ne_of_ofName? (ColumnType.ofName?_name s') _ _)
    | varchar => exact absurd h.symm (enclosed_ne_of_ofName? ColumnType.ofName?_varchar _ _)
    | map k' v' =>
      have hparts := congrArg (ColumnType.splitAtComma? 0)
        (enclosed_inj (by decide) (by decide) h).2
      rw [splitAtComma?_word, splitAtComma?_word] at hparts
      obtain ⟨hk, hv⟩ := Prod.mk.inj (Option.some.inj hparts)
      rw [ihk hk, ihv hv]
    | behind head' t' =>
      exact absurd (enclosed_inj (by decide) head'.not_mem_word h).1.symm head'.word_ne_map
  | behind head t ih =>
    cases t' with
    | name s' => exact absurd h.symm (enclosed_ne_of_ofName? (ColumnType.ofName?_name s') _ _)
    | varchar => exact absurd h.symm (enclosed_ne_of_ofName? ColumnType.ofName?_varchar _ _)
    | map k' v' =>
      exact absurd (enclosed_inj head.not_mem_word (by decide) h).1 head.word_ne_map
    | behind head' t' =>
      obtain ⟨hhead, ht⟩ := enclosed_inj head.not_mem_word head'.not_mem_word h
      rw [TypeHead.word_injective hhead, ih ht]

end TypeTree

/-- **Reading finds the derivations.** -/
theorem ColumnType.parse?_eq_some_iff {s : List Char} {t : ColumnType} :
    parse? s = some t ↔ ∃ d : TypeDerivation, d.1.word = s ∧ d.1.type = t := by
  constructor
  · exact TypeTree.exists_derivation_of_parse?
  · rintro ⟨⟨d, hd⟩, rfl, rfl⟩
    exact TypeTree.parse?_word hd

/-- **A text is read if and only if it is derived**, and then in one way only. -/
theorem ColumnType.parse?_isSome_iff {s : List Char} :
    (parse? s).isSome = true ↔ ∃! d : TypeDerivation, d.1.word = s := by
  rw [Option.isSome_iff_exists]
  constructor
  · rintro ⟨t, h⟩
    obtain ⟨d, hword, -⟩ := parse?_eq_some_iff.1 h
    exact ⟨d, hword, fun d' hword' =>
      Subtype.ext (TypeTree.word_injective (hword'.trans hword.symm))⟩
  · rintro ⟨d, hword, -⟩
    exact ⟨d.1.type, parse?_eq_some_iff.2 ⟨d, hword, rfl⟩⟩

end WideColumn
