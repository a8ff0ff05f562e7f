import Mathlib.Algebra.Group.Nat.Defs
import Mathlib.Data.List.TakeDrop
import WideColumn.Json.Reader
import WideColumn.Json.Writer

/-!
# JSON texts read back

The written form of a value is read as that value again.  It has to be `Writable`: its numbers are
whole and fit into a word of 64 bits, and arrays and objects stand in each other no deeper than a
reader allows.

* `quoted?_quote` — texts, with whatever has to be escaped in them;
* `numeral?_toDigits`, `toJson_toDigits` — numbers;
* `IsRead` — what reads back, whatever follows;
* `Writable.isRead` — **the written form of a value reads as the value**;
* `ofText?_pretty` — and so does the text of a whole document.
-/

namespace WideColumn.Json

/-! ### Texts -/

theorem shortEscape?_ne_u {c point : Char} (h : shortEscape? c = some point) : c ≠ 'u' := by
  rintro rfl
  cases h

/-- A short escape stands for its character. -/
theorem points?_shortEscape {c point : Char} (h : shortEscape? c = some point) (rest : List Char) :
    points? ('\\' :: c :: rest) = (points? rest).map fun p => (point.toNat :: p.1, p.2) := by
  rw [points?, h]
  · cases points? rest <;> rfl
  · intro _ _ _ _ _ hu
    exact absurd hu (shortEscape?_ne_u h)

theorem unit?_control : ∀ n < 0x20,
    unit? '0' '0' (Text.Hex.digit (n / 16)) (Text.Hex.digit (n % 16)) = some n := by decide

/-- What is written for a character is read as its code point. -/
theorem points?_escaped (c : Char) (rest : List Char) :
    points? (escaped c ++ rest) = (points? rest).map fun p => (c.toNat :: p.1, p.2) := by
  unfold escaped
  split
  · exact points?_shortEscape rfl rest
  · exact points?_shortEscape rfl rest
  · exact points?_shortEscape rfl rest
  · exact points?_shortEscape rfl rest
  · exact points?_shortEscape rfl rest
  · exact points?_shortEscape rfl rest
  · exact points?_shortEscape rfl rest
  · rename_i hquote hback _ _ _ _ _
    split
    · rename_i hcontrol
      show points? ('\\' :: 'u' :: '0' :: '0' :: Text.Hex.digit (c.toNat / 16) ::
        Text.Hex.digit (c.toNat % 16) :: rest) = _
      rw [points?, unit?_control c.toNat hcontrol]
      cases points? rest <;> rfl
    · rename_i hcontrol
      show points? (c :: rest) = _
      rw [points?, if_neg hcontrol]
      · cases points? rest <;> rfl
      · exact hquote
      · exact fun _ _ _ _ _ hc _ => hback hc
      · exact fun _ _ hc _ => hback hc

theorem points?_flatMap (cs rest : List Char) :
    points? (cs.flatMap escaped ++ '"' :: rest) = some (cs.map Char.toNat, rest) := by
  induction cs with
  | nil => rfl
  | cons c cs ih =>
    rw [List.flatMap_cons, List.append_assoc, points?_escaped, ih]
    rfl

theorem joinPairs?_cons {n : Nat} (h : n < 0xD800 ∨ 0xDFFF < n) (rest : List Nat) :
    joinPairs? (n :: rest) = (joinPairs? rest).map (Char.ofNat n :: ·) := by
  rw [joinPairs?.eq_def]
  simp only
  rw [if_pos h]
  cases joinPairs? rest <;> rfl

/-- Characters are no surrogates. -/
theorem joinPairs?_toNat (cs : List Char) : joinPairs? (cs.map Char.toNat) = some cs := by
  induction cs with
  | nil => rfl
  | cons c cs ih =>
    have hvalid : c.toNat < 0xD800 ∨ 0xDFFF < c.toNat := c.valid.imp id And.left
    rw [List.map_cons, joinPairs?_cons hvalid, ih, Char.ofNat_toNat]
    rfl

/-- **A text is read as it was, with all that is escaped in it.** -/
theorem quoted?_quote (s : String) (rest : List Char) :
    quoted? (s.toList.flatMap escaped ++ '"' :: rest) = some (some s, rest) := by
  unfold quoted?
  rw [points?_flatMap]
  show some ((joinPairs? (s.toList.map Char.toNat)).map String.ofList, rest) = _
  rw [joinPairs?_toNat]
  simp

theorem quote_toList (s : String) :
    (quote s).toList = '"' :: (s.toList.flatMap escaped ++ ['"']) := by
  simp [quote]

/-! ### Numbers -/

/-- What follows does not belong to a number. -/
def EndsNumber (rest : List Char) : Prop :=
  ∀ c ∈ rest.head?, c.isDigit = false ∧ c ≠ '.' ∧ c ≠ 'e' ∧ c ≠ 'E'

theorem endsNumber_cons {c : Char} (h : c.isDigit = false ∧ c ≠ '.' ∧ c ≠ 'e' ∧ c ≠ 'E')
    (rest : List Char) : EndsNumber (c :: rest) := by
  intro d hd
  obtain rfl := Option.some.inj hd
  exact h

theorem digits?_append {ds rest : List Char} (hds : ∀ c ∈ ds, c.isDigit = true) (hne : ds ≠ [])
    (hrest : EndsNumber rest) : digits? (ds ++ rest) = some (ds, rest) := by
  have hspan : (ds ++ rest).span Char.isDigit = (ds, rest) := by
    rw [List.span_eq_takeWhile_dropWhile, List.takeWhile_append_of_pos hds,
      List.dropWhile_append_of_pos hds]
    cases rest with
    | nil => simp
    | cons c rest =>
      have hc := (hrest c rfl).1
      simp [hc]
  unfold digits?
  rw [hspan]
  cases ds with
  | nil => exact absurd rfl hne
  | cons c ds => rfl

/-- Only the number zero starts with the digit zero. -/
theorem toDigits_eq_cons {n : Nat} (h : n ≠ 0) :
    ∃ c ds, Nat.toDigits 10 n = c :: ds ∧ c ≠ '0' := by
  induction n using Nat.strongRecOn with
  | ind n ih =>
    rw [Nat.toDigits_eq_if (by decide)]
    split
    · exact ⟨_, [], rfl, fun hzero => h (Nat.digitChar_eq_zero.1 hzero)⟩
    · rename_i hlarge
      obtain ⟨c, ds, hds, hc⟩ := ih (n / 10) (by omega) (by omega)
      exact ⟨c, ds ++ [(n % 10).digitChar], by rw [hds, List.cons_append], hc⟩

theorem isDigit_toDigits (n : Nat) : ∀ c ∈ Nat.toDigits 10 n, c.isDigit = true :=
  fun _ hc => Nat.isDigit_of_mem_toDigits (by decide) (by decide) hc

/-- The digits of a number are read as far as they go. -/
theorem whole?_toDigits (n : Nat) {rest : List Char} (hrest : EndsNumber rest) :
    whole? (Nat.toDigits 10 n ++ rest) = some (Nat.toDigits 10 n, rest) := by
  by_cases hn : n = 0
  · subst hn
    rfl
  · have hdigits := digits?_append (isDigit_toDigits n) Nat.toDigits_ne_nil hrest
    obtain ⟨c, ds, hds, hc⟩ := toDigits_eq_cons hn
    rw [hds] at hdigits ⊢
    rw [List.cons_append, whole?]
    · exact hdigits
    · intro _ heq
      exact hc (List.cons.inj heq).1

theorem fraction?_of_endsNumber {rest : List Char} (h : EndsNumber rest) :
    fraction? rest = some (none, rest) := by
  cases rest with
  | nil => rfl
  | cons c rest =>
    rw [fraction?]
    intro _ heq
    exact (h c rfl).2.1 (List.cons.inj heq).1

theorem exponent?_of_endsNumber {rest : List Char} (h : EndsNumber rest) :
    exponent? rest = some (none, rest) := by
  cases rest with
  | nil => rfl
  | cons c rest =>
    obtain ⟨-, -, hlower, hupper⟩ := h c rfl
    exact if_neg fun hor => hor.elim hlower hupper

/-- The digits of a number are a number without a sign, a point or an exponent. -/
theorem numeral?_toDigits (n : Nat) {rest : List Char} (h : EndsNumber rest) :
    numeral? (Nat.toDigits 10 n ++ rest) = some (⟨false, Nat.toDigits 10 n, none, none⟩, rest) := by
  have hwhole := whole?_toDigits n h
  obtain ⟨c, ds, hds⟩ := List.exists_cons_of_ne_nil (Nat.toDigits_ne_nil (b := 10) (n := n))
  have hc : c.isDigit = true := isDigit_toDigits n c (by rw [hds]; exact List.mem_cons_self)
  unfold numeral?
  split
  rename_i isNegative s heq
  split at heq
  · rename_i hminus
    rw [hds] at hminus
    rw [(List.cons.inj hminus).1] at hc
    exact absurd hc (by decide)
  · cases heq
    rw [hwhole]
    simp only [Option.bind_eq_bind, Option.bind_some, fraction?_of_endsNumber h,
      exponent?_of_endsNumber h]
    rfl

theorem natOfDigits_toDigits (n : Nat) : natOfDigits (Nat.toDigits 10 n) = n := by
  have hsame : natOfDigits (Nat.toDigits 10 n) = Nat.ofDigitChars 10 (Nat.toDigits 10 n) 0 := by
    rw [Nat.ofDigitChars_eq_foldl]
    unfold natOfDigits digitValue
    congr 1
    funext m c
    rw [Nat.mul_comm]
    rfl
  rw [hsame, Nat.ofDigitChars_ten_toDigits]

/-- More digits make a number no smaller. -/
theorem le_foldl_digits (n : Nat) (ds : List Char) :
    n ≤ ds.foldl (fun n c => n * 10 + digitValue c) n := by
  induction ds generalizing n with
  | nil => exact Nat.le_refl n
  | cons c ds ih =>
    have hle : n ≤ n * 10 + digitValue c := by omega
    exact Nat.le_trans hle (ih _)

/-- Digits are gathered as long as the number fits into a word. -/
theorem appendDigits_eq {n : Nat} {ds : List Char}
    (h : ds.foldl (fun n c => n * 10 + digitValue c) n < 0x10000000000000000) :
    appendDigits n ds = (ds.foldl (fun n c => n * 10 + digitValue c) n, []) := by
  induction ds generalizing n with
  | nil => rfl
  | cons c ds ih =>
    have hfits : n * 10 + digitValue c < 0x10000000000000000 :=
      Nat.lt_of_le_of_lt (le_foldl_digits _ ds) h
    unfold appendDigits
    exact (if_pos hfits).trans (ih h)

/-- Rounding at most doubles a number. -/
theorem nearest_le (f : Number.FloatFormat) (n : Nat) : f.nearest n ≤ 2 * n := by
  by_cases hn : n = 0
  · subst hn
    have hself : f.nearest 0 = 0 := Number.FloatFormat.nearest_eq_self (by simp)
    exact Nat.le_of_eq hself
  · have hunit : Nat.pow 2 (n.log2 - f.fractionBits) ≤ n :=
      Nat.le_trans (Nat.pow_le_pow_right (by decide) (Nat.sub_le _ _)) (Nat.log2_self_le hn)
    unfold Number.FloatFormat.nearest
    generalize Nat.pow 2 (n.log2 - f.fractionBits) = unit at hunit ⊢
    have hlower : n / unit * unit ≤ n := Nat.div_mul_le_self n unit
    simp only
    split
    · rw [Nat.add_mul]
      omega
    · omega

theorem two_pow_le_limit {f : Number.FloatFormat} {bits : Nat}
    (h : bits ≤ Nat.pow 2 (f.exponentBits - 1)) : 2 ^ bits ≤ f.limit :=
  Nat.pow_le_pow_right Nat.zero_lt_two h

/-- Words of 64 bits are far below the limit of double precision. -/
theorem binary64_holds {n : Nat} (h : n < 0x10000000000000000) :
    Number.binary64.holds ⟨n, 0⟩ = true := by
  have hone : Number.binary64.nearest (Nat.pow 10 0) = 1 :=
    Number.FloatFormat.nearest_eq_self (by decide)
  have hbound : Number.binary64.nearest (Number.binary64.nearest n * 1) ≤ 2 * (2 * n) := by
    rw [Nat.mul_one]
    exact Nat.le_trans (nearest_le _ _) (Nat.mul_le_mul_left 2 (nearest_le _ n))
  have hlimit : 2 ^ 66 ≤ Number.binary64.limit := two_pow_le_limit (by decide)
  unfold Number.FloatFormat.holds
  simp only [Int.toNat_zero, hone, Bool.or_eq_true, Bool.and_eq_true, decide_eq_true_eq]
  exact .inr ⟨Nat.zero_le _, by omega⟩

/-- **A number of 64 bits is what its digits stand for.** -/
theorem toJson_toDigits {n : Nat} (h : n < 0x10000000000000000) :
    (⟨false, Nat.toDigits 10 n, none, none⟩ : Numeral).toJson = integer n := by
  have hdigits : appendDigits 0 (Nat.toDigits 10 n) = (n, []) := by
    have hsame : (Nat.toDigits 10 n).foldl (fun n c => n * 10 + digitValue c) 0 = n :=
      natOfDigits_toDigits n
    rw [appendDigits_eq (by rw [hsame]; exact h), hsame]
  have hdecimal : (⟨false, Nat.toDigits 10 n, none, none⟩ : Numeral).decimal = ⟨n, 0⟩ := by
    unfold Numeral.decimal
    simp [hdigits, appendDigits]
  unfold Numeral.toJson
  rw [hdecimal, binary64_holds h, natOfDigits_toDigits]
  rfl

/-! ### Blank space -/

/-- Nothing but blanks. -/
def IsPadding (s : List Char) : Prop := ∀ c ∈ s, isBlank c = true

theorem skipBlank_append {pad : List Char} (h : IsPadding pad) (s : List Char) :
    skipBlank (pad ++ s) = skipBlank s :=
  List.dropWhile_append_of_pos h

theorem skipBlank_cons {c : Char} (h : isBlank c = false) (s : List Char) :
    skipBlank (c :: s) = c :: s := by
  unfold skipBlank
  rw [List.dropWhile_cons_of_neg (by simp [h])]

theorem value?_append {pad : List Char} (h : IsPadding pad) (fuel room : Nat) (s : List Char) :
    value? fuel room (pad ++ s) = value? fuel room s := by
  cases fuel with
  | zero => rfl
  | succ fuel => rw [value?, value?, skipBlank_append h]

theorem items?_append {pad : List Char} (h : IsPadding pad) (fuel room : Nat) (s : List Char) :
    items? fuel room (pad ++ s) = items? fuel room s := by
  cases fuel with
  | zero => rfl
  | succ fuel => rw [items?, items?, value?_append h]

theorem memberList?_append {pad : List Char} (h : IsPadding pad) (fuel room : Nat)
    (s : List Char) : memberList? fuel room (pad ++ s) = memberList? fuel room s := by
  cases fuel with
  | zero => rfl
  | succ fuel => rw [memberList?, memberList?, skipBlank_append h]

/-- What stands behind a number in an array or an object is no part of it. -/
theorem endsNumber_padding {pad : List Char} (h : IsPadding pad) {c : Char}
    (hc : c.isDigit = false ∧ c ≠ '.' ∧ c ≠ 'e' ∧ c ≠ 'E') (rest : List Char) :
    EndsNumber (pad ++ c :: rest) := by
  cases pad with
  | nil => exact endsNumber_cons hc rest
  | cons b pad =>
    refine endsNumber_cons ?_ _
    have hb := h b List.mem_cons_self
    unfold isBlank at hb
    simp only [Bool.or_eq_true, decide_eq_true_eq] at hb
    rcases hb with ((rfl | rfl) | rfl) | rfl <;> decide

/-! ### Items and members -/

/-- The characters are read as the value, whatever follows. -/
structure IsRead (room : Nat) (s : List Char) (j : Json) : Prop where
  head : ∃ c tail, s = c :: tail ∧ isBlank c = false ∧ c ≠ ']'
  value : ∀ fuel rest, 2 * s.length ≤ fuel → EndsNumber rest →
    value? fuel room (s ++ rest) = some (j, rest)

/-- Items that are read one by one are read together. -/
theorem items?_of_isRead {room : Nat} {pad close : List Char} (hpad : IsPadding pad)
    (hclose : IsPadding close) (write : Json → List Char) {items : List Json}
    (hread : ∀ j ∈ items, IsRead room (write j) j) (hne : items ≠ []) (fuel : Nat)
    (rest : List Char)
    (hfuel : 2 * ((',' :: pad).intercalate (items.map write)).length + 1 ≤ fuel) :
    items? fuel room ((',' :: pad).intercalate (items.map write) ++ (close ++ ']' :: rest)) =
      some (items, rest) := by
  induction items generalizing fuel with
  | nil => exact absurd rfl hne
  | cons j items ih =>
    obtain ⟨hfirst, hrest⟩ := List.forall_mem_cons.1 hread
    obtain ⟨fuel, rfl⟩ : ∃ n, fuel = n + 1 := ⟨fuel - 1, by omega⟩
    cases items with
    | nil =>
      have hends : EndsNumber (close ++ ']' :: rest) := endsNumber_padding hclose (by decide) rest
      simp only [List.map_cons, List.map_nil, List.intercalate_singleton] at hfuel ⊢
      rw [items?, hfirst.value fuel _ (by omega) hends]
      simp only [Option.bind_eq_bind, Option.bind_some]
      rw [skipBlank_append hclose, skipBlank_cons (by decide)]
      rfl
    | cons next items =>
      simp only [List.map_cons, List.intercalate_cons_cons, List.length_append,
        List.length_cons] at hfuel ih ⊢
      have hends : ∀ rest, EndsNumber (',' :: rest) := endsNumber_cons (by decide)
      rw [List.append_assoc, List.append_assoc, items?, List.cons_append,
        hfirst.value fuel _ (by omega) (hends _)]
      simp only [Option.bind_eq_bind, Option.bind_some]
      rw [skipBlank_cons (by decide)]
      simp only
      rw [items?_append hpad, ih hrest (List.cons_ne_nil _ _) fuel (by omega)]
      rfl

/-- The characters of a member of an object. -/
def memberChars (name : String) (s : List Char) : List Char :=
  (quote name).toList ++ ':' :: ' ' :: s

theorem memberChars_eq_cons (name : String) (s : List Char) :
    memberChars name s = '"' :: (name.toList.flatMap escaped ++ '"' :: ':' :: ' ' :: s) := by
  rw [memberChars, quote_toList, List.cons_append, List.append_assoc]
  rfl

/-- A member is read up to what follows it: a comma and other members, or the closing brace. -/
theorem memberList?_memberChars {room : Nat} {s : List Char} {j : Json} (h : IsRead room s j)
    (name : String) {fuel : Nat} (hfuel : 2 * s.length ≤ fuel) {rest following : List Char}
    (hrest : EndsNumber rest) (hfollowing : skipBlank rest = following) :
    (∀ more, following = ',' :: more →
      memberList? (fuel + 1) room (memberChars name s ++ rest) =
        (memberList? fuel room more).map fun p => ((some name, j) :: p.1, p.2)) ∧
    ∀ more, following = '\x7d' :: more →
      memberList? (fuel + 1) room (memberChars name s ++ rest) = some ([(some name, j)], more) := by
  have hpad : IsPadding [' '] := by
    intro c hc
    rw [List.mem_singleton.1 hc]
    rfl
  have hvalue : value? fuel room (' ' :: (s ++ rest)) = some (j, rest) :=
    (value?_append hpad fuel room (s ++ rest)).trans (h.value fuel rest hfuel hrest)
  rw [memberChars_eq_cons, memberList?]
  simp only [List.cons_append, List.append_assoc]
  rw [skipBlank_cons (by decide)]
  simp only [quoted?_quote, Option.bind_eq_bind, Option.bind_some]
  rw [skipBlank_cons (by decide)]
  simp only [hvalue, Option.bind_some, hfollowing]
  constructor
  · intro more hmore
    rw [hmore]
    show (memberList? fuel room more).bind _ = _
    cases memberList? fuel room more <;> rfl
  · intro more hmore
    rw [hmore]
    rfl

/-- Members whose values are read one by one are read together. -/
theorem memberList?_of_isRead {room : Nat} {pad close : List Char} (hpad : IsPadding pad)
    (hclose : IsPadding close) (write : Json → List Char) {members : List (String × Json)}
    (hread : ∀ m ∈ members, IsRead room (write m.2) m.2) (hne : members ≠ []) (fuel : Nat)
    (rest : List Char)
    (hfuel : 2 * ((',' :: pad).intercalate
      (members.map fun m => memberChars m.1 (write m.2))).length + 1 ≤ fuel) :
    memberList? fuel room ((',' :: pad).intercalate
        (members.map fun m => memberChars m.1 (write m.2)) ++ (close ++ '\x7d' :: rest)) =
      some (members.map fun m => (some m.1, m.2), rest) := by
  induction members generalizing fuel with
  | nil => exact absurd rfl hne
  | cons m members ih =>
    obtain ⟨hfirst, hrest⟩ := List.forall_mem_cons.1 hread
    obtain ⟨fuel, rfl⟩ : ∃ n, fuel = n + 1 := ⟨fuel - 1, by omega⟩
    have hshort : (write m.2).length ≤ (memberChars m.1 (write m.2)).length := by
      simp only [memberChars, List.length_append, List.length_cons]
      omega
    cases members with
    | nil =>
      have hends : EndsNumber (close ++ '\x7d' :: rest) :=
        endsNumber_padding hclose (by decide) rest
      simp only [List.map_cons, List.map_nil, List.intercalate_singleton] at hfuel ⊢
      have hnext : skipBlank (close ++ '\x7d' :: rest) = '\x7d' :: rest := by
        rw [skipBlank_append hclose, skipBlank_cons (by decide)]
      exact (memberList?_memberChars hfirst m.1 (by omega) hends hnext).2 rest rfl
    | cons next members =>
      simp only [List.map_cons, List.intercalate_cons_cons, List.length_append,
        List.length_cons] at hfuel ih ⊢
      have hends : ∀ rest, EndsNumber (',' :: rest) := endsNumber_cons (by decide)
      rw [List.append_assoc, List.append_assoc, List.cons_append,
        (memberList?_memberChars hfirst m.1 (by omega) (hends _)
          (skipBlank_cons (by decide) _)).1 _ rfl,
        memberList?_append hpad, ih hrest (List.cons_ne_nil _ _) fuel (by omega)]
      rfl

/-- Members that all have a readable name make an object. -/
theorem ofMembers_of_mapM {members : List (Option String × Json)} {named : List (String × Json)}
    (h : (members.mapM fun m => m.1.map fun name => (name, m.2)) = some named) :
    ofMembers members = object named := by
  unfold ofMembers
  split
  · rename_i found hfound
    rw [Option.some.inj (hfound.symm.trans h)]
  · rename_i hnone
    cases hnone.symm.trans h

theorem ofMembers_some (members : List (String × Json)) :
    ofMembers (members.map fun m => (some m.1, m.2)) = object members := by
  refine ofMembers_of_mapM ?_
  induction members with
  | nil => rfl
  | cons m members ih =>
    rw [List.map_cons, List.mapM_cons, ih]
    rfl

/-! ### Written forms -/

/-- The blanks at the front of a line. -/
def indent (level : Nat) : List Char := '\n' :: List.replicate (2 * level) ' '

theorem indent_isPadding (level : Nat) : IsPadding (indent level) := by
  intro c hc
  rcases List.mem_cons.1 hc with rfl | hc
  · rfl
  · rw [List.eq_of_mem_replicate hc]
    rfl

theorem pushn_toList (n : Nat) : ("".pushn ' ' n).toList = List.replicate n ' ' := by
  rw [String.pushn_eq_repeat_push]
  induction n with
  | zero => rfl
  | succ n ih => rw [Nat.repeat, String.toList_push, ih, List.replicate_succ']

theorem encloseLines_toList (opening closing : String) (level : Nat) (items : List String) :
    (encloseLines opening closing level items).toList =
      opening.toList ++ indent (level + 1) ++
        (',' :: indent (level + 1)).intercalate (items.map String.toList) ++
          (indent level ++ closing.toList) := by
  have hindent : indent (level + 1) = '\n' :: (List.replicate (2 * level) ' ' ++ [' ', ' ']) := by
    unfold indent
    rw [show 2 * (level + 1) = 2 * level + 2 from by omega, ← List.replicate_append_replicate]
    rfl
  unfold encloseLines enclose
  simp only [String.toList_append, String.toList_intercalate, pushn_toList, hindent]
  simp [indent]

theorem prettyItems_eq_map (level : Nat) (items : List Json) :
    prettyItems level items = items.map (prettyAt level) := by
  induction items with
  | nil => rfl
  | cons j items ih => rw [prettyItems, ih, List.map_cons]

theorem prettyMembers_eq_map (level : Nat) (members : List (String × Json)) :
    prettyMembers level members =
      members.map fun m => quote m.1 ++ ": " ++ prettyAt level m.2 := by
  induction members with
  | nil => rfl
  | cons m members ih => rw [prettyMembers, ih, List.map_cons]

/-- The characters of the written form of a value inside `level` brackets. -/
def chars (level : Nat) (j : Json) : List Char := (prettyAt level j).toList

theorem chars_array (level : Nat) {items : List Json} (h : items ≠ []) :
    chars level (array items) = '[' :: (indent (level + 1) ++
      ((',' :: indent (level + 1)).intercalate (items.map (chars (level + 1))) ++
        (indent level ++ [']']))) := by
  unfold chars
  rw [prettyAt, encloseLines_toList, prettyItems_eq_map, List.map_map]
  · rw [List.append_assoc, List.append_assoc]
    rfl
  · exact h

theorem chars_object (level : Nat) {members : List (String × Json)} (h : members ≠ []) :
    chars level (object members) = '\x7b' :: (indent (level + 1) ++
      ((',' :: indent (level + 1)).intercalate
          (members.map fun m => memberChars m.1 (chars (level + 1) m.2)) ++
        (indent level ++ ['\x7d']))) := by
  have hmembers : (prettyMembers (level + 1) members).map String.toList =
      members.map fun m => memberChars m.1 (chars (level + 1) m.2) := by
    rw [prettyMembers_eq_map, List.map_map]
    refine List.map_congr_left fun m _ => ?_
    show (quote m.1 ++ ": " ++ prettyAt (level + 1) m.2).toList = _
    rw [String.toList_append, String.toList_append, List.append_assoc]
    rfl
  rw [← hmembers]
  unfold chars
  rw [prettyAt, encloseLines_toList]
  · rw [List.append_assoc, List.append_assoc]
    rfl
  · exact h

/-! ### What reads back -/

/-- The value can be written so that it is read again, with this much room for nesting. -/
inductive Writable : Nat → Json → Prop
  | null {room : Nat} : Writable room null
  | bool {room : Nat} (b : Bool) : Writable room (bool b)
  | integer {room n : Nat} (h : n < 0x10000000000000000) : Writable room (integer n)
  | text {room : Nat} (s : String) : Writable room (text s)
  | array {room : Nat} {items : List Json} (h : ∀ j ∈ items, Writable room j) :
      Writable (room + 1) (array items)
  | object {room : Nat} {members : List (String × Json)} (h : ∀ m ∈ members, Writable room m.2) :
      Writable (room + 1) (object members)

/-- Characters are read by their first one, and there is fuel for more than the others. -/
theorem IsRead.of_cons {room : Nat} {s : List Char} {j : Json} {c : Char} {tail : List Char}
    (hs : s = c :: tail) (hblank : isBlank c = false) (hclose : c ≠ ']')
    (hvalue : ∀ fuel rest, 2 * tail.length + 1 ≤ fuel → EndsNumber rest →
      value? (fuel + 1) room (c :: (tail ++ rest)) = some (j, rest)) : IsRead room s j := by
  subst hs
  refine ⟨⟨c, tail, rfl, hblank, hclose⟩, fun fuel rest hfuel hrest => ?_⟩
  rw [List.length_cons] at hfuel
  obtain ⟨fuel, rfl⟩ : ∃ n, fuel = n + 1 := ⟨fuel - 1, by omega⟩
  exact hvalue fuel rest (by omega) hrest

theorem isRead_null (room level : Nat) : IsRead room (chars level null) null := by
  have hchars : chars level null = ['n', 'u', 'l', 'l'] := by
    unfold chars prettyAt
    rfl
  exact .of_cons hchars (by decide) (by decide) fun fuel rest _ _ => rfl

theorem isRead_bool (room level : Nat) (b : Bool) :
    IsRead room (chars level (bool b)) (bool b) := by
  cases b with
  | true =>
    have hchars : chars level (bool true) = ['t', 'r', 'u', 'e'] := by
      unfold chars prettyAt
      rfl
    exact .of_cons hchars (by decide) (by decide) fun fuel rest _ _ => rfl
  | false =>
    have hchars : chars level (bool false) = ['f', 'a', 'l', 's', 'e'] := by
      unfold chars prettyAt
      rfl
    exact .of_cons hchars (by decide) (by decide) fun fuel rest _ _ => rfl

theorem not_isDigit {c d : Char} (hc : c.isDigit = true) (hd : d.isDigit = false) : c ≠ d := by
  rintro rfl
  rw [hc] at hd
  cases hd

theorem isBlank_of_isDigit {c : Char} (h : c.isDigit = true) : isBlank c = false := by
  unfold isBlank
  simp [not_isDigit h (show ' '.isDigit = false from rfl),
    not_isDigit h (show '\t'.isDigit = false from rfl),
    not_isDigit h (show '\n'.isDigit = false from rfl),
    not_isDigit h (show '\r'.isDigit = false from rfl)]

/-- What starts with a digit is read as a number. -/
theorem value?_of_isDigit {c : Char} (h : c.isDigit = true) (fuel room : Nat) (s : List Char) :
    value? (fuel + 1) room (c :: s) = (numeral? (c :: s)).map fun p => (p.1.toJson, p.2) := by
  have hne {d : Char} {rest : List Char} (hd : d.isDigit = false) : c :: s ≠ d :: rest :=
    fun heq => not_isDigit h hd (List.cons.inj heq).1
  rw [value?, skipBlank_cons (isBlank_of_isDigit h)]
  split
  · rename_i heq
    exact absurd heq (hne rfl)
  · rename_i heq
    exact absurd heq (hne rfl)
  · rename_i heq
    exact absurd heq (hne rfl)
  · rename_i heq
    exact absurd heq (hne rfl)
  · rename_i heq
    exact absurd heq (hne rfl)
  · rename_i heq
    exact absurd heq (hne rfl)
  · cases numeral? (c :: s) <;> rfl

theorem isRead_integer (room level : Nat) {n : Nat} (h : n < 0x10000000000000000) :
    IsRead room (chars level (integer n)) (integer n) := by
  have hchars : chars level (integer n) = Nat.toDigits 10 n := by
    unfold chars prettyAt
    show (toString n).toList = _
    rw [Nat.toString_eq_ofList_toDigits, String.toList_ofList]
  obtain ⟨c, ds, hds⟩ := List.exists_cons_of_ne_nil (Nat.toDigits_ne_nil (b := 10) (n := n))
  have hc : c.isDigit = true := isDigit_toDigits n c (by rw [hds]; exact List.mem_cons_self)
  refine .of_cons (hchars.trans hds) (isBlank_of_isDigit hc) (not_isDigit hc rfl)
    fun fuel rest _ hrest => ?_
  have hnumeral := numeral?_toDigits n hrest
  rw [hds, List.cons_append] at hnumeral
  rw [value?_of_isDigit hc, hnumeral, ← hds]
  show some ((⟨false, Nat.toDigits 10 n, none, none⟩ : Numeral).toJson, rest) = _
  rw [toJson_toDigits h]

theorem isRead_text (room level : Nat) (s : String) :
    IsRead room (chars level (text s)) (text s) := by
  have hchars : chars level (text s) = '"' :: (s.toList.flatMap escaped ++ ['"']) := by
    unfold chars prettyAt
    exact quote_toList s
  refine .of_cons hchars (by decide) (by decide) fun fuel rest _ _ => ?_
  rw [value?]
  simp only [List.append_assoc, List.singleton_append]
  rw [skipBlank_cons (by decide)]
  simp only [quoted?_quote, Option.bind_eq_bind, Option.bind_some]
  rfl

theorem intercalate_eq_cons {sep s : List Char} {c : Char} {tail : List Char} (hs : s = c :: tail)
    (rest : List (List Char)) : ∃ more, sep.intercalate (s :: rest) = c :: more := by
  subst hs
  cases rest with
  | nil => exact ⟨tail, by simp⟩
  | cons next rest =>
    exact ⟨_, by rw [List.intercalate_cons_cons, List.cons_append, List.cons_append]⟩

/-- An array is read if its items are. -/
theorem isRead_array {room level : Nat} {items : List Json}
    (h : ∀ j ∈ items, IsRead room (chars (level + 1) j) j) :
    IsRead (room + 1) (chars level (array items)) (array items) := by
  by_cases hne : items = []
  · subst hne
    have hchars : chars level (array []) = ['[', ']'] := by
      unfold chars prettyAt
      rfl
    exact .of_cons hchars (by decide) (by decide) fun fuel rest _ _ => rfl
  · have hpad := indent_isPadding (level + 1)
    refine .of_cons (chars_array level hne) (by decide) (by decide) fun fuel rest hfuel _ => ?_
    simp only [List.length_append] at hfuel
    have hitems := items?_of_isRead hpad (indent_isPadding level) (chars (level + 1)) h hne fuel
      rest (by omega)
    obtain ⟨j, rest', rfl⟩ := List.exists_cons_of_ne_nil hne
    obtain ⟨c, tail, hc, hblank, hclose⟩ := (h j List.mem_cons_self).head
    obtain ⟨more, hmore⟩ := @intercalate_eq_cons (',' :: indent (level + 1)) _ _ _ hc
      (rest'.map (chars (level + 1)))
    rw [List.map_cons, hmore, List.cons_append] at hitems
    rw [value?, skipBlank_cons (by decide)]
    simp only [List.map_cons, hmore, List.append_assoc, List.cons_append]
    rw [skipBlank_append hpad, skipBlank_cons hblank]
    split
    · rename_i heq
      exact absurd (List.cons.inj heq).1 hclose
    · simp only [List.nil_append, Nat.add_sub_cancel]
      rw [hitems]
      rfl

/-- An object is read if the values of its members are. -/
theorem isRead_object {room level : Nat} {members : List (String × Json)}
    (h : ∀ m ∈ members, IsRead room (chars (level + 1) m.2) m.2) :
    IsRead (room + 1) (chars level (object members)) (object members) := by
  by_cases hne : members = []
  · subst hne
    have hchars : chars level (object []) = ['\x7b', '\x7d'] := by
      unfold chars prettyAt
      rfl
    exact .of_cons hchars (by decide) (by decide) fun fuel rest _ _ => rfl
  · have hpad := indent_isPadding (level + 1)
    refine .of_cons (chars_object level hne) (by decide) (by decide) fun fuel rest hfuel _ => ?_
    simp only [List.length_append] at hfuel
    have hmembers := memberList?_of_isRead hpad (indent_isPadding level) (chars (level + 1)) h hne
      fuel rest (by omega)
    obtain ⟨m, rest', rfl⟩ := List.exists_cons_of_ne_nil hne
    obtain ⟨more, hmore⟩ := @intercalate_eq_cons (',' :: indent (level + 1)) _ _ _
      (memberChars_eq_cons m.1 (chars (level + 1) m.2))
      (rest'.map fun m => memberChars m.1 (chars (level + 1) m.2))
    rw [List.map_cons, hmore, List.cons_append] at hmembers
    rw [value?, skipBlank_cons (by decide)]
    simp only [List.map_cons, hmore, List.append_assoc, List.cons_append]
    rw [skipBlank_append hpad, skipBlank_cons (by decide)]
    split
    · rename_i heq
      exact absurd (List.cons.inj heq).1 (by decide)
    · simp only [List.nil_append, Nat.add_sub_cancel]
      rw [hmembers]
      show some (within (room + 1) (ofMembers _), rest) = _
      rw [ofMembers_some]
      rfl

/-- **The written form of a value is read as the value**, on every level and whatever follows. -/
theorem Writable.isRead {room : Nat} {j : Json} (h : Writable room j) (level : Nat) :
    IsRead room (chars level j) j := by
  induction h generalizing level with
  | null => exact isRead_null _ level
  | bool b => exact isRead_bool _ level b
  | integer h => exact isRead_integer _ level h
  | text s => exact isRead_text _ level s
  | array _ ih => exact isRead_array fun j hj => ih j hj (level + 1)
  | object _ ih => exact isRead_object fun m hm => ih m hm (level + 1)

/-- **The text of a document is read as the document.** -/
theorem ofText?_pretty {j : Json} (h : Writable maxNesting j) : ofText? j.pretty = some j := by
  have hvalue := (h.isRead 0).value (2 * (chars 0 j).length + 2) [] (by omega) nofun
  rw [List.append_nil] at hvalue
  have hchars : j.pretty.toList = chars 0 j := rfl
  simp only [ofText?, hchars, hvalue]
  rfl

end WideColumn.Json
