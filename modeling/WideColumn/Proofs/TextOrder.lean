import Mathlib.Data.String.Basic
import Mathlib.Tactic.SplitIfs
import WideColumn.Text.Utf8

/-!
# Texts are ordered as their bytes

A text is stored as its UTF-8 bytes, and cell names are told apart by bytes.  The order of texts is
that of their code points, and it is the same.

* `order_lt_of_lt` — of two characters, the bytes of the one with the smaller code point sort first,
  whatever follows: the first byte says how many there are, and with as many bytes the digits of
  the code point to the base 64 decide;
* `order_encode` — **the order of texts is the order of their bytes**.
-/

namespace WideColumn.Text.Utf8

/-! ### The bytes of a character -/

/-- The first byte of a character. -/
def leadByte (point : Nat) : Nat :=
  if point ≤ 127 then point
  else if point ≤ 2047 then point / 64 + 192
  else if point ≤ 65535 then point / 4096 + 224
  else point / 262144 + 240

/-- A byte after the first one, which holds the last six bits of a number. -/
def laterByte (n : Nat) : UInt8 := UInt8.ofNat (n % 64 + 128)

/-- The bytes after the first one. -/
def laterBytes (point : Nat) : Bytes :=
  if point ≤ 127 then []
  else if point ≤ 2047 then [laterByte point]
  else if point ≤ 65535 then [laterByte (point / 64), laterByte point]
  else [laterByte (point / 4096), laterByte (point / 64), laterByte point]

theorem point_lt (c : Char) : c.toNat < 0x110000 := by
  have h := c.valid
  simp only [UInt32.isValidChar, Nat.isValidChar] at h
  show c.val.toNat < 0x110000
  omega

theorem leadByte_lt (c : Char) : leadByte c.toNat < 256 := by
  have h := point_lt c
  unfold leadByte
  split_ifs <;> omega

theorem utf8EncodeChar_eq (c : Char) :
    String.utf8EncodeChar c = UInt8.ofNat (leadByte c.toNat) :: laterBytes c.toNat := by
  have h : c.val.toNat < 0x110000 := point_lt c
  show String.utf8EncodeChar c = UInt8.ofNat (leadByte c.val.toNat) :: laterBytes c.val.toNat
  unfold String.utf8EncodeChar leadByte laterBytes laterByte
  simp only
  split
  · rfl
  split
  · rw [Nat.mod_eq_of_lt (by omega : c.val.toNat / 64 < 32)]
  split
  · rw [Nat.mod_eq_of_lt (by omega : c.val.toNat / 4096 < 16)]
  · rw [Nat.mod_eq_of_lt (by omega : c.val.toNat / 262144 < 8)]

theorem encode_eq_flatMap (s : String) : encode s = s.toList.flatMap String.utf8EncodeChar := by
  show s.toByteArray.data.toList = _
  rw [← String.utf8Encode_toList (b := s)]
  simp [List.utf8Encode]

/-! ### Order of characters -/

theorem compare_ofNat {m n : Nat} (hm : m < 256) (hn : n < 256) :
    compare (UInt8.ofNat m) (UInt8.ofNat n) = compare m n := by
  have h : ∀ k < 256, (UInt8.ofNat k).toNat = k := fun k hk => by
    rw [UInt8.toNat_ofNat']
    omega
  show compareOfLessAndEq _ _ = compareOfLessAndEq _ _
  simp only [compareOfLessAndEq, UInt8.lt_iff_toNat_lt, ← UInt8.toNat_inj, h m hm, h n hn]

theorem compare_laterByte (m n : Nat) :
    compare (laterByte m) (laterByte n) = compare (m % 64) (n % 64) := by
  rw [laterByte, laterByte, compare_ofNat (by omega) (by omega)]
  show compareOfLessAndEq _ _ = compareOfLessAndEq _ _
  simp [compareOfLessAndEq]

theorem leadByte_le {m n : Nat} (h : m < n) : leadByte m ≤ leadByte n := by
  unfold leadByte
  split_ifs <;> omega

/-- After the same first byte there are as many bytes, and they are the digits that differ. -/
theorem order_laterBytes {m n : Nat} (h : m < n) (hn : n < 0x110000)
    (hlead : leadByte m = leadByte n) (xs ys : Bytes) :
    Bytes.order (laterBytes m ++ xs) (laterBytes n ++ ys) = .lt := by
  unfold leadByte at hlead
  unfold Bytes.order laterBytes
  split_ifs at hlead ⊢ <;> try omega
  all_goals
    simp only [List.cons_append, List.nil_append, List.compare_cons_cons, compare_laterByte,
      Ordering.then_eq_lt, Nat.compare_eq_lt, Nat.compare_eq_eq]
  · omega
  · omega
  · have htop : m / 262144 = n / 262144 := by omega
    omega

theorem order_lt_of_lt {c d : Char} (h : c < d) (xs ys : Bytes) :
    Bytes.order (String.utf8EncodeChar c ++ xs) (String.utf8EncodeChar d ++ ys) = .lt := by
  show compare _ _ = _
  rw [utf8EncodeChar_eq, utf8EncodeChar_eq, List.cons_append, List.cons_append,
    List.compare_cons_cons, compare_ofNat (leadByte_lt c) (leadByte_lt d), Ordering.then_eq_lt,
    Nat.compare_eq_lt, Nat.compare_eq_eq]
  rcases Nat.lt_or_eq_of_le (leadByte_le h) with hlt | heq
  · exact .inl hlt
  · exact .inr ⟨heq, order_laterBytes h (point_lt d) heq xs ys⟩

/-! ### Order of texts -/

theorem order_append (p xs ys : Bytes) : Bytes.order (p ++ xs) (p ++ ys) = Bytes.order xs ys := by
  induction p with
  | nil => rfl
  | cons b p ih =>
    show compare (b :: (p ++ xs)) (b :: (p ++ ys)) = _
    rw [List.compare_cons_cons, Std.ReflOrd.compare_self]
    exact ih

theorem order_flatMap_lt {s t : List Char} (h : s < t) :
    Bytes.order (s.flatMap String.utf8EncodeChar) (t.flatMap String.utf8EncodeChar) = .lt := by
  induction s generalizing t with
  | nil =>
    cases t with
    | nil => exact absurd h (List.lt_irrefl [])
    | cons d t =>
      rw [List.flatMap_cons, utf8EncodeChar_eq]
      rfl
  | cons c s ih =>
    cases t with
    | nil => exact absurd h (List.not_lt_nil _)
    | cons d t =>
      rw [List.flatMap_cons, List.flatMap_cons]
      rcases List.cons_lt_cons_iff.1 h with hlt | ⟨rfl, hlt⟩
      · exact order_lt_of_lt hlt _ _
      · rw [order_append]
        exact ih hlt

theorem order_encode_lt {s t : String} (h : s < t) : Bytes.order (encode s) (encode t) = .lt := by
  rw [encode_eq_flatMap, encode_eq_flatMap]
  exact order_flatMap_lt (String.lt_iff.1 h)

theorem encode_inj {s t : String} (h : encode s = encode t) : s = t :=
  Option.some.inj ((decode?_eq_some_iff.2 rfl).symm.trans (decode?_eq_some_iff.2 h))

/-- **The order of texts is the order of their bytes.** -/
theorem order_encode (s t : String) : Bytes.order (encode s) (encode t) = compare s t := by
  show _ = compareOfLessAndEq s t
  rcases lt_trichotomy s t with h | rfl | h
  · rw [order_encode_lt h, compareOfLessAndEq, if_pos h]
  · rw [compareOfLessAndEq, if_neg (lt_irrefl s), if_pos rfl]
    exact Std.ReflOrd.compare_self
  · have hswap : Bytes.order (encode s) (encode t) = (Bytes.order (encode t) (encode s)).swap :=
      Std.OrientedOrd.eq_swap
    rw [hswap, order_encode_lt h, compareOfLessAndEq, if_neg (not_lt_of_gt h), if_neg h.ne']
    rfl

end WideColumn.Text.Utf8
