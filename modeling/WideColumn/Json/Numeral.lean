import WideColumn.Json.Basic
import WideColumn.Number.Range

/-!
# Numbers in JSON texts

The grammar of a number (`numeral?`) and what a number stands for (`Numeral.toJson`).

Digits alone stand for a whole number.  All else is a number in double precision, and so are
whole numbers for which a word of 64 bits is too short.  Such a number is gathered in a word and
an exponent (`Numeral.decimal`).  It is `unreadable` if double precision does not reach so far.
-/

namespace WideColumn.Json

/-- A number as it is written. -/
structure Numeral where
  isNegative : Bool
  /-- The digits before the point. -/
  whole : List Char
  /-- The digits after the point, if there is one. -/
  fraction : Option (List Char)
  /-- The power of ten, if one is given. -/
  exponent : Option Int
deriving DecidableEq, Repr

/-! ### Digits -/

/-- The value of a digit. -/
def digitValue (c : Char) : Nat := c.toNat - 48

/-- The number that digits spell. -/
def natOfDigits (ds : List Char) : Nat := ds.foldl (fun n c => n * 10 + digitValue c) 0

/-- Appends digits to a number as long as a word of 64 bits holds it; also the digits that are
left. -/
def appendDigits (n : Nat) : List Char → Nat × List Char
  | [] => (n, [])
  | c :: ds =>
    let m := n * 10 + digitValue c
    if m < 0x10000000000000000 then appendDigits m ds else (n, c :: ds)

/-! ### Grammar -/

/-- The digits at the front and what follows them; there must be one. -/
def digits? (s : List Char) : Option (List Char × List Char) :=
  match s.span Char.isDigit with
  | ([], _) => none
  | (ds, rest) => some (ds, rest)

/-- The digits before the point: zero, or digits that do not start with zero. -/
def whole? : List Char → Option (List Char × List Char)
  | '0' :: rest => some (['0'], rest)
  | s => digits? s

/-- A point with the digits after it, if there is one. -/
def fraction? : List Char → Option (Option (List Char) × List Char)
  | '.' :: s => do
    let (ds, s) ← digits? s
    return (some ds, s)
  | s => some (none, s)

/-- The letter of an exponent with the number after it, if there is one. -/
def exponent? : List Char → Option (Option Int × List Char)
  | c :: s =>
    if c = 'e' ∨ c = 'E' then do
      let (isNegative, s) := match s with
        | '-' :: s => (true, s)
        | '+' :: s => (false, s)
        | s => (false, s)
      let (ds, s) ← digits? s
      let n : Int := natOfDigits ds
      return (some (if isNegative then -n else n), s)
    else some (none, c :: s)
  | [] => some (none, [])

/-- A number and what follows it. -/
def numeral? (s : List Char) : Option (Numeral × List Char) := do
  let (isNegative, s) := match s with
    | '-' :: s => (true, s)
    | s => (false, s)
  let (whole, s) ← whole? s
  let (fraction, s) ← fraction? s
  let (exponent, s) ← exponent? s
  return ({ isNegative, whole, fraction, exponent }, s)

/-! ### Values -/

namespace Numeral

/-- The number without its sign, with its first digits in a word of 64 bits.  Further digits
before the point count in the exponent, and further digits after it are dropped. -/
def decimal (x : Numeral) : Number.Decimal :=
  let fraction := x.fraction.getD []
  let (n, uncounted) := appendDigits 0 x.whole
  let (n, dropped) := appendDigits n fraction
  let places := fraction.length - dropped.length
  ⟨n, (uncounted.length : Int) - places + x.exponent.getD 0⟩

/-- What a number stands for. -/
def toJson (x : Numeral) : Json :=
  if !Number.binary64.holds x.decimal then unreadable
  else if x.fraction.isSome || x.exponent.isSome then fractional
  else
    let n := natOfDigits x.whole
    if !x.isNegative then integer n
    else if n = 0 then fractional
    else integer (-n)

end Numeral

end WideColumn.Json
