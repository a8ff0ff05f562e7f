import WideColumn.Bytes.Basic

/-!
# The 64-bit xxHash digest

A fast digest of a byte string, with seed zero.  Blocks of thirty-two bytes are mixed into
four accumulators, one for each eight-byte lane; the accumulators are merged, and the bytes
that fill no block are mixed in by eights, fours and ones.
-/

namespace WideColumn.XxHash

/-! ### Constants -/

def prime1 : UInt64 := 0x9E3779B185EBCA87
def prime2 : UInt64 := 0xC2B2AE3D27D4EB4F
def prime3 : UInt64 := 0x165667B19E3779F9
def prime4 : UInt64 := 0x85EBCA77C2B2AE63
def prime5 : UInt64 := 0x27D4EB2F165667C5

/-! ### Mixing -/

/-- Turns the bits of a word to the left. -/
def rotateLeft (x : UInt64) (r : UInt64) : UInt64 := (x <<< r) ||| (x >>> (64 - r))

/-- The word that the bytes spell, least significant byte first. -/
def word (bytes : Bytes) : UInt64 :=
  bytes.foldr (fun b n => n <<< 8 ||| b.toUInt64) 0

/-- Mixes one lane into an accumulator. -/
def round (acc lane : UInt64) : UInt64 :=
  rotateLeft (acc + lane * prime2) 31 * prime1

/-- The four accumulators. -/
structure Accumulators where
  a : UInt64
  b : UInt64
  c : UInt64
  d : UInt64

/-- The accumulators before the first block. -/
def Accumulators.start : Accumulators :=
  ⟨prime1 + prime2, prime2, 0, 0 - prime1⟩

/-- Mixes a block of thirty-two bytes into the accumulators. -/
def Accumulators.mix (s : Accumulators) (block : Bytes) : Accumulators :=
  let lane (i : Nat) := word ((block.drop (8 * i)).take 8)
  ⟨round s.a (lane 0), round s.b (lane 1), round s.c (lane 2), round s.d (lane 3)⟩

/-- Mixes all whole blocks of the bytes; also what is left of them. -/
def Accumulators.mixBlocks (s : Accumulators) (bytes : Bytes) : Accumulators × Bytes :=
  if _ : 32 ≤ bytes.length then (s.mix (bytes.take 32)).mixBlocks (bytes.drop 32)
  else (s, bytes)
termination_by bytes.length
decreasing_by simp only [List.length_drop]; omega

/-- Merges one accumulator into the digest. -/
def merge (h acc : UInt64) : UInt64 :=
  (h ^^^ round 0 acc) * prime1 + prime4

/-- The digest of the accumulators. -/
def Accumulators.digest (s : Accumulators) : UInt64 :=
  let h := rotateLeft s.a 1 + rotateLeft s.b 7 + rotateLeft s.c 12 + rotateLeft s.d 18
  [s.a, s.b, s.c, s.d].foldl merge h

/-- Mixes in the bytes that fill no block. -/
def mixTail (h : UInt64) : Bytes → UInt64
  | [] => h
  | b :: rest =>
    if 7 ≤ rest.length then
      let h := h ^^^ round 0 (word (b :: rest.take 7))
      mixTail (rotateLeft h 27 * prime1 + prime4) (rest.drop 7)
    else if 3 ≤ rest.length then
      let h := h ^^^ (word (b :: rest.take 3) * prime1)
      mixTail (rotateLeft h 23 * prime2 + prime3) (rest.drop 3)
    else
      let h := h ^^^ (b.toUInt64 * prime5)
      mixTail (rotateLeft h 11 * prime1) rest
termination_by bytes => bytes.length
decreasing_by all_goals simp only [List.length_drop, List.length_cons]; omega

/-- Spreads every bit over the whole digest. -/
def avalanche (h : UInt64) : UInt64 :=
  let h := (h ^^^ (h >>> 33)) * prime2
  let h := (h ^^^ (h >>> 29)) * prime3
  h ^^^ (h >>> 32)

/-- The digest of a byte string. -/
def digest (bytes : Bytes) : UInt64 :=
  let (s, tail) := Accumulators.start.mixBlocks bytes
  let h := if bytes.length < 32 then prime5 else s.digest
  avalanche (mixTail (h + bytes.length.toUInt64) tail)

end WideColumn.XxHash
