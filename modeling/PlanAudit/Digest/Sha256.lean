import PlanAudit.Text.Quoted

/-!
# SHA-256

The digest by which findings are named.

## Main definitions

* `pad`: a message filled up to whole blocks
* `schedule`: the words of a block, extended to one for each round
* `compress`: the state after a block
* `sha256`: the digest of a message
* `hexDigest`: the digest in hexadecimal digits
-/

namespace PlanAudit.Digest

/-! ## Words -/

/-- The word turned to the right by `n` bits. -/
def rotate (x n : UInt32) : UInt32 := (x >>> n) ||| (x <<< (32 - n))

/-- The word of four bytes, the highest first. -/
def wordOf (a b c d : UInt8) : UInt32 :=
  (a.toUInt32 <<< 24) ||| (b.toUInt32 <<< 16) ||| (c.toUInt32 <<< 8) ||| d.toUInt32

/-- The words of a sequence of bytes. -/
def wordsOf : List UInt8 → List UInt32
  | a :: b :: c :: d :: rest => wordOf a b c d :: wordsOf rest
  | _ => []

/-- The last `count` bytes of a number, the highest first. -/
def bytesOf : Nat → Nat → List UInt8
  | 0, _ => []
  | count + 1, n => bytesOf count (n / 256) ++ [UInt8.ofNat (n % 256)]

/-- The number of bytes in a block. -/
def blockSize : Nat := 64

/-- The message with a one bit, zeros and its length in bits at the end, which together make whole
blocks. -/
def pad (message : List UInt8) : List UInt8 :=
  let zeros := (blockSize - (message.length + 9) % blockSize) % blockSize
  message ++ 0x80 :: List.replicate zeros 0 ++ bytesOf 8 (8 * message.length)

/-! ## Rounds -/

/-- The constants that are added in the rounds. -/
def roundConstants : List UInt32 :=
  [0x428a2f98, 0x71374491, 0xb5c0fbcf, 0xe9b5dba5, 0x3956c25b, 0x59f111f1, 0x923f82a4, 0xab1c5ed5,
    0xd807aa98, 0x12835b01, 0x243185be, 0x550c7dc3, 0x72be5d74, 0x80deb1fe, 0x9bdc06a7, 0xc19bf174,
    0xe49b69c1, 0xefbe4786, 0x0fc19dc6, 0x240ca1cc, 0x2de92c6f, 0x4a7484aa, 0x5cb0a9dc, 0x76f988da,
    0x983e5152, 0xa831c66d, 0xb00327c8, 0xbf597fc7, 0xc6e00bf3, 0xd5a79147, 0x06ca6351, 0x14292967,
    0x27b70a85, 0x2e1b2138, 0x4d2c6dfc, 0x53380d13, 0x650a7354, 0x766a0abb, 0x81c2c92e, 0x92722c85,
    0xa2bfe8a1, 0xa81a664b, 0xc24b8b70, 0xc76c51a3, 0xd192e819, 0xd6990624, 0xf40e3585, 0x106aa070,
    0x19a4c116, 0x1e376c08, 0x2748774c, 0x34b0bcb5, 0x391c0cb3, 0x4ed8aa4a, 0x5b9cca4f, 0x682e6ff3,
    0x748f82ee, 0x78a5636f, 0x84c87814, 0x8cc70208, 0x90befffa, 0xa4506ceb, 0xbef9a3f7, 0xc67178f2]

/-- The next word of a schedule, from the words before it, the latest first. -/
def nextWord (words : List UInt32) : UInt32 :=
  let x := words.getD 14 0
  let y := words.getD 1 0
  let small := rotate x 7 ^^^ rotate x 18 ^^^ (x >>> 3)
  let large := rotate y 17 ^^^ rotate y 19 ^^^ (y >>> 10)
  words.getD 15 0 + small + words.getD 6 0 + large

/-- A schedule, the latest word first, with `count` more words. -/
def extend : Nat → List UInt32 → List UInt32
  | 0, words => words
  | count + 1, words => extend count (nextWord words :: words)

/-- The words of a block, extended to one for each round. -/
def schedule (block : List UInt8) : List UInt32 := (extend 48 (wordsOf block).reverse).reverse

/-- The eight words that are carried from block to block. -/
structure Registers where
  /-- The first word. -/
  a : UInt32
  /-- The second word. -/
  b : UInt32
  /-- The third word. -/
  c : UInt32
  /-- The fourth word. -/
  d : UInt32
  /-- The fifth word. -/
  e : UInt32
  /-- The sixth word. -/
  f : UInt32
  /-- The seventh word. -/
  g : UInt32
  /-- The eighth word. -/
  h : UInt32
  deriving DecidableEq, Repr

namespace Registers

/-- The words before the first block. -/
def initial : Registers :=
  ⟨0x6a09e667, 0xbb67ae85, 0x3c6ef372, 0xa54ff53a, 0x510e527f, 0x9b05688c, 0x1f83d9ab, 0x5be0cd19⟩

/-- The words after a round with a constant and a word of the schedule. -/
def round (r : Registers) (constant word : UInt32) : Registers :=
  let choice := (r.e &&& r.f) ^^^ (~~~r.e &&& r.g)
  let majority := (r.a &&& r.b) ^^^ (r.a &&& r.c) ^^^ (r.b &&& r.c)
  let one := r.h + (rotate r.e 6 ^^^ rotate r.e 11 ^^^ rotate r.e 25) + choice + constant + word
  let two := (rotate r.a 2 ^^^ rotate r.a 13 ^^^ rotate r.a 22) + majority
  ⟨one + two, r.a, r.b, r.c, r.d + one, r.e, r.f, r.g⟩

/-- The sums of the words. -/
def add (r s : Registers) : Registers :=
  ⟨r.a + s.a, r.b + s.b, r.c + s.c, r.d + s.d, r.e + s.e, r.f + s.f, r.g + s.g, r.h + s.h⟩

/-- The words after a block. -/
def compress (r : Registers) (block : List UInt8) : Registers :=
  r.add ((roundConstants.zip (schedule block)).foldl (fun s kw => s.round kw.1 kw.2) r)

/-- The words in order. -/
def toList (r : Registers) : List UInt32 := [r.a, r.b, r.c, r.d, r.e, r.f, r.g, r.h]

end Registers

/-! ## Digests -/

/-- The words after `blocks` blocks of a padded message. -/
def digestBlocks : Nat → Registers → List UInt8 → Registers
  | 0, r, _ => r
  | blocks + 1, r, message =>
    digestBlocks blocks (r.compress (message.take blockSize)) (message.drop blockSize)

/-- The digest of a message. -/
def sha256 (message : List UInt8) : Registers :=
  let padded := pad message
  digestBlocks (padded.length / blockSize) .initial padded

/-- The digest of a message in hexadecimal digits. -/
def hexDigest (message : List UInt8) : List Char :=
  (sha256 message).toList.flatMap fun w => Text.hexDigits 8 w.toNat

end PlanAudit.Digest
