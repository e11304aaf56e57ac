import PlanAudit.Text.Basic

/-!
# Texts as bytes

Files hold bytes; a text is what their UTF-8 decoding gives.  Bytes that form no character end the
decoding of a strict reader; a lenient reader puts one replacement character in the place of each
longest run of bytes that begins a character without completing it.

## Main definitions

* `utf8Bytes`: the bytes of a text
* `decodeFrom`: the characters and failures of a sequence of bytes
* `decodeStrict?`, `decodeLenient`: the two readers
* `unifyLineEnds`: the text with every kind of line end written as a line feed
-/

namespace PlanAudit.Text

/-- The bytes of a text. -/
def utf8Bytes (text : List Char) : List UInt8 := text.flatMap String.utf8EncodeChar

/-- The part of a character that has been read. -/
structure PartialChar where
  /-- The number of bytes still missing. -/
  missing : Nat
  /-- The least value of the next byte. -/
  low : Nat
  /-- The greatest value of the next byte. -/
  high : Nat
  /-- The bits read so far. -/
  bits : Nat
  deriving DecidableEq, Repr

/-- What a byte between two characters begins: a whole character, a part of one, or nothing. -/
def beginChar (b : Nat) : List (Option Char) × Option PartialChar :=
  if b < 0x80 then ([some (Char.ofNat b)], none)
  else if 0xC2 ≤ b ∧ b ≤ 0xDF then ([], some ⟨1, 0x80, 0xBF, b - 0xC0⟩)
  else if 0xE0 ≤ b ∧ b ≤ 0xEF then
    let low := if b = 0xE0 then 0xA0 else 0x80
    let high := if b = 0xED then 0x9F else 0xBF
    ([], some ⟨2, low, high, b - 0xE0⟩)
  else if 0xF0 ≤ b ∧ b ≤ 0xF4 then
    let low := if b = 0xF0 then 0x90 else 0x80
    let high := if b = 0xF4 then 0x8F else 0xBF
    ([], some ⟨3, low, high, b - 0xF0⟩)
  else ([none], none)

/-- What a byte after the given part of a character completes, and what is then pending. -/
def readByte (pending : Option PartialChar) (b : Nat) : List (Option Char) × Option PartialChar :=
  match pending with
  | none => beginChar b
  | some p =>
    if p.low ≤ b ∧ b ≤ p.high then
      let bits := p.bits * 64 + b % 64
      if p.missing ≤ 1 then ([some (Char.ofNat bits)], none)
      else ([], some ⟨p.missing - 1, 0x80, 0xBF, bits⟩)
    else
      let next := beginChar b
      (none :: next.1, next.2)

/-- The characters of the bytes after the given part of a character; where bytes form none, there
is a failure. -/
def decodeFrom (pending : Option PartialChar) : List UInt8 → List (Option Char)
  | [] => if pending.isSome then [none] else []
  | b :: rest =>
    let read := readByte pending b.toNat
    read.1 ++ decodeFrom read.2 rest

/-- The text of the bytes, if they are the bytes of a text. -/
def decodeStrict? (bytes : List UInt8) : Option (List Char) := (decodeFrom none bytes).mapM id

/-- The text of the bytes with a replacement character for each failure. -/
def decodeLenient (bytes : List UInt8) : List Char :=
  (decodeFrom none bytes).map (·.getD '\uFFFD')

/-- The text with a line feed for each carriage return, alone or followed by a line feed. -/
def unifyLineEnds : List Char → List Char
  | '\r' :: '\n' :: rest => '\n' :: unifyLineEnds rest
  | '\r' :: rest => '\n' :: unifyLineEnds rest
  | c :: rest => c :: unifyLineEnds rest
  | [] => []

end PlanAudit.Text
