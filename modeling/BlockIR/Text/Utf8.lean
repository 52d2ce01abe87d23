/-!
# Reading bytes as text

`Utf8.decode?` reads a byte list that must be well-formed UTF-8.
`Utf8.decodeLossy` reads any byte list: each maximal ill-formed piece that
begins like a character becomes one replacement character, and so does each
byte that begins none.
-/

namespace BlockIR

namespace Utf8

/-- The text the bytes encode, if they are well-formed. -/
def decode? (bytes : List UInt8) : Option String :=
  String.fromUTF8? (ByteArray.mk bytes.toArray)

/-- The bytes of a text. -/
def encode (s : String) : List UInt8 :=
  s.toUTF8.data.toList

/-- The replacement character. -/
def replacement : Char := Char.ofNat 0xfffd

/-- What may follow a lead byte: the range of the second byte and how many
continuation bytes there are in all. -/
def tail? (lead : UInt8) : Option (UInt8 × UInt8 × Nat) :=
  if 0xc2 ≤ lead && lead ≤ 0xdf then some (0x80, 0xbf, 1)
  else if lead == 0xe0 then some (0xa0, 0xbf, 2)
  else if lead == 0xed then some (0x80, 0x9f, 2)
  else if 0xe1 ≤ lead && lead ≤ 0xef then some (0x80, 0xbf, 2)
  else if lead == 0xf0 then some (0x90, 0xbf, 3)
  else if 0xf1 ≤ lead && lead ≤ 0xf3 then some (0x80, 0xbf, 3)
  else if lead == 0xf4 then some (0x80, 0x8f, 3)
  else none

/-- The payload of a lead byte with `n` continuation bytes. -/
def leadBits (lead : UInt8) (n : Nat) : Nat :=
  lead.toNat % (64 >>> n)

/-- A character that has begun: the range its next byte must lie in, how many
continuation bytes are still due, and the bits so far. -/
structure Pending where
  low : UInt8
  high : UInt8
  due : Nat
  bits : Nat

/-- State of the lossy reader: the character it is in, if any, and the
characters read so far, last first. -/
structure Reader where
  pending : Option Pending := none
  read : List Char := []

namespace Reader

/-- Take in a byte outside any character. -/
def start (read : List Char) (b : UInt8) : Reader :=
  if b < 0x80 then ⟨none, Char.ofNat b.toNat :: read⟩
  else match tail? b with
    | none => ⟨none, replacement :: read⟩
    | some (low, high, n) => ⟨some ⟨low, high, n, leadBits b n⟩, read⟩

/-- Take in the next byte. A byte that cannot continue the current character
ends it as ill-formed and is then read afresh. -/
def feed (r : Reader) (b : UInt8) : Reader :=
  match r.pending with
  | none => start r.read b
  | some p =>
    if p.low ≤ b && b ≤ p.high then
      let bits := p.bits * 64 + b.toNat % 64
      if p.due ≤ 1 then ⟨none, Char.ofNat bits :: r.read⟩
      else ⟨some ⟨0x80, 0xbf, p.due - 1, bits⟩, r.read⟩
    else start (replacement :: r.read) b

/-- The text read, a character cut short by the end being ill-formed. -/
def finish (r : Reader) : List Char :=
  match r.pending with
  | none => r.read.reverse
  | some _ => (replacement :: r.read).reverse

end Reader

/-- The text of a byte list, with replacement characters for what is
ill-formed. -/
def decodeLossy (bytes : List UInt8) : String :=
  String.ofList (bytes.foldl Reader.feed {}).finish

end Utf8

end BlockIR
