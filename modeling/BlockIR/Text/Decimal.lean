/-!
# Decimal text of integers

Integers are written in decimal with an optional minus sign and no leading
zeros. Two readers stand beside the writer. `Decimal.int64?` is lenient: it
takes a sign of either kind and any number of leading zeros.
`Decimal.canonicalInt64?` accepts only what the writer could have produced,
and `-0`. Both refuse a value outside the 64-bit range.
-/

namespace BlockIR

namespace Decimal

/-- Decimal text of an integer. -/
def ofInt (i : Int) : String :=
  if i < 0 then "-" ++ Nat.repr i.natAbs else Nat.repr i.natAbs

/-- Decimal text of a 64-bit integer. -/
def ofInt64 (i : Int64) : String :=
  ofInt i.toInt

/-- The number a nonempty run of ASCII digits denotes. -/
def digits? (cs : List Char) : Option Nat :=
  if cs ≠ [] ∧ cs.all Char.isDigit then some (Nat.ofDigitChars 10 cs 0) else none

/-- The integer an optionally signed run of digits denotes. -/
def signed? : List Char → Option Int
  | '+' :: cs => (digits? cs).map Int.ofNat
  | '-' :: cs => (digits? cs).map fun n => -Int.ofNat n
  | cs => (digits? cs).map Int.ofNat

/-- An integer as a 64-bit one, if it is in range. -/
def inRange? (i : Int) : Option Int64 :=
  if Int64.minValue.toInt ≤ i ∧ i ≤ Int64.maxValue.toInt then some (Int64.ofInt i) else none

/-- Lenient reading: a sign of either kind or none, then digits. -/
def int64? (s : String) : Option Int64 :=
  (signed? s.toList).bind inRange?

/-- Zero alone, or digits that do not begin with zero. -/
def isCanonicalDigits : List Char → Bool
  | ['0'] => true
  | c :: cs => c != '0' && c.isDigit && cs.all Char.isDigit
  | [] => false

/-- Canonical digits behind at most one minus sign. -/
def isCanonical : List Char → Bool
  | '-' :: cs => isCanonicalDigits cs
  | cs => isCanonicalDigits cs

/-- Strict reading: canonical digits behind at most one minus sign. -/
def canonicalInt64? (s : String) : Option Int64 :=
  if isCanonical s.toList then int64? s else none

/-- The largest count a machine word holds. -/
def maxCount : Nat := UInt64.size - 1

/-- Reading of a count: digits behind at most one plus sign, within a machine
word. -/
def count? (cs : List Char) : Option Nat :=
  let digits := match cs with
    | '+' :: rest => rest
    | cs => cs
  (digits? digits).filter (· ≤ maxCount)

end Decimal

end BlockIR
