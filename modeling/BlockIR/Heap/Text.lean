import BlockIR.Heap.Basic
/-!
# The text of values

A value has a short text, by which programs print it, and a structural form
for messages. In the short text an array that stands inside itself is cut
there; the structural form never shows the elements of an array, nor its
identity.
-/

namespace BlockIR

namespace Heap

/-- The short text of a value inside the arrays on a path. The first argument
bounds the depth; it is never used up when it exceeds the number of arrays,
since the arrays on a path are all different. -/
def textWithin (h : Heap) : Nat → List Address → Value → String
  | _, _, .int i => Decimal.ofInt64 i
  | _, _, .str s => s
  | _, _, .null => "null"
  | 0, _, .array _ => "[...]"
  | n + 1, path, .array a =>
    if a ∈ path then "[...]"
    else
      "[" ++ ", ".intercalate ((h.elements a).toList.map (h.textWithin n (a :: path))) ++ "]"

/-- **The short text of a value**: integers in decimal, text unquoted, arrays
element by element. -/
def text (h : Heap) (v : Value) : String :=
  h.textWithin (h.arrays.size + 1) [] v

/-- The structural form of a value. -/
def structural (h : Heap) : Value → String
  | .int i => Structural.applied "Int" (Decimal.ofInt64 i)
  | .str s => Structural.applied "Str" (Text.quote s)
  | .array a => Structural.applied "Array" ("ArrayRef(PTR, len=" ++ Nat.repr (h.length a) ++ ")")
  | .null => "Null"

end Heap

end BlockIR
