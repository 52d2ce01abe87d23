/-!
# Values

The value domain is closed: 64-bit integers, text, arrays and null. An array
is a reference to storage held elsewhere, so equality of values is structural
for integers, text and null, and identity for arrays.
-/

namespace BlockIR

/-- The dynamic kind of a value. -/
inductive Kind where
  | int
  | string
  | array
  | null
  deriving DecidableEq

/-- The name of a kind in messages. -/
def Kind.text : Kind → String
  | .int => "int"
  | .string => "string"
  | .array => "array"
  | .null => "null"

/-- The identity of an array. -/
abbrev Address := Nat

/-- **A value.** Booleans are integers, every nonzero one being true. -/
inductive Value where
  | int (i : Int64)
  | str (s : String)
  | array (a : Address)
  | null
  deriving DecidableEq, Inhabited

namespace Value

/-- The kind of a value. -/
def kind : Value → Kind
  | int _ => .int
  | str _ => .string
  | array _ => .array
  | null => .null

/-- A truth value as an integer. -/
def ofBool (b : Bool) : Value :=
  int (if b then 1 else 0)

/-- The integer a value is, if it is one. -/
def asInt? : Value → Option Int64
  | int i => some i
  | _ => none

/-- The text a value is, if it is one. -/
def asStr? : Value → Option String
  | str s => some s
  | _ => none

/-- The array a value refers to, if it refers to one. -/
def asArray? : Value → Option Address
  | array a => some a
  | _ => none

end Value

end BlockIR
