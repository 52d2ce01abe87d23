import BlockIR.Builtin.Registry
/-!
# The standard builtin operations

Arithmetic on 64-bit integers wraps around, and division truncates toward zero.
Comparisons and the two connectives give one or zero; both operands of a
connective are there already, so neither is skipped. Every implementation has
rules only for arguments of its declared kinds and reports others as a defect.
-/

namespace BlockIR

namespace Builtin

open Name

/-- Report arguments that an operation has no rule for. -/
def badArguments {α : Type} (op : String) (args : List Value) : Effect α := do
  let w ← get
  throw (.internal (.badArguments op (Structural.list (args.map w.heap.structural))))

/-- An operation on two integers. -/
def onInts (op : String) (f : Int64 → Int64 → Effect Value) : Primitive
  | [.int a, .int b] => f a b
  | args => badArguments op args

/-- A total operation on two integers. -/
def arithmetic (op : String) (f : Int64 → Int64 → Int64) : Primitive :=
  onInts op fun a b => pure (.int (f a b))

/-- A comparison of two integers. -/
def comparison (op : String) (f : Int64 → Int64 → Bool) : Primitive :=
  onInts op fun a b => pure (.ofBool (f a b))

/-- An operation on two integers that is not defined for a zero divisor. -/
def division (op : String) (f : Int64 → Int64 → Int64) : Primitive :=
  onInts op fun a b => if b = 0 then throw (.divisionByZero op) else pure (.int (f a b))

/-- A test of two values for equality. -/
def equality (op : String) (f : Bool → Bool) : Primitive
  | [a, b] => pure (.ofBool (f (a = b)))
  | args => badArguments op args

/-- An operation on one text. -/
def onText (op : String) (f : String → Effect Value) : Primitive
  | [.str s] => f s
  | args => badArguments op args

/-- Join two texts. -/
def concatenate : Primitive
  | [.str a, .str b] => pure (.str (a ++ b))
  | args => badArguments concat args

/-- The integer a text denotes in canonical decimal. -/
def textToInt : Primitive :=
  onText stringToInt fun s =>
    match Decimal.canonicalInt64? s with
    | some i => pure (.int i)
    | none => throw (.conversion s)

/-- Whether a text denotes an integer in canonical decimal. -/
def isIntText : Primitive :=
  onText canConvertToInt fun s => pure (.ofBool (Decimal.canonicalInt64? s).isSome)

/-- The decimal text of an integer. -/
def intToText : Primitive
  | [.int i] => pure (.str (Decimal.ofInt64 i))
  | args => badArguments intToString args

/-- Print the short text of a value on a line of its own. -/
def printValue : Primitive
  | [v] => do
    let w ← get
    Effect.printLine print (w.heap.text v)
    return .null
  | args => badArguments print args

/-- Read a line. -/
def readText : Primitive := fun _ => do
  return .str (← Effect.readLine read)

/-- A count as a 64-bit integer, the greatest one if it is too large. -/
def saturate (n : Nat) : Int64 :=
  if n ≤ Int64.maxValue.toInt.toNat then Int64.ofNat n else Int64.maxValue

/-- The length of an array. -/
def lengthOf : Primitive
  | [.array a] => do
    let w ← get
    return .int (saturate (w.heap.length a))
  | args => badArguments arrayLength args

/-- The reading of the clock. There is no count before the epoch. -/
def now : Primitive := fun _ => do
  match ← Effect.readClock with
  | .ofNat n => return .int (saturate n)
  | .negSucc _ => throw (.io time .clockBeforeEpoch)

/-- The standard declarations. -/
def signatures : List Signature :=
  [intAdd, intSub, intMul, intDiv, intMod].map (fun name => ⟨name, .int, [.int, .int]⟩) ++
  [anyEq, anyNeq].map (fun name => ⟨name, .int, [.any, .any]⟩) ++
  [intLeq, intGeq, intLt, intGt, intAnd, intOr].map (fun name => ⟨name, .int, [.int, .int]⟩) ++
  [⟨concat, .string, [.string, .string]⟩,
    ⟨print, .any, [.any]⟩,
    ⟨read, .string, []⟩,
    ⟨stringToInt, .int, [.string]⟩,
    ⟨intToString, .string, [.int]⟩,
    ⟨canConvertToInt, .int, [.string]⟩,
    ⟨arrayLength, .int, [.array]⟩,
    ⟨time, .int, []⟩]

/-- The standard implementations. -/
def primitives : List (String × Primitive) :=
  [(intAdd, arithmetic intAdd (· + ·)),
    (intSub, arithmetic intSub (· - ·)),
    (intMul, arithmetic intMul (· * ·)),
    (intDiv, division intDiv (· / ·)),
    (intMod, division intMod (· % ·)),
    (anyEq, equality anyEq id),
    (anyNeq, equality anyNeq not),
    (intLt, comparison intLt fun a b => a < b),
    (intLeq, comparison intLeq fun a b => a ≤ b),
    (intGt, comparison intGt fun a b => b < a),
    (intGeq, comparison intGeq fun a b => b ≤ a),
    (intAnd, comparison intAnd fun a b => a ≠ 0 && b ≠ 0),
    (intOr, comparison intOr fun a b => a ≠ 0 || b ≠ 0),
    (concat, concatenate),
    (stringToInt, textToInt),
    (canConvertToInt, isIntText),
    (intToString, intToText),
    (print, printValue),
    (read, readText),
    (arrayLength, lengthOf),
    (time, now)]

end Builtin

namespace Registry

/-- Register every standard implementation. -/
def implementStandard : StateM Registry Unit :=
  Builtin.primitives.forM fun p => implement p.1 p.2

/-- Declare and implement the standard operations. -/
def addStandard : Registration Unit := do
  declareAll Builtin.signatures
  implementStandard

end Registry

/-- **The standard table.** -/
def Table.standard : Except LinkError Table := do
  match Registry.addStandard.apply {} with
  | (.ok _, r) => r.link
  | (.error e, _) => throw e

end BlockIR
