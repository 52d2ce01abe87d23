import BlockIR.Machine.Evaluate
import BlockIR.Source.Lowering
/-!
# Running program trees

A tree is run by lowering it and evaluating the result with the standard
builtin operations, under limits that the environment may set.
-/

namespace BlockIR

/-! ## Limits -/

namespace Text

/-- The characters with the Unicode property `White_Space`. -/
def isBlank (c : Char) : Bool :=
  let n := c.toNat
  (0x09 ≤ n && n ≤ 0x0d) || n == 0x20 || n == 0x85 || n == 0xa0 || n == 0x1680 ||
    (0x2000 ≤ n && n ≤ 0x200a) || n == 0x2028 || n == 0x2029 || n == 0x202f ||
    n == 0x205f || n == 0x3000

/-- The text without the blanks at its two ends. -/
def trimBlanks (cs : List Char) : List Char :=
  ((cs.dropWhile isBlank).reverse.dropWhile isBlank).reverse

end Text

namespace Limits

/-- The environment variable that sets the depth limit. -/
def depthVariable : String := "TEAL_MAX_CALL_DEPTH"

/-- The limits under a setting of the environment variable: the count it holds
between blanks, or the default if it holds none. -/
def ofEnvironment (value : Option String) : Limits :=
  match value.bind fun s => Decimal.count? (Text.trimBlanks s.toList) with
  | some depth => { maxCallDepth := depth }
  | none => {}

end Limits

/-! ## Runs -/

/-- **Why running a tree fails**: it cannot be lowered, or its evaluation
fails. -/
inductive Failure where
  | lowering (e : LoweringError)
  | runtime (e : RuntimeError)
  deriving DecidableEq

/-- The failure in words, behind the stage it arose in. -/
def Failure.message : Failure → String
  | lowering e => "[lowering] " ++ e.message
  | runtime e => "[runtime] " ++ e.message

/-- **Run a program tree** on some arguments, in a world. -/
def Source.Program.run (p : Source.Program) (limits : Limits) (fuel : Nat) (args : List Value)
    (w : World) : Option (Except Failure Outcome × World) :=
  match p.lower with
  | .error e => some (.error (.lowering e), w)
  | .ok program =>
    (Machine.evaluateStandard program limits fuel args w).map fun (result, w) =>
      (result.mapError .runtime, w)

end BlockIR
