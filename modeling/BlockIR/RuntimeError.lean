import BlockIR.Builtin.Signature
import BlockIR.Console
import BlockIR.Function.Error
/-!
# Runtime errors

A runtime error ends an evaluation; a program cannot catch it. The internal
ones are defects of the code that is run, and none of them arises from code
that passed its check and names only globals and functions that exist.
-/

namespace BlockIR

/-- A defect of the code that is run. -/
inductive Defect where
  | noFrame
  | localOutOfRange (slot : LocalId)
  | globalOutOfRange (g : GlobalId)
  | unknownBlock (b : BlockId)
  | unknownInstr (i : InstrId)
  /-- Control ran past the last instruction of a block. -/
  | fellOff (b : BlockId) (function : String)
  /-- A builtin operation was called with arguments it has no rule for. -/
  | badArguments (op args : String)
  deriving DecidableEq

/-- The defect in words. -/
def Defect.message : Defect → String
  | noFrame => "no active frame"
  | localOutOfRange slot => "local " ++ LocalId.text slot ++ " out of bounds"
  | globalOutOfRange g => "global " ++ GlobalId.text g ++ " out of bounds"
  | unknownBlock b => (StructureError.unknownBlock b).message
  | unknownInstr i => (StructureError.unknownInstr i).message
  | fellOff b function =>
    "fell off the end of block " ++ BlockId.text b ++ " in " ++ function
  | badArguments op args => op ++ ": bad args: " ++ args

/-- The part an operand plays in an array instruction. -/
inductive OperandRole where
  | arraySize
  | arrayLoad
  | arrayStore
  | arrayIndex
  deriving DecidableEq

/-- The role in messages. -/
def OperandRole.text : OperandRole → String
  | arraySize => "array size"
  | arrayLoad => "array load"
  | arrayStore => "array store"
  | arrayIndex => "array index"

/-- **Why an evaluation fails.** -/
inductive RuntimeError where
  | arity (callee : String) (expected actual : Nat)
  /-- A builtin operation was given an argument of the wrong kind. -/
  | argumentKind (op : String) (index : Nat) (expected : ParamType) (actual : Kind)
  /-- A builtin operation returned a value outside its declared type. -/
  | brokenPromise (op : String) (promised : ParamType) (returned : Kind)
  | internal (defect : Defect)
  | divisionByZero (op : String)
  | conversion (input : String)
  | io (op : String) (fault : IoFault)
  | indexOutOfBounds (index : Int64) (length : Nat)
  | negativeSize (size : Int64)
  /-- An array instruction was given an operand of the wrong kind. -/
  | operandKind (role : OperandRole) (expected found : Kind)
  | conditionKind (found : Kind)
  | unknownBuiltin (name : String)
  | unknownFunction (callee : String)
  | stackOverflow (limit : Nat)
  | linkage (e : LinkError)
  deriving DecidableEq

/-- The error in words. -/
def RuntimeError.message : RuntimeError → String
  | arity callee expected actual =>
    "wrong number of arguments to " ++ callee ++ ": expected " ++ Nat.repr expected ++ ", got " ++
      Nat.repr actual
  | argumentKind op index expected actual =>
    "while calling builtin operation " ++ op ++ ", parameter #" ++ Nat.repr index ++ " expects " ++
      expected.text ++ " but received " ++ actual.text
  | brokenPromise op promised returned =>
    "internal error: builtin operation " ++ op ++ " promised " ++ promised.text ++
      " but returned " ++ returned.text
  | internal defect => "internal error: " ++ defect.message
  | divisionByZero op => "division by 0 in " ++ op
  | conversion input => "cannot convert " ++ Text.quote input ++ " to int"
  | io op fault => "I/O error while executing " ++ op ++ ": " ++ fault.message
  | indexOutOfBounds index length =>
    "index out of bounds: index " ++ Decimal.ofInt64 index ++ " but the array has " ++
      Nat.repr length ++ " elements"
  | negativeSize size => "cannot allocate an array of negative size " ++ Decimal.ofInt64 size
  | operandKind role expected found =>
    role.text ++ " expects " ++ expected.text ++ " but found " ++ found.text
  | conditionKind found => "branch condition must be int, found " ++ found.text
  | unknownBuiltin name => "unknown builtin operation '" ++ name ++ "'"
  | unknownFunction callee => "call to unknown function " ++ callee
  | stackOverflow limit => "call depth exceeded the limit of " ++ Nat.repr limit ++ " frames"
  | linkage e => e.message

end BlockIR
