import BlockIR.Operator
import BlockIR.Value
/-!
# Instructions

An instruction reads operands, which are local slots or constants, and may
write one local slot. Jumps, branches and returns are terminators: they end a
block and say where control goes.

Locals, instructions, blocks and globals are numbered, the first three within
their function and globals within the program.
-/

namespace BlockIR

/-- A local slot of a call. Parameters occupy the first slots. -/
abbrev LocalId := Nat

/-- The place of an instruction in its function's arena. -/
abbrev InstrId := Nat

/-- The number of a block within its function. -/
abbrev BlockId := Nat

/-- The slot of a global variable in the program. -/
abbrev GlobalId := Nat

/-- The position of a module in the program. -/
abbrev ModuleIndex := Nat

/-- A function, by its module and its position there. -/
structure FunctionRef where
  module : ModuleIndex
  index : Nat
  deriving DecidableEq

/-- A constant operand. -/
inductive Constant where
  | int (i : Int64)
  | str (s : String)
  | null
  deriving DecidableEq

/-- The value of a constant. -/
def Constant.value : Constant → Value
  | int i => .int i
  | str s => .str s
  | null => .null

/-- The input of an instruction: a local slot or a constant. -/
inductive Operand where
  | var (l : LocalId)
  | const (c : Constant)
  deriving DecidableEq

namespace Operand

/-- The integer constant. -/
def int (i : Int64) : Operand := const (.int i)

/-- The text constant. -/
def str (s : String) : Operand := const (.str s)

/-- The null constant. -/
def null : Operand := const .null

/-- The local slot an operand reads. -/
def local? : Operand → Option LocalId
  | var l => some l
  | const _ => none

end Operand

/-- What a call runs. A builtin operation is bound by name when the call
executes, so a program may name one that does not exist. -/
inductive Callee where
  | function (f : FunctionRef)
  | builtin (name : String)
  deriving DecidableEq

/-- **An instruction.** A new array holds nulls; a branch takes its first
target when its condition is nonzero. -/
inductive Instruction where
  | copy (dst : LocalId) (src : Operand)
  | newArray (dst : LocalId) (size : Operand)
  | loadArray (dst : LocalId) (array index : Operand)
  | storeArray (array index value : Operand)
  | loadGlobal (dst : LocalId) (global : GlobalId)
  | storeGlobal (global : GlobalId) (src : Operand)
  | call (dst : Option LocalId) (callee : Callee) (args : List Operand)
  | binary (dst : LocalId) (op : Operator) (lhs rhs : Operand)
  | jump (target : BlockId)
  | branch (cond : Operand) (thenTarget elseTarget : BlockId)
  | ret (value : Operand)
  deriving DecidableEq

namespace Instruction

/-- The instruction ends its block. -/
def isTerminator : Instruction → Bool
  | jump _ | branch .. | ret _ => true
  | _ => false

/-- The blocks control may go to next, each once. -/
def targets : Instruction → List BlockId
  | jump t => [t]
  | branch _ t e => if t = e then [t] else [t, e]
  | _ => []

/-- The local slot the instruction writes. -/
def def? : Instruction → Option LocalId
  | copy dst _ | newArray dst _ | loadArray dst .. | loadGlobal dst _ | binary dst .. => some dst
  | call dst .. => dst
  | _ => none

/-- The operands the instruction reads, in order. -/
def operands : Instruction → List Operand
  | copy _ src | storeGlobal _ src => [src]
  | newArray _ size => [size]
  | loadArray _ array index => [array, index]
  | storeArray array index value => [array, index, value]
  | call _ _ args => args
  | binary _ _ lhs rhs => [lhs, rhs]
  | branch cond .. => [cond]
  | ret value => [value]
  | loadGlobal .. | jump _ => []

/-- The local slots the instruction touches: those it reads, then the one it
writes. -/
def locals (i : Instruction) : List LocalId :=
  i.operands.filterMap Operand.local? ++ i.def?.toList

end Instruction

end BlockIR
