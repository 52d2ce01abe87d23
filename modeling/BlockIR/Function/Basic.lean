import BlockIR.Function.Error
import BlockIR.Location
/-!
# Functions

A function has parameters, local slots and blocks. Its instructions live in one
arena and are known by their place there; a block lists the instructions it
owns in execution order, and an instruction is owned by at most one block. An
instruction that no block owns is detached. Blocks also carry their
control-flow edges, at both ends.
-/

namespace BlockIR

/-- **A block**: instructions in execution order, and control-flow edges to
successors and from predecessors. -/
structure Block where
  id : BlockId
  name : Option String := none
  instrs : List InstrId := []
  succs : List BlockId := []
  preds : List BlockId := []
  deriving DecidableEq

/-- A place in the arena: the instruction, the block that owns it and where it
comes from. -/
structure Slot where
  instr : Instruction
  owner : Option BlockId := none
  location : Location := .unknown
  deriving DecidableEq

/-- **A function.** Parameters occupy the first local slots, and control enters
at block zero. -/
structure Function where
  name : String
  params : List String
  numLocals : Nat
  blocks : Array Block
  slots : Array Slot
  deriving DecidableEq

namespace Function

/-- A function with one empty block. -/
def empty (name : String) (params : List String) : Function where
  name := name
  params := params
  numLocals := params.length
  blocks := #[{ id := 0, name := some "entry" }]
  slots := #[]

/-- The number of parameters. -/
def arity (f : Function) : Nat := f.params.length

/-- The block control enters at. -/
def entry (_ : Function) : BlockId := 0

/-- The local slot of the parameter at an index. -/
def paramLocal? (f : Function) (index : Nat) : Option LocalId :=
  if index < f.arity then some index else none

/-- The block with a number. -/
def block (f : Function) (b : BlockId) : Except StructureError Block :=
  match f.blocks[b]? with
  | some block => .ok block
  | none => .error (.unknownBlock b)

/-- The arena place of an instruction. -/
def slot (f : Function) (i : InstrId) : Except StructureError Slot :=
  match f.slots[i]? with
  | some slot => .ok slot
  | none => .error (.unknownInstr i)

/-- The instruction with a number. -/
def instr (f : Function) (i : InstrId) : Except StructureError Instruction :=
  return (← f.slot i).instr

/-- Where an instruction comes from. -/
def location (f : Function) (i : InstrId) : Except StructureError Location :=
  return (← f.slot i).location

/-- The block that owns an instruction, or none if it is detached. -/
def owner (f : Function) (i : InstrId) : Except StructureError (Option BlockId) :=
  return (← f.slot i).owner

/-- The block and the index there of an attached instruction. -/
def position (f : Function) (i : InstrId) : Except StructureError (BlockId × Nat) := do
  match ← f.owner i with
  | none => throw (.detached i)
  | some b =>
    match (← f.block b).instrs.idxOf? i with
    | none => throw (.malformed f.name b (.unlisted i))
    | some index => return (b, index)

/-- The number of instructions a block lists. -/
def count (f : Function) (b : BlockId) : Except StructureError Nat :=
  return (← f.block b).instrs.length

/-- The instruction a block lists at an index. -/
def listedAt (f : Function) (b : BlockId) (index : Nat) : Except StructureError InstrId := do
  let block ← f.block b
  match block.instrs[index]? with
  | some i => return i
  | none => throw (.indexOutOfRange b index block.instrs.length)

/-- The instructions a block lists, in execution order. -/
def instructionsOf (f : Function) (b : BlockId) :
    Except StructureError (List (InstrId × Instruction)) :=
  return (← f.block b).instrs.filterMap fun i => (f.slots[i]?).map fun s => (i, s.instr)

/-- The last instruction of a block, if it is a terminator. -/
def terminator? (f : Function) (b : BlockId) : Option Instruction := do
  let block ← f.blocks[b]?
  let last ← block.instrs.getLast?
  let slot ← f.slots[last]?
  if slot.instr.isTerminator then some slot.instr else none

/-- The successors of a block. -/
def successors (f : Function) (b : BlockId) : Except StructureError (List BlockId) :=
  return (← f.block b).succs

/-- The predecessors of a block. -/
def predecessors (f : Function) (b : BlockId) : Except StructureError (List BlockId) :=
  return (← f.block b).preds

end Function

end BlockIR
