import BlockIR.Function.Basic
/-!
# Checking functions

`Function.check` decides whether a function may be run: every block is
nonempty, its last instruction and no other is a terminator, every instruction
it lists is its own and touches only local slots that exist, its successors are
the targets of its terminator, and edges are known at both ends. Of several
faults the first in block order is reported.
-/

namespace BlockIR

namespace Function

/-- The error that reports a flaw of a block. -/
def flawed (f : Function) (b : BlockId) (flaw : BlockFlaw) : StructureError :=
  .malformed f.name b flaw

/-- Check one listed instruction, given whether it is the last of its block. -/
def checkInstr (f : Function) (b : BlockId) (isLast : Bool) (i : InstrId) :
    Except StructureError Unit := do
  let slot ← f.slot i
  if slot.owner ≠ some b then
    throw (f.flawed b (.foreign i slot.owner))
  if slot.instr.isTerminator ≠ isLast then
    throw (f.flawed b (if isLast then .unterminated else .earlyTerminator i))
  match slot.instr.locals.find? fun l => f.numLocals ≤ l with
  | some l => throw (f.flawed b (.localOutOfRange l f.numLocals))
  | none => return ()

/-- Check the instructions a block lists, from some point on. -/
def checkInstrs (f : Function) (b : BlockId) : List InstrId → Except StructureError Unit
  | [] => return ()
  | i :: rest => do
    f.checkInstr b rest.isEmpty i
    f.checkInstrs b rest

/-- Check that a target of a block's terminator exists and has an edge. -/
def checkTarget (f : Function) (block : Block) (target : BlockId) :
    Except StructureError Unit := do
  let _ ← f.block target
  if target ∉ block.succs then
    throw (f.flawed block.id (.missingEdge target))

/-- Check that an edge is known at its far end. -/
def checkSuccessor (f : Function) (block : Block) (succ : BlockId) :
    Except StructureError Unit := do
  let far ← f.block succ
  if block.id ∉ far.preds then
    throw (f.flawed block.id (.missingBackEdge succ))

/-- Check that a back-edge belongs to an edge. -/
def checkPredecessor (f : Function) (block : Block) (pred : BlockId) :
    Except StructureError Unit := do
  let far ← f.block pred
  if block.id ∉ far.succs then
    throw (f.flawed block.id (.strayBackEdge pred))

/-- Check one block. -/
def checkBlock (f : Function) (block : Block) : Except StructureError Unit := do
  if block.instrs.isEmpty then
    throw (f.flawed block.id .empty)
  f.checkInstrs block.id block.instrs
  let targets := ((f.terminator? block.id).map Instruction.targets).getD []
  targets.forM (f.checkTarget block)
  match block.succs.find? fun s => s ∉ targets with
  | some extra => throw (f.flawed block.id (.untakenEdge extra))
  | none =>
    block.succs.forM (f.checkSuccessor block)
    block.preds.forM (f.checkPredecessor block)

/-- **Check a function**, block by block. -/
def check (f : Function) : Except StructureError Unit :=
  f.blocks.toList.forM f.checkBlock

end Function

end BlockIR
