import BlockIR.Function.Basic
import BlockIR.Transform
/-!
# Editing functions

An edit is a state transformer on a function that may fail: it returns its
result together with the function it leaves behind, also when it fails. Edits
that cannot fail are plain state actions and lift into edits. An edit that
writes in two places looks up the second one only when it comes to it.
-/

namespace BlockIR

/-- **An edit of a function.** -/
abbrev Edit := Transform Function StructureError

namespace Function

open Transform

/-- Change one block in place. -/
def modifyBlock (f : Function) (b : BlockId) (g : Block → Block) : Function :=
  { f with blocks := f.blocks.modify b g }

/-- Change one place of the arena. -/
def modifySlot (f : Function) (i : InstrId) (g : Slot → Slot) : Function :=
  { f with slots := f.slots.modify i g }

/-- Change one block in place. There must be such a block. -/
def updateBlock (b : BlockId) (g : Block → Block) : Edit Unit := do
  let _ ← query (·.block b)
  modify (·.modifyBlock b g)

/-- Change one place of the arena. There must be such a place. -/
def updateSlot (i : InstrId) (g : Slot → Slot) : Edit Unit := do
  let _ ← query (·.slot i)
  modify (·.modifySlot i g)

/-- Reserve a fresh local slot, with the slots counted without bound. -/
def reserveLocal : StateM Function LocalId :=
  modifyGet fun f => (f.numLocals, { f with numLocals := f.numLocals + 1 })

/-- Reserve a fresh local slot, with the slots counted in 32 bits: the count wraps
around. -/
def newLocal : StateM Function LocalId :=
  modifyGet fun f => (f.numLocals, { f with numLocals := (f.numLocals + 1) % UInt32.size })

/-- Add an empty block. -/
def appendBlock (name : Option String) : StateM Function BlockId :=
  modifyGet fun f =>
    (f.blocks.size, { f with blocks := f.blocks.push { id := f.blocks.size, name := name } })

/-- Add a detached instruction to the arena. -/
def createInstr (instr : Instruction) (location : Location := .unknown) : StateM Function InstrId :=
  modifyGet fun f =>
    (f.slots.size, { f with slots := f.slots.push { instr := instr, location := location } })

/-- Replace an instruction in place; its owner and position stay. Returns the
old instruction. -/
def substitute (i : InstrId) (instr : Instruction) : Edit Instruction := do
  let old ← query (·.instr i)
  modify (·.modifySlot i fun s => { s with instr := instr })
  return old

/-- Change where an instruction comes from. -/
def relocate (i : InstrId) (location : Location) : Edit Unit :=
  updateSlot i fun s => { s with location := location }

/-- Insert a detached instruction into a block at an index, which may be the
block's length. -/
def attachAt (b : BlockId) (i : InstrId) (index : Nat) : Edit InstrId := do
  match ← query (·.owner i) with
  | some owner => throw (.alreadyOwned i owner)
  | none =>
    let length ← query (·.count b)
    if length < index then
      throw (.indexOutOfRange b index length)
    modify (·.modifyBlock b fun block => { block with instrs := block.instrs.insertIdx index i })
    updateSlot i fun s => { s with owner := some b }
    return i

/-- Append a detached instruction to a block. -/
def attachLast (b : BlockId) (i : InstrId) : Edit InstrId := do
  let length ← query (·.count b)
  attachAt b i length

/-- Insert a detached instruction right before an attached one. -/
def attachBefore (anchor new : InstrId) : Edit InstrId := do
  let (b, index) ← query (·.position anchor)
  attachAt b new index

/-- Insert a detached instruction right after an attached one. -/
def attachAfter (anchor new : InstrId) : Edit InstrId := do
  let (b, index) ← query (·.position anchor)
  attachAt b new (index + 1)

/-- Detach an instruction from its block. It stays in the arena and may be
inserted again. -/
def detach (i : InstrId) : Edit Unit := do
  let (b, index) ← query (·.position i)
  updateBlock b fun block => { block with instrs := block.instrs.eraseIdx index }
  updateSlot i fun s => { s with owner := none }

/-- Add an edge at both its ends. False if it was there already. -/
def connect (src dst : BlockId) : Edit Bool := do
  let _ ← query (·.block dst)
  let succs ← query (·.successors src)
  if dst ∈ succs then
    return false
  updateBlock src fun block => { block with succs := block.succs ++ [dst] }
  updateBlock dst fun block => { block with preds := block.preds ++ [src] }
  return true

/-- Remove an edge at both its ends. False if it was not there. -/
def disconnect (src dst : BlockId) : Edit Bool := do
  let _ ← query (·.block dst)
  let succs ← query (·.successors src)
  if dst ∉ succs then
    return false
  modify (·.modifyBlock src fun block => { block with succs := block.succs.erase dst })
  updateBlock dst fun block => { block with preds := block.preds.filter (· != src) }
  return true

end Function

end BlockIR
