import BlockIR.Function.Edit
/-!
# Emitting code

A cursor stands at a block of a function under construction and appends
instructions to it, each tagged with the cursor's source location. A block that
ends with a terminator is closed: nothing more can be emitted there.

Emission is a state transformer on the cursor. What it did before it failed
stays: a reserved slot, an instruction in the arena.
-/

namespace BlockIR

/-- **A cursor in a function under construction.** -/
structure Cursor where
  function : Function
  block : BlockId
  location : Location

/-- An emission. -/
abbrev Emit := Transform Cursor StructureError

namespace Cursor

/-- A cursor at a function's entry. -/
def atEntry (f : Function) : Cursor where
  function := f
  block := f.entry
  location := .unknown

/-- The cursor's block ends with a terminator. -/
def isClosed (c : Cursor) : Bool :=
  (c.function.terminator? c.block).isSome

end Cursor

namespace Emit

/-- An edit of the cursor's function. -/
def edit {α : Type} (e : Edit α) : Emit α :=
  ExceptT.mk fun (⟨f, block, location⟩ : Cursor) =>
    match e.apply f with
    | (result, f') => (result, ⟨f', block, location⟩)

/-- A state action on the cursor's function. -/
def onFunction {α : Type} (x : StateM Function α) : StateM Cursor α :=
  fun ⟨f, block, location⟩ =>
    match x.run f with
    | (a, f') => (a, ⟨f', block, location⟩)

/-- Move to a block, which need not exist. -/
def moveTo (b : BlockId) : StateM Cursor Unit :=
  modify fun c => { c with block := b }

/-- Add a named block. -/
def newBlock (name : String) : StateM Cursor BlockId :=
  onFunction (Function.appendBlock (some name))

/-- Reserve a local slot. -/
def freshLocal : StateM Cursor LocalId :=
  onFunction Function.reserveLocal

/-- Set the location of what follows. Returns the previous one. -/
def locate (location : Location) : StateM Cursor Location :=
  modifyGet fun c => (c.location, { c with location := location })

/-- Add a detached instruction with the cursor's location. -/
def createInstr (instr : Instruction) : StateM Cursor InstrId := do
  let c ← get
  onFunction (Function.createInstr instr c.location)

/-- Append an instruction to the current block. -/
def append (instr : Instruction) : Emit InstrId := do
  let c ← get
  if c.isClosed then
    throw (.malformed c.function.name c.block (.closed instr))
  let i ← createInstr instr
  edit (Function.attachLast c.block i)

/-- Append an instruction that writes a fresh local slot. -/
def appendTo (instr : LocalId → Instruction) : Emit LocalId := do
  let dst ← freshLocal
  let _ ← append (instr dst)
  return dst

/-- Copy an operand into a slot. -/
def copy (dst : LocalId) (src : Operand) : Emit Unit := do
  let _ ← append (.copy dst src)

/-- Allocate an array. -/
def newArray (size : Operand) : Emit LocalId :=
  appendTo fun dst => .newArray dst size

/-- Load an element of an array. -/
def loadArray (array index : Operand) : Emit LocalId :=
  appendTo fun dst => .loadArray dst array index

/-- Store an element of an array. -/
def storeArray (array index value : Operand) : Emit Unit := do
  let _ ← append (.storeArray array index value)

/-- Load a global. -/
def loadGlobal (g : GlobalId) : Emit LocalId :=
  appendTo fun dst => .loadGlobal dst g

/-- Store a global. -/
def storeGlobal (g : GlobalId) (src : Operand) : Emit Unit := do
  let _ ← append (.storeGlobal g src)

/-- Call a function or a builtin operation. -/
def call (callee : Callee) (args : List Operand) : Emit LocalId :=
  appendTo fun dst => .call (some dst) callee args

/-- Apply a binary operator. -/
def binary (op : Operator) (lhs rhs : Operand) : Emit LocalId :=
  appendTo fun dst => .binary dst op lhs rhs

/-- Require that a block exists. -/
def requireBlock (b : BlockId) : Emit Unit := do
  let _ ← edit (Transform.query (·.block b))

/-- Record an edge from the current block. -/
def connectTo (target : BlockId) : Emit Unit := do
  let _ ← edit (Function.connect (← get).block target)

/-- End the block with a jump, and record its edge. -/
def jump (target : BlockId) : Emit Unit := do
  requireBlock target
  let _ ← append (.jump target)
  connectTo target

/-- End the block with a branch, and record its edges. -/
def branch (cond : Operand) (thenTarget elseTarget : BlockId) : Emit Unit := do
  requireBlock thenTarget
  requireBlock elseTarget
  let _ ← append (.branch cond thenTarget elseTarget)
  connectTo thenTarget
  connectTo elseTarget

/-- End the block with a return. -/
def ret (value : Operand) : Emit Unit := do
  let _ ← append (.ret value)

end Emit

end BlockIR
