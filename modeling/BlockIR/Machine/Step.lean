import BlockIR.Builtin.Registry
import BlockIR.Machine.Memory
import BlockIR.Program.Basic
/-!
# One step of a run

A run proceeds instruction by instruction. A step takes the next instruction of
the innermost call, moves the call past it and carries it out. A call of a
function begins a frame and a return ends one; the depth of calls is limited.
-/

namespace BlockIR

/-- **What a run is a run of**: a program, the builtin operations it calls, and
the number of calls that may be in progress at once. -/
structure Setting where
  program : Program
  table : Table
  limit : Nat

namespace Machine

open Exec

/-- The value of an operand. -/
def operand : Operand → Exec Value
  | .var l => readLocal l
  | .const c => return c.value

/-- The values of operands, from left to right. -/
def operands (ops : List Operand) : Exec (List Value) :=
  ops.mapM operand

/-- The integer an operand must be. -/
def intOperand (role : OperandRole) (op : Operand) : Exec Int64 := do
  match ← operand op with
  | .int i => return i
  | v => throw (.operandKind role .int v.kind)

/-- The array an operand must be. -/
def arrayOperand (role : OperandRole) (op : Operand) : Exec Address := do
  match ← operand op with
  | .array a => return a
  | v => throw (.operandKind role .array v.kind)

/-- Allocate an array of nulls of a given size. -/
def allocate (size : Int64) : Exec Value := do
  if size < 0 then
    throw (.negativeSize size)
  return .array (← effect (Effect.allocateNulls size.toInt.toNat))

/-- Keep the result of a call, if there is a slot for it. -/
def deliver (dst : Option LocalId) (v : Value) : Exec Unit :=
  match dst with
  | some l => writeLocal l v
  | none => return ()

/-- Begin a call: the function must exist, take that many arguments and fit
under the depth limit. -/
def enter (s : Setting) (ref : FunctionRef) (args : List Value) (resume : Resume) :
    Exec Unit := do
  match s.program.function? ref with
  | none => throw (.unknownFunction (s.program.describe ref))
  | some f =>
    if args.length ≠ f.arity then
      throw (.arity (s.program.describe ref) f.arity args.length)
    if s.limit ≤ (← get).stack.height then
      throw (.stackOverflow s.limit)
    modifyStack (·.push (Frame.start ref f args resume))

/-- Continue the innermost call at the start of a block. -/
def goto (b : BlockId) : Exec Unit :=
  modifyStack (·.modifyTop fun f => { f with block := b, next := 0 })

/-- Move the innermost call past its next instruction. -/
def advance : Exec Unit :=
  modifyStack (·.modifyTop fun f => { f with next := f.next + 1 })

/-- The next instruction of a call. -/
def fetch (p : Program) (frame : Frame) : Except RuntimeError Instruction :=
  match p.function? frame.function with
  | none => .error (.unknownFunction (p.describe frame.function))
  | some f =>
    match f.blocks[frame.block]? with
    | none => .error (.internal (.unknownBlock frame.block))
    | some block =>
      match block.instrs[frame.next]? with
      | none => .error (.internal (.fellOff frame.block f.name))
      | some i =>
        match f.slots[i]? with
        | none => .error (.internal (.unknownInstr i))
        | some slot => .ok slot.instr

/-- Return a value from the innermost call: to the caller, or as the result of
the run. -/
def leave (v : Value) : Exec (Option Value) := do
  let frame ← top
  modifyStack (·.pop)
  match frame.resume with
  | .halt => return some v
  | .caller dst =>
    deliver dst v
    return none

/-- Take a branch: zero leads to the second target and any other integer to the
first. -/
def branch (cond : Value) (thenTarget elseTarget : BlockId) : Exec Unit :=
  match cond with
  | .int i => goto (if i = 0 then elseTarget else thenTarget)
  | v => throw (.conditionKind v.kind)

/-- **Carry an instruction out.** The result is there once the run is over. -/
def execute (s : Setting) : Instruction → Exec (Option Value)
  | .copy dst src => do
    writeLocal dst (← operand src)
    return none
  | .newArray dst size => do
    writeLocal dst (← allocate (← intOperand .arraySize size))
    return none
  | .loadArray dst array index => do
    let a ← arrayOperand .arrayLoad array
    let i ← intOperand .arrayIndex index
    writeLocal dst (← effect (Effect.load a i))
    return none
  | .storeArray array index value => do
    let a ← arrayOperand .arrayStore array
    let i ← intOperand .arrayIndex index
    let v ← operand value
    effect (Effect.store a i v)
    return none
  | .loadGlobal dst g => do
    writeLocal dst (← readGlobal g)
    return none
  | .storeGlobal g src => do
    writeGlobal g (← operand src)
    return none
  | .call dst (.builtin name) args => do
    let vs ← operands args
    deliver dst (← effect (s.table.call name vs))
    return none
  | .call dst (.function ref) args => do
    let vs ← operands args
    enter s ref vs (.caller dst)
    return none
  | .binary dst op lhs rhs => do
    let a ← operand lhs
    let b ← operand rhs
    writeLocal dst (← effect (s.table.call op.builtin [a, b]))
    return none
  | .jump target => do
    goto target
    return none
  | .branch cond thenTarget elseTarget => do
    branch (← operand cond) thenTarget elseTarget
    return none
  | .ret value => do
    leave (← operand value)

/-- **One step of a run.** The result is there once the run is over. -/
def step (s : Setting) : Exec (Option Value) := do
  let frame ← top
  match fetch s.program frame with
  | .error e => throw e
  | .ok instr =>
    advance
    execute s instr

end Machine

end BlockIR
