import BlockIR.Function.Basic
import BlockIR.World
/-!
# The memory of a run

A run has a stack of frames, one for each call in progress, and one slot for
each global. A frame holds the call's local slots, the place of the next
instruction and what becomes of the call's result. Frames are never shared, so
calls of one function have separate locals.
-/

namespace BlockIR

/-- What becomes of the result of a call: it ends the run, or it goes to the
caller's local slot, or is dropped. -/
inductive Resume where
  | halt
  | caller (dst : Option LocalId)
  deriving DecidableEq

/-- **A call in progress.** -/
structure Frame where
  function : FunctionRef
  locals : Array Value
  block : BlockId
  /-- The index in the block of the next instruction. -/
  next : Nat
  resume : Resume
  deriving DecidableEq

/-- The frame of a call at its start: the arguments in the first slots, null
in the others, control at the entry. -/
def Frame.start (ref : FunctionRef) (f : Function) (args : List Value) (resume : Resume) :
    Frame where
  function := ref
  locals := args.toArray ++ Array.replicate (f.numLocals - args.length) .null
  block := f.entry
  next := 0
  resume := resume

/-- **The calls in progress**, the innermost first. The number of frames is kept
beside them. -/
structure Stack where
  frames : List Frame := []
  height : Nat := frames.length
  height_eq : height = frames.length := by rfl

namespace Stack

/-- The innermost call. -/
def top? (s : Stack) : Option Frame := s.frames.head?

/-- Begin a call. -/
def push (f : Frame) : Stack → Stack
  | ⟨frames, height, h⟩ => ⟨f :: frames, height + 1, by simp [h]⟩

/-- End the innermost call. -/
def pop : Stack → Stack
  | ⟨frames, height, h⟩ => ⟨frames.tail, height - 1, by simp [h]⟩

/-- Change the innermost call. -/
def modifyTop (g : Frame → Frame) : Stack → Stack
  | ⟨[], height, h⟩ => ⟨[], height, h⟩
  | ⟨f :: rest, height, h⟩ => ⟨g f :: rest, height, by simpa using h⟩

/-- End calls one after the other, as they fail, through the call that the run is
of. -/
def endCalls : List Frame → Stack → Stack
  | [], s => s
  | f :: rest, s =>
    match f.resume with
    | .halt => s.pop
    | .caller _ => endCalls rest s.pop

/-- **The innermost call fails.** It ends, and its caller fails with it. -/
def unwind (s : Stack) : Stack := endCalls s.frames s

end Stack

/-- **The memory of a run**: calls, globals and the world. -/
structure Memory where
  stack : Stack
  globals : Array Value
  world : World

/-- The memory once a run is over. A call that returns has ended already; one that
fails ends now. -/
def Memory.settle {α : Type} : Except RuntimeError α → Memory → Memory
  | .ok _, m => m
  | .error _, m => { m with stack := m.stack.unwind }

/-- An action on the memory that may fail. -/
abbrev Exec := Transform Memory RuntimeError

namespace Exec

/-- Fail with a defect of the code. -/
def defect {α : Type} (d : Defect) : Exec α :=
  throw (.internal d)

/-- Act on the world. -/
def effect {α : Type} (e : Effect α) : Exec α :=
  ExceptT.mk fun (⟨stack, globals, world⟩ : Memory) =>
    match e.apply world with
    | (result, world') => (result, ⟨stack, globals, world'⟩)

/-- Change the stack. -/
def modifyStack (g : Stack → Stack) : Exec Unit :=
  modify fun ⟨stack, globals, world⟩ => ⟨g stack, globals, world⟩

/-- The innermost call. -/
def top : Exec Frame := do
  match (← get).stack.top? with
  | some f => return f
  | none => defect .noFrame

/-- Read a local slot of the innermost call. -/
def readLocal (l : LocalId) : Exec Value := do
  match (← top).locals[l]? with
  | some v => return v
  | none => defect (.localOutOfRange l)

/-- Write a local slot of the innermost call. -/
def writeLocal (l : LocalId) (v : Value) : Exec Unit := do
  if l < (← top).locals.size then
    modifyStack (·.modifyTop fun f => { f with locals := f.locals.setIfInBounds l v })
  else
    defect (.localOutOfRange l)

/-- Read a global. -/
def readGlobal (g : GlobalId) : Exec Value := do
  match (← get).globals[g]? with
  | some v => return v
  | none => defect (.globalOutOfRange g)

/-- Write a global. -/
def writeGlobal (g : GlobalId) (v : Value) : Exec Unit := do
  if g < (← get).globals.size then
    modify fun ⟨stack, globals, world⟩ => ⟨stack, globals.setIfInBounds g v, world⟩
  else
    defect (.globalOutOfRange g)

end Exec

end BlockIR
