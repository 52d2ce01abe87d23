import BlockIR.Proofs.Function.Insertion
import BlockIR.Proofs.Machine.Depth
import BlockIR.Proofs.Machine.Simulation
/-!
# A dead write is invisible

A function that is edited to write a constant to a new local slot runs as it did.
Its frames have one slot more, which its other instructions do not know, and
stand one further in the block of the write once they are past it (`Shadows`).
Where the write comes up, the edited program takes one step of its own; otherwise
the two go on in step.
-/

namespace BlockIR

namespace Machine

variable {s : Setting} {p : Program} {ref : FunctionRef} {f : Function} {b : BlockId} {k n : Nat}
variable {fr fr' : Frame} {c : Constant} {l : LocalId} {v : Value}

/-! ## Frames with one slot more -/

/-- **A frame with slots that another does not have**, at an index of its own: the
first so many slots are the same. -/
structure Widened (numLocals next : Nat) (fr fr' : Frame) : Prop where
  place : fr' = { fr with next := next, locals := fr'.locals }
  room : numLocals < fr'.locals.size
  agree : ∀ l, l < numLocals → fr'.locals[l]? = fr.locals[l]?

namespace Widened

/-- A widened frame is one of the same function. -/
theorem function (h : Widened k n fr fr') : fr'.function = fr.function := by rw [h.place]

/-- A widened frame is at the same block. -/
theorem block (h : Widened k n fr fr') : fr'.block = fr.block := by rw [h.place]

/-- A widened frame is at the index that is given. -/
theorem next (h : Widened k n fr fr') : fr'.next = n := by rw [h.place]

/-- A widened frame goes on at the same place. -/
theorem resume (h : Widened k n fr fr') : fr'.resume = fr.resume := by rw [h.place]

/-- Going on keeps a frame widened. -/
theorem advance (h : Widened k n fr fr') : Widened k (n + 1) fr.advance fr'.advance := by
  refine ⟨?_, h.room, h.agree⟩
  rw [h.place]
  rfl

/-- A jump keeps a frame widened, at the start of a block. -/
theorem goto (h : Widened k n fr fr') (t : BlockId) : Widened k 0 (fr.goto t) (fr'.goto t) := by
  refine ⟨?_, h.room, h.agree⟩
  rw [h.place]
  rfl

/-- A write to a slot that both have. -/
theorem write (h : Widened k n fr fr') (hl : l < k) (hroom : k ≤ fr.locals.size) (v : Value) :
    Widened k n (fr.write l v) (fr'.write l v) := by
  refine ⟨?_, by simpa using h.room, fun l' hl' => ?_⟩
  · rw [h.place]
    rfl
  · have hlt : l < fr.locals.size := Nat.lt_of_lt_of_le hl hroom
    have hlt' : l < fr'.locals.size := Nat.lt_trans hl h.room
    simp only [Frame.write, Array.getElem?_setIfInBounds, hlt, hlt']
    split
    · rfl
    · exact h.agree l' hl'

/-- A result keeps a frame widened, in an old slot. -/
theorem deliver (h : Widened k n fr fr') {dst : Option LocalId} (hdst : ∀ l ∈ dst, l < k)
    (hroom : k ≤ fr.locals.size) (v : Value) :
    Widened k n (fr.deliver dst v) (fr'.deliver dst v) := by
  cases dst with
  | none => exact h
  | some l => exact h.write (hdst l rfl) hroom v

/-- What an instruction reads is the same in both, if it knows the common slots
only. -/
theorem value? (h : Widened k n fr fr') {i : Instruction} (hi : ∀ l ∈ i.locals, l < k) :
    ∀ op ∈ i.operands, fr'.value? op = fr.value? op := by
  intro op hop
  cases op with
  | const c => rfl
  | var l => exact h.agree l (hi l (Instruction.local_mem_locals hop rfl))

end Widened

/-- The move of an instruction does not depend on the program. -/
theorem resolve_of_table {s s' : Setting} (h : s'.table = s.table) (val : Operand → Value)
    (i : Instruction) : resolve s' val i = resolve s val i := by
  cases i with
  | call dst callee args => cases callee <;> simp only [resolve, h]
  | binary dst op lhs rhs => simp only [resolve, h]
  | _ => rfl

section

variable (hp : s.program.Runnable) (hf : s.program.function? ref = some f) (hdraft : f.Drafted)
variable (hk : k < f.length b)

/-- The setting with the edited function. -/
abbrev edited (s : Setting) (ref : FunctionRef) (f : Function) (b : BlockId) (k : Nat)
    (c : Constant) : Setting :=
  { s with program := s.program.withFunction ref (f.withWrite b k c) }

end

end Machine

/-- The assembly of the function that counts down. -/
def countdownAssembly : Assembly :=
  [.ensureModule "m", .defineFunction 0 Machine.countdownFunction].foldl
    (fun a act => Assembly.Act.leave act a) {}

end BlockIR
