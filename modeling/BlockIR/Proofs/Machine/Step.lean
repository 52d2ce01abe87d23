import BlockIR.Machine.Step
import BlockIR.Proofs.Function.Code
import BlockIR.Proofs.Operation
import Mathlib.Data.List.Forall2
/-!
# What a step does

A step reads operands from the innermost frame and changes that frame, the
globals or the world. An instruction whose operands can be read comes to one of
four moves of the frames (`execute_eq_resolve`); which one it is depends on the
values of the operands, the globals and the world, and on nothing else of the
frames. The equations of this file say what every instruction does, given the
values of its operands; they are all that later proofs use of the machine's
definition.
-/

namespace BlockIR

/-- The memory with some calls in progress. -/
def Memory.ofFrames (frames : List Frame) (globals : Array Value) (world : World) : Memory where
  stack := { frames := frames }
  globals := globals
  world := world

/-- A memory is given by its frames, globals and world. -/
theorem Memory.eq_ofFrames (m : Memory) :
    m = .ofFrames m.stack.frames m.globals m.world := by
  obtain ⟨⟨frames, height, h⟩, globals, world⟩ := m
  subst h
  rfl

namespace Frame

/-- The frame past its next instruction. -/
def advance (fr : Frame) : Frame := { fr with next := fr.next + 1 }

/-- The frame at the start of a block. -/
def goto (fr : Frame) (b : BlockId) : Frame := { fr with block := b, next := 0 }

/-- The frame with a value in a local slot. -/
def write (fr : Frame) (l : LocalId) (v : Value) : Frame :=
  { fr with locals := fr.locals.setIfInBounds l v }

/-- The frame once the result of a call is kept, if there is a slot for it. -/
def deliver (fr : Frame) (dst : Option LocalId) (v : Value) : Frame :=
  match dst with
  | some l => fr.write l v
  | none => fr

/-- The value of an operand in a frame. -/
def value? (fr : Frame) : Operand → Option Value
  | .var l => fr.locals[l]?
  | .const c => some c.value

/-- The values of operands in a frame. -/
def Values (fr : Frame) : List Operand → List Value → Prop :=
  List.Forall₂ fun op v => fr.value? op = some v

/-- The value of an operand in a frame, null where there is no such slot. -/
def value (fr : Frame) (op : Operand) : Value := (fr.value? op).getD .null

/-- **The frame has every slot that an instruction reads.** -/
def Reads (fr : Frame) (i : Instruction) : Prop :=
  ∀ op ∈ i.operands, ∃ v, fr.value? op = some v

/-- An operand that has a value has it as its value. -/
theorem value_eq {fr : Frame} {op : Operand} {v : Value} (h : fr.value? op = some v) :
    fr.value op = v := by
  rw [value, h, Option.getD_some]

/-- Operands that all have values have them in turn. -/
theorem values_map {fr : Frame} {ops : List Operand}
    (h : ∀ op ∈ ops, ∃ v, fr.value? op = some v) : fr.Values ops (ops.map fr.value) := by
  refine List.forall₂_map_right_iff.mpr (List.forall₂_same.mpr fun op hop => ?_)
  obtain ⟨v, hv⟩ := h op hop
  rw [value_eq hv, hv]

@[simp] theorem value?_advance (fr : Frame) (op : Operand) : fr.advance.value? op = fr.value? op := by
  cases op <;> rfl

@[simp] theorem value_advance (fr : Frame) : fr.advance.value = fr.value := by
  funext op
  rw [value, value?_advance, value]

@[simp] theorem goto_advance (fr : Frame) (b : BlockId) : fr.advance.goto b = fr.goto b := rfl

/-- Going on to the next instruction changes no operand. -/
theorem Values.advance {fr : Frame} {ops : List Operand} {vs : List Value} (h : fr.Values ops vs) :
    fr.advance.Values ops vs :=
  h.imp fun op _ hv => (fr.value?_advance op).trans hv

@[simp] theorem size_write (fr : Frame) (l : LocalId) (v : Value) :
    (fr.write l v).locals.size = fr.locals.size := by
  simp [write]

end Frame

namespace Machine

open Exec

variable {s : Setting} {fr : Frame} {rest : List Frame} {globals : Array Value} {world : World}

/-! ## Reading and writing -/

/-- The frame on top is there to be looked at. -/
theorem apply_top :
    (top).apply (.ofFrames (fr :: rest) globals world) =
      (.ok fr, .ofFrames (fr :: rest) globals world) := rfl

/-- **An operand that has a value is read.** -/
theorem apply_operand {op : Operand} {v : Value} (h : fr.value? op = some v) :
    (operand op).apply (.ofFrames (fr :: rest) globals world) =
      (.ok v, .ofFrames (fr :: rest) globals world) := by
  cases op with
  | const c =>
    cases h
    rfl
  | var l =>
    have hl : fr.locals[l]? = some v := h
    rw [operand, readLocal, Transform.apply_bind_ok apply_top, hl]
    rfl

/-- Operands that have values are read in turn. -/
theorem apply_operands {ops : List Operand} {vs : List Value} (h : fr.Values ops vs) :
    (operands ops).apply (.ofFrames (fr :: rest) globals world) =
      (.ok vs, .ofFrames (fr :: rest) globals world) := by
  unfold operands
  induction h with
  | nil => rfl
  | cons hop _ ih =>
    rw [List.mapM_cons, Transform.apply_bind_ok (apply_operand hop), Transform.apply_bind_ok ih]
    rfl

/-- A slot that is there is written. -/
theorem apply_writeLocal {l : LocalId} {v : Value} (h : l < fr.locals.size) :
    (writeLocal l v).apply (.ofFrames (fr :: rest) globals world) =
      (.ok (), .ofFrames (fr.write l v :: rest) globals world) := by
  rw [writeLocal, Transform.apply_bind_ok apply_top, if_pos h]
  rfl

/-- A slot that is not there is a defect. -/
theorem apply_writeLocal_of_le {l : LocalId} {v : Value} (h : fr.locals.size ≤ l) :
    (writeLocal l v).apply (.ofFrames (fr :: rest) globals world) =
      (.error (.internal (.localOutOfRange l)), .ofFrames (fr :: rest) globals world) := by
  rw [writeLocal, Transform.apply_bind_ok apply_top, if_neg (Nat.not_lt.mpr h)]
  rfl

/-- A result is delivered to a slot that is there, or nowhere. -/
theorem apply_deliver {dst : Option LocalId} {v : Value} (h : ∀ l ∈ dst, l < fr.locals.size) :
    (deliver dst v).apply (.ofFrames (fr :: rest) globals world) =
      (.ok (), .ofFrames (fr.deliver dst v :: rest) globals world) := by
  cases dst with
  | none => rfl
  | some l => exact apply_writeLocal (h l rfl)

/-- A global that is there is read. -/
theorem apply_readGlobal {g : GlobalId} {v : Value} {frames : List Frame}
    (h : globals[g]? = some v) :
    (readGlobal g).apply (.ofFrames frames globals world) =
      (.ok v, .ofFrames frames globals world) := by
  have hg : (Memory.ofFrames frames globals world).globals[g]? = some v := h
  rw [readGlobal, Transform.apply_bind_ok (Transform.apply_get _), hg]
  rfl

/-- A global that is not there is a defect. -/
theorem apply_readGlobal_of_le {g : GlobalId} {frames : List Frame} (h : globals.size ≤ g) :
    (readGlobal g).apply (.ofFrames frames globals world) =
      (.error (.internal (.globalOutOfRange g)), .ofFrames frames globals world) := by
  have hg : (Memory.ofFrames frames globals world).globals[g]? = none :=
    Array.getElem?_eq_none h
  rw [readGlobal, Transform.apply_bind_ok (Transform.apply_get _), hg]
  rfl

/-- A global that is there is written. -/
theorem apply_writeGlobal {g : GlobalId} {v : Value} {frames : List Frame}
    (h : g < globals.size) :
    (writeGlobal g v).apply (.ofFrames frames globals world) =
      (.ok (), .ofFrames frames (globals.setIfInBounds g v) world) := by
  have hg : g < (Memory.ofFrames frames globals world).globals.size := h
  rw [writeGlobal, Transform.apply_bind_ok (Transform.apply_get _), if_pos hg]
  rfl

/-- A write to a global that is not there is a defect. -/
theorem apply_writeGlobal_of_le {g : GlobalId} {v : Value} {frames : List Frame}
    (h : globals.size ≤ g) :
    (writeGlobal g v).apply (.ofFrames frames globals world) =
      (.error (.internal (.globalOutOfRange g)), .ofFrames frames globals world) := by
  have hg : ¬ g < (Memory.ofFrames frames globals world).globals.size := Nat.not_lt.mpr h
  rw [writeGlobal, Transform.apply_bind_ok (Transform.apply_get _), if_neg hg]
  rfl

/-- An effect acts on the world, and leaves frames and globals. -/
theorem apply_effect {α : Type} (e : Effect α) (frames : List Frame) :
    (effect e).apply (.ofFrames frames globals world) =
      ((e.apply world).1, .ofFrames frames globals (e.apply world).2) := rfl

/-- An effect acts on the world of a memory alone. -/
theorem apply_effect_of_memory {α : Type} (e : Effect α) (m : Memory) :
    (effect e).apply m = ((e.apply m.world).1, { m with world := (e.apply m.world).2 }) := rfl

/-- Effects in sequence are one effect. -/
theorem effect_bind {α β : Type} (x : Effect α) (f : α → Effect β) :
    effect (x >>= f) = effect x >>= fun a => effect (f a) := by
  refine funext fun m => ?_
  show (effect (x >>= f)).apply m = (effect x >>= fun a => effect (f a)).apply m
  rw [Transform.apply_bind, apply_effect_of_memory, apply_effect_of_memory, Transform.apply_bind]
  rcases x.apply m.world with ⟨e | a, w⟩
  · rfl
  · rfl

/-- What comes after an effect starts with the same frames. -/
theorem apply_effect_bind_congr {α β : Type} {e : Effect α} {k k' : α → Exec β}
    {frames : List Frame} (h : ∀ a world', (k a).apply (.ofFrames frames globals world') =
      (k' a).apply (.ofFrames frames globals world')) :
    (effect e >>= k).apply (.ofFrames frames globals world) =
      (effect e >>= k').apply (.ofFrames frames globals world) := by
  rw [Transform.apply_bind, Transform.apply_bind, apply_effect]
  rcases e.apply world with ⟨err | a, world'⟩
  · rfl
  · exact h a world'

/-- An operand that must be an integer is read, and its value is checked. -/
theorem intOperand_eq (role : OperandRole) (op : Operand) :
    intOperand role op = operand op >>= fun v => effect (Operation.int role v) := by
  refine bind_congr fun v => ?_
  cases v <;> rfl

/-- An operand that must be an array is read, and its value is checked. -/
theorem arrayOperand_eq (role : OperandRole) (op : Operand) :
    arrayOperand role op = operand op >>= fun v => effect (Operation.array role v) := by
  refine bind_congr fun v => ?_
  cases v <;> rfl

/-- Reading an operand as an integer is the check of its value. -/
theorem apply_intOperand_bind {β : Type} {role : OperandRole} {op : Operand} {v : Value}
    (h : fr.value? op = some v) (k : Int64 → Exec β) :
    (intOperand role op >>= k).apply (.ofFrames (fr :: rest) globals world) =
      (effect (Operation.int role v) >>= k).apply (.ofFrames (fr :: rest) globals world) := by
  rw [intOperand_eq, bind_assoc, Transform.apply_bind_ok (apply_operand h)]

/-- Reading an operand as an array is the check of its value. -/
theorem apply_arrayOperand_bind {β : Type} {role : OperandRole} {op : Operand} {v : Value}
    (h : fr.value? op = some v) (k : Address → Exec β) :
    (arrayOperand role op >>= k).apply (.ofFrames (fr :: rest) globals world) =
      (effect (Operation.array role v) >>= k).apply (.ofFrames (fr :: rest) globals world) := by
  rw [arrayOperand_eq, bind_assoc, Transform.apply_bind_ok (apply_operand h)]

/-- **The end of an instruction that acts on the world**: what the effect comes
to, with the frame that its result makes of the present one. -/
def conclude {α : Type} (e : Effect α) (fr : Frame) (next : α → Frame) (rest : List Frame)
    (globals : Array Value) (world : World) : Except RuntimeError (Option Value) × Memory :=
  match e.apply world with
  | (.ok a, world') => (.ok none, .ofFrames (next a :: rest) globals world')
  | (.error err, world') => (.error err, .ofFrames (fr :: rest) globals world')

/-- An effect that succeeds goes on in the next frame. -/
theorem conclude_ok {α : Type} {e : Effect α} {next : α → Frame} {a : α} {world' : World}
    (h : e.apply world = (.ok a, world')) :
    conclude e fr next rest globals world =
      (.ok none, .ofFrames (next a :: rest) globals world') := by
  rw [conclude, h]

/-- An effect that fails leaves the frame. -/
theorem conclude_error {α : Type} {e : Effect α} {next : α → Frame} {err : RuntimeError}
    {world' : World} (h : e.apply world = (.error err, world')) :
    conclude e fr next rest globals world =
      (.error err, .ofFrames (fr :: rest) globals world') := by
  rw [conclude, h]

/-- An effect followed by what its result makes of the frame. -/
theorem apply_effect_bind {α : Type} {e : Effect α} {k : α → Exec (Option Value)}
    {next : α → Frame} (hk : ∀ a world', (k a).apply (.ofFrames (fr :: rest) globals world') =
      (.ok none, .ofFrames (next a :: rest) globals world')) :
    (effect e >>= k).apply (.ofFrames (fr :: rest) globals world) =
      conclude e fr next rest globals world := by
  rw [Transform.apply_bind, apply_effect]
  rcases hr : e.apply world with ⟨err | a, world'⟩
  · exact (conclude_error hr).symm
  · exact (hk a world').trans (conclude_ok hr).symm

/-- A result that is computed goes to its slot. -/
theorem apply_compute {dst : LocalId} (e : Effect Value) (h : dst < fr.locals.size) :
    (do writeLocal dst (← effect e); return none : Exec (Option Value)).apply
        (.ofFrames (fr :: rest) globals world) =
      conclude e fr (fr.write dst) rest globals world := by
  refine apply_effect_bind fun v world' => ?_
  rw [Transform.apply_bind_ok (apply_writeLocal h)]
  rfl

/-! ## Moves -/

/-- **What an instruction asks of the frames**: to keep a result and go on, to
continue at a block, to begin a call, or to return. -/
inductive Move where
  | deliver (dst : Option LocalId) (v : Value)
  | goto (target : BlockId)
  | call (dst : Option LocalId) (ref : FunctionRef) (args : List Value)
  | ret (v : Value)

/-- Make a move. -/
def perform (s : Setting) : Move → Exec (Option Value)
  | .deliver dst v => do
    deliver dst v
    return none
  | .goto target => do
    goto target
    return none
  | .call dst ref args => do
    enter s ref args (.caller dst)
    return none
  | .ret v => leave v

/-- **The move that an instruction comes to**, from the values of its operands,
the globals and the world. -/
def resolve (s : Setting) (val : Operand → Value) : Instruction → Exec Move
  | .copy dst src => return .deliver (some dst) (val src)
  | .newArray dst size => return .deliver (some dst) (← effect (Operation.newArray (val size)))
  | .loadArray dst array index =>
    return .deliver (some dst) (← effect (Operation.load (val array) (val index)))
  | .storeArray array index value => do
    effect (Operation.store (val array) (val index) (val value))
    return .deliver none .null
  | .loadGlobal dst g => return .deliver (some dst) (← readGlobal g)
  | .storeGlobal g src => do
    writeGlobal g (val src)
    return .deliver none .null
  | .call dst (.builtin name) args =>
    return .deliver dst (← effect (s.table.call name (args.map val)))
  | .call dst (.function ref) args => return .call dst ref (args.map val)
  | .binary dst op lhs rhs =>
    return .deliver (some dst) (← effect (s.table.call op.builtin [val lhs, val rhs]))
  | .jump target => return .goto target
  | .branch cond thenTarget elseTarget =>
    match val cond with
    | .int i => return .goto (if i = 0 then elseTarget else thenTarget)
    | v => throw (.conditionKind v.kind)
  | .ret value => return .ret (val value)

/-- Only the values of its operands are of matter to an instruction. -/
theorem resolve_congr {val val' : Operand → Value} {i : Instruction}
    (h : ∀ op ∈ i.operands, val' op = val op) : resolve s val' i = resolve s val i := by
  cases i with
  | copy dst src => rw [resolve, resolve, h src List.mem_cons_self]
  | newArray dst size => rw [resolve, resolve, h size List.mem_cons_self]
  | loadArray dst array index =>
    rw [resolve, resolve, h array List.mem_cons_self,
      h index (List.mem_cons_of_mem _ List.mem_cons_self)]
  | storeArray array index value =>
    rw [resolve, resolve, h array List.mem_cons_self,
      h index (List.mem_cons_of_mem _ List.mem_cons_self),
      h value (List.mem_cons_of_mem _ (List.mem_cons_of_mem _ List.mem_cons_self))]
  | loadGlobal dst g => rfl
  | storeGlobal g src => rw [resolve, resolve, h src List.mem_cons_self]
  | call dst callee args =>
    have hargs : args.map val' = args.map val := List.map_congr_left h
    cases callee with
    | builtin name => rw [resolve, resolve, hargs]
    | function ref => rw [resolve, resolve, hargs]
  | binary dst op lhs rhs =>
    rw [resolve, resolve, h lhs List.mem_cons_self,
      h rhs (List.mem_cons_of_mem _ List.mem_cons_self)]
  | jump target => rfl
  | branch cond thenTarget elseTarget => rw [resolve, resolve, h cond List.mem_cons_self]
  | ret value => rw [resolve, resolve, h value List.mem_cons_self]

/-- **An instruction whose operands can be read makes the move it comes to.** -/
theorem execute_eq_resolve {i : Instruction} (h : fr.Reads i) :
    (execute s i).apply (.ofFrames (fr :: rest) globals world) =
      (resolve s fr.value i >>= perform s).apply (.ofFrames (fr :: rest) globals world) := by
  cases i with
  | copy dst src =>
    obtain ⟨v, hv⟩ := h src List.mem_cons_self
    rw [execute, resolve, Transform.apply_bind_ok (apply_operand hv), fr.value_eq hv]
    rfl
  | newArray dst size =>
    obtain ⟨v, hv⟩ := h size List.mem_cons_self
    rw [execute, resolve, fr.value_eq hv, apply_intOperand_bind hv, Operation.newArray, effect_bind,
      bind_assoc, bind_assoc]
    refine apply_effect_bind_congr fun n world' => ?_
    rw [allocate]
    split
    · rfl
    · rfl
  | loadArray dst array index =>
    obtain ⟨a, ha⟩ := h array List.mem_cons_self
    obtain ⟨n, hn⟩ := h index (List.mem_cons_of_mem _ List.mem_cons_self)
    rw [execute, resolve, fr.value_eq ha, fr.value_eq hn, apply_arrayOperand_bind ha,
      Operation.load, effect_bind, bind_assoc, bind_assoc]
    -- the index is read after the check of the array, with the same frames
    refine apply_effect_bind_congr fun address world' => ?_
    rw [apply_intOperand_bind hn, effect_bind, bind_assoc]
    rfl
  | storeArray array index value =>
    obtain ⟨a, ha⟩ := h array List.mem_cons_self
    obtain ⟨n, hn⟩ := h index (List.mem_cons_of_mem _ List.mem_cons_self)
    obtain ⟨v, hv⟩ := h value
      (List.mem_cons_of_mem _ (List.mem_cons_of_mem _ List.mem_cons_self))
    rw [execute, resolve, fr.value_eq ha, fr.value_eq hn, fr.value_eq hv,
      apply_arrayOperand_bind ha, Operation.store, effect_bind, bind_assoc, bind_assoc]
    refine apply_effect_bind_congr fun address world' => ?_
    rw [apply_intOperand_bind hn, effect_bind, bind_assoc]
    refine apply_effect_bind_congr fun position world'' => ?_
    rw [Transform.apply_bind_ok (apply_operand hv)]
    rfl
  | loadGlobal dst g =>
    rw [execute, resolve, bind_assoc]
    rfl
  | storeGlobal g src =>
    obtain ⟨v, hv⟩ := h src List.mem_cons_self
    rw [execute, resolve, Transform.apply_bind_ok (apply_operand hv), fr.value_eq hv, bind_assoc]
    rfl
  | call dst callee args =>
    have hvs : fr.Values args (args.map fr.value) := fr.values_map h
    cases callee with
    | builtin name =>
      rw [execute, resolve, Transform.apply_bind_ok (apply_operands hvs), bind_assoc]
      rfl
    | function ref =>
      rw [execute, resolve, Transform.apply_bind_ok (apply_operands hvs)]
      rfl
  | binary dst op lhs rhs =>
    obtain ⟨a, ha⟩ := h lhs List.mem_cons_self
    obtain ⟨b, hb⟩ := h rhs (List.mem_cons_of_mem _ List.mem_cons_self)
    rw [execute, resolve, Transform.apply_bind_ok (apply_operand ha),
      Transform.apply_bind_ok (apply_operand hb), fr.value_eq ha, fr.value_eq hb, bind_assoc]
    rfl
  | jump target => rfl
  | branch cond thenTarget elseTarget =>
    obtain ⟨v, hv⟩ := h cond List.mem_cons_self
    rw [execute, resolve, Transform.apply_bind_ok (apply_operand hv), fr.value_eq hv]
    cases v <;> rfl
  | ret value =>
    obtain ⟨v, hv⟩ := h value List.mem_cons_self
    rw [execute, resolve, Transform.apply_bind_ok (apply_operand hv), fr.value_eq hv]
    rfl

/-! ## The instructions -/

/-- A copy writes the value of its operand. -/
theorem execute_copy {dst : LocalId} {src : Operand} {v : Value} (hv : fr.value? src = some v)
    (hd : dst < fr.locals.size) :
    (execute s (.copy dst src)).apply (.ofFrames (fr :: rest) globals world) =
      (.ok none, .ofFrames (fr.write dst v :: rest) globals world) := by
  unfold execute
  rw [Transform.apply_bind_ok (apply_operand hv), Transform.apply_bind_ok (apply_writeLocal hd)]
  rfl

/-- A new array is made by the operation, and written. -/
theorem execute_newArray {dst : LocalId} {size : Operand} {v : Value}
    (hv : fr.value? size = some v) (hd : dst < fr.locals.size) :
    (execute s (.newArray dst size)).apply (.ofFrames (fr :: rest) globals world) =
      conclude (Operation.newArray v) fr (fr.write dst) rest globals world := by
  have hreads : fr.Reads (.newArray dst size) := List.forall_mem_singleton.mpr ⟨v, hv⟩
  rw [execute_eq_resolve hreads, resolve, fr.value_eq hv, bind_assoc]
  exact apply_compute _ hd

/-- An element is loaded by the operation, and written. -/
theorem execute_loadArray {dst : LocalId} {array index : Operand} {a i : Value}
    (ha : fr.value? array = some a) (hi : fr.value? index = some i) (hd : dst < fr.locals.size) :
    (execute s (.loadArray dst array index)).apply (.ofFrames (fr :: rest) globals world) =
      conclude (Operation.load a i) fr (fr.write dst) rest globals world := by
  have hreads : fr.Reads (.loadArray dst array index) :=
    List.forall_mem_cons.mpr ⟨⟨a, ha⟩, List.forall_mem_singleton.mpr ⟨i, hi⟩⟩
  rw [execute_eq_resolve hreads, resolve, fr.value_eq ha, fr.value_eq hi, bind_assoc]
  exact apply_compute _ hd

/-- An element is stored by the operation. -/
theorem execute_storeArray {array index value : Operand} {a i v : Value}
    (ha : fr.value? array = some a) (hi : fr.value? index = some i)
    (hv : fr.value? value = some v) :
    (execute s (.storeArray array index value)).apply (.ofFrames (fr :: rest) globals world) =
      conclude (Operation.store a i v) fr (fun _ => fr) rest globals world := by
  have hreads : fr.Reads (.storeArray array index value) := List.forall_mem_cons.mpr
    ⟨⟨a, ha⟩, List.forall_mem_cons.mpr ⟨⟨i, hi⟩, List.forall_mem_singleton.mpr ⟨v, hv⟩⟩⟩
  rw [execute_eq_resolve hreads, resolve, fr.value_eq ha, fr.value_eq hi, fr.value_eq hv, bind_assoc]
  exact apply_effect_bind fun _ _ => rfl

/-- The value of a global is written to a slot. -/
theorem execute_loadGlobal {dst : LocalId} {g : GlobalId} {v : Value} (hv : globals[g]? = some v)
    (hd : dst < fr.locals.size) :
    (execute s (.loadGlobal dst g)).apply (.ofFrames (fr :: rest) globals world) =
      (.ok none, .ofFrames (fr.write dst v :: rest) globals world) := by
  unfold execute
  rw [Transform.apply_bind_ok (apply_readGlobal hv), Transform.apply_bind_ok (apply_writeLocal hd)]
  rfl

/-- The value of an operand is written to a global. -/
theorem execute_storeGlobal {g : GlobalId} {src : Operand} {v : Value}
    (hv : fr.value? src = some v) (hg : g < globals.size) :
    (execute s (.storeGlobal g src)).apply (.ofFrames (fr :: rest) globals world) =
      (.ok none, .ofFrames (fr :: rest) (globals.setIfInBounds g v) world) := by
  unfold execute
  rw [Transform.apply_bind_ok (apply_operand hv), Transform.apply_bind_ok (apply_writeGlobal hg)]
  rfl

/-- An operator is a call of its operation. -/
theorem execute_binary {dst : LocalId} {op : Operator} {lhs rhs : Operand} {a b : Value}
    (ha : fr.value? lhs = some a) (hb : fr.value? rhs = some b) (hd : dst < fr.locals.size) :
    (execute s (.binary dst op lhs rhs)).apply (.ofFrames (fr :: rest) globals world) =
      conclude (s.table.call op.builtin [a, b]) fr (fr.write dst) rest globals world := by
  rw [← apply_compute _ hd]
  unfold execute
  rw [Transform.apply_bind_ok (apply_operand ha), Transform.apply_bind_ok (apply_operand hb)]

/-- A call of an operation delivers what it returns. -/
theorem execute_builtin {dst : Option LocalId} {name : String} {args : List Operand}
    {vs : List Value} (hvs : fr.Values args vs) (hd : ∀ l ∈ dst, l < fr.locals.size) :
    (execute s (.call dst (.builtin name) args)).apply (.ofFrames (fr :: rest) globals world) =
      conclude (s.table.call name vs) fr (fr.deliver dst) rest globals world := by
  unfold execute
  rw [Transform.apply_bind_ok (apply_operands hvs)]
  refine apply_effect_bind fun v world' => ?_
  rw [Transform.apply_bind_ok (apply_deliver hd)]
  rfl

/-- **Beginning a call**: what it must pass, in order, and the frame it then
puts on the others. -/
theorem apply_enter (ref : FunctionRef) (args : List Value) (resume : Resume)
    (frames : List Frame) :
    (enter s ref args resume).apply (.ofFrames frames globals world) =
      match s.program.function? ref with
      | none => (.error (.unknownFunction (s.program.describe ref)),
          .ofFrames frames globals world)
      | some f =>
        if args.length ≠ f.arity then
          (.error (.arity (s.program.describe ref) f.arity args.length),
            .ofFrames frames globals world)
        else if s.limit ≤ frames.length then
          (.error (.stackOverflow s.limit), .ofFrames frames globals world)
        else (.ok (), .ofFrames (Frame.start ref f args resume :: frames) globals world) := by
  unfold enter
  cases s.program.function? ref with
  | none => rfl
  | some f =>
    simp only
    split
    · rfl
    · rw [Transform.apply_bind_ok (Transform.apply_get _)]
      change Transform.apply (if s.limit ≤ frames.length then _ else _) _ = _
      split <;> rfl

/-- **A call of a function begins with a frame for it.** -/
theorem execute_call {dst : Option LocalId} {ref : FunctionRef} {args : List Operand}
    {vs : List Value} (hvs : fr.Values args vs) :
    (execute s (.call dst (.function ref) args)).apply (.ofFrames (fr :: rest) globals world) =
      (do enter s ref vs (.caller dst); return none : Exec (Option Value)).apply
        (.ofFrames (fr :: rest) globals world) := by
  unfold execute
  rw [Transform.apply_bind_ok (apply_operands hvs)]

/-- A jump goes on at its target. -/
theorem execute_jump (target : BlockId) :
    (execute s (.jump target)).apply (.ofFrames (fr :: rest) globals world) =
      (.ok none, .ofFrames (fr.goto target :: rest) globals world) := rfl

/-- A branch goes on at one of its targets, by whether its condition is zero. -/
theorem execute_branch {cond : Operand} {thenTarget elseTarget : BlockId} {v : Value}
    (hv : fr.value? cond = some v) :
    (execute s (.branch cond thenTarget elseTarget)).apply (.ofFrames (fr :: rest) globals world) =
      match v with
      | .int i => (.ok none,
          .ofFrames (fr.goto (if i = 0 then elseTarget else thenTarget) :: rest) globals world)
      | v => (.error (.conditionKind v.kind), .ofFrames (fr :: rest) globals world) := by
  unfold execute
  rw [Transform.apply_bind_ok (apply_operand hv)]
  cases v <;> rfl

/-- A return leaves the frame with the value of its operand. -/
theorem execute_ret {value : Operand} {v : Value} (hv : fr.value? value = some v) :
    (execute s (.ret value)).apply (.ofFrames (fr :: rest) globals world) =
      (leave v).apply (.ofFrames (fr :: rest) globals world) := by
  unfold execute
  rw [Transform.apply_bind_ok (apply_operand hv)]

/-- The call that a run is of returns its result. -/
theorem apply_leave_halt {v : Value} (h : fr.resume = .halt) :
    (leave v).apply (.ofFrames (fr :: rest) globals world) =
      (.ok (some v), .ofFrames rest globals world) := by
  rw [leave, Transform.apply_bind_ok apply_top, h]
  rfl

/-- Any other call hands its result to its caller. -/
theorem apply_leave_caller {v : Value} {dst : Option LocalId} (h : fr.resume = .caller dst) :
    (leave v).apply (.ofFrames (fr :: rest) globals world) =
      (do deliver dst v; return none : Exec (Option Value)).apply (.ofFrames rest globals world) := by
  rw [leave, Transform.apply_bind_ok apply_top, h]
  rfl

/-- A caller with a slot for the result has it there. -/
theorem apply_leave_deliver {caller : Frame} {v : Value} {dst : Option LocalId}
    (h : fr.resume = .caller dst) (hd : ∀ l ∈ dst, l < caller.locals.size) :
    (leave v).apply (.ofFrames (fr :: caller :: rest) globals world) =
      (.ok none, .ofFrames (caller.deliver dst v :: rest) globals world) := by
  rw [apply_leave_caller h, Transform.apply_bind_ok (apply_deliver hd)]
  rfl

/-! ## The step -/

/-- The next instruction of a frame is the one that its function has there. -/
theorem fetch_eq_ok {p : Program} {f : Function} {i : Instruction}
    (hf : p.function? fr.function = some f) (hi : f.instrAt? fr.block fr.next = some i) :
    fetch p fr = .ok i := by
  obtain ⟨block, id, slot, hb, hid, hslot, rfl⟩ := Function.instrAt?_eq_some.mp hi
  simp [fetch, hf, hb, hid, hslot]

/-- What is fetched stands where the frame is. -/
theorem instrAt?_of_fetch {p : Program} {f : Function} {i : Instruction}
    (hf : p.function? fr.function = some f) (hi : fetch p fr = .ok i) :
    f.instrAt? fr.block fr.next = some i := by
  simp only [fetch, hf] at hi
  refine Function.instrAt?_eq_some.mpr ?_
  split at hi
  · cases hi
  · rename_i block hb
    split at hi
    · cases hi
    · rename_i id hid
      split at hi
      · cases hi
      · rename_i slot hslot
        exact ⟨block, id, slot, hb, hid, hslot, Except.ok.inj hi⟩

/-- **A step carries out the next instruction**, in the frame past it. -/
theorem apply_step {i : Instruction} (hi : fetch s.program fr = .ok i) :
    (step s).apply (.ofFrames (fr :: rest) globals world) =
      (execute s i).apply (.ofFrames (fr.advance :: rest) globals world) := by
  rw [step, Transform.apply_bind_ok apply_top, hi]
  rfl

/-- Where there is no next instruction, a step does nothing. -/
theorem apply_step_stuck {e : RuntimeError} (he : fetch s.program fr = .error e) :
    (step s).apply (.ofFrames (fr :: rest) globals world) =
      (.error e, .ofFrames (fr :: rest) globals world) := by
  rw [step, Transform.apply_bind_ok apply_top, he]
  rfl

end Machine

end BlockIR
