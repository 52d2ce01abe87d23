import BlockIR.Function.Check
import BlockIR.Function.Cursor
/-!
# Code that is not told apart

A blur writes some instructions in another way, and their locations too; code
that it makes the same it does not tell apart. What a blur does to a function
leaves its blocks and edges, its local slots and the numbers of its instructions
alone, so a function passes the check exactly when the blurred one does
(`Blur.check_function`). Emitting an instruction and blurring the result is
blurring first and emitting the blurred instruction: the emission is carried over
(`Transform.Carries`).
-/

namespace BlockIR

namespace Transform

variable {σ ε α β : Type} {onState : σ → σ} {onError : ε → ε} {x x' : Transform σ ε α}

/-- **A transformer is carried to another** by a change of states and of errors:
it is the same to change what the one comes to and to run the other on what is
changed before. -/
def Carries (onState : σ → σ) (onError : ε → ε) (x x' : Transform σ ε α) : Prop :=
  ∀ s, x'.apply (onState s) = ((x.apply s).1.mapError onError, onState (x.apply s).2)

/-- Sequences carry over when both parts do. -/
theorem Carries.bind {k k' : α → Transform σ ε β} (hx : Carries onState onError x x')
    (hk : ∀ a, Carries onState onError (k a) (k' a)) :
    Carries onState onError (x >>= k) (x' >>= k') := by
  intro s
  rw [apply_bind, apply_bind, hx s]
  rcases x.apply s with ⟨e | a, s'⟩
  · rfl
  · exact hk a s'

/-- A value carries over. -/
theorem carries_pure (a : α) : Carries onState onError (pure a) (pure a) := fun _ => rfl

/-- A failure carries over to the blurred failure. -/
theorem carries_throw {e e' : ε} (h : e' = onError e) :
    Carries onState onError (throw e : Transform σ ε α) (throw e') := by
  intro s
  rw [apply_throw, apply_throw, h]
  rfl

/-- A change carries over when it commutes with the blur. -/
theorem carries_modify {g g' : σ → σ} (h : ∀ s, g' (onState s) = onState (g s)) :
    Carries onState onError (modify g : Transform σ ε PUnit) (modify g') := by
  intro s
  rw [apply_modify, apply_modify, h]
  rfl

/-- A question carries over when its answer does not depend on what the blur hides. -/
theorem carries_query {q q' : σ → Except ε α} (h : ∀ s, q' (onState s) = (q s).mapError onError) :
    Carries onState onError (query q) (query q') := by
  intro s
  rw [apply_query, apply_query, h]

/-- An action that cannot fail carries over when it commutes with the blur. -/
theorem carries_lift {y y' : StateM σ α}
    (h : ∀ s, y'.run (onState s) = ((y.run s).1, onState (y.run s).2)) :
    Carries onState onError (liftM y : Transform σ ε α) (liftM y') := by
  intro s
  rw [apply_lift, apply_lift, h]
  rfl

end Transform

/-- **A blur of code**: what becomes of a binary instruction and of a location.
Other instructions stay. A blurred instruction touches the same local slots and
is no terminator, and blurring twice is blurring once. -/
structure Blur where
  operator : LocalId → Operator → Operand → Operand → Instruction
  location : Location → Location
  isTerminator_operator : ∀ dst op lhs rhs, (operator dst op lhs rhs).isTerminator = false
  locals_operator : ∀ dst op lhs rhs,
    (operator dst op lhs rhs).locals = (Instruction.binary dst op lhs rhs).locals
  operator_stays : ∀ dst op lhs rhs dst' op' lhs' rhs',
    operator dst op lhs rhs = .binary dst' op' lhs' rhs' →
      operator dst' op' lhs' rhs' = operator dst op lhs rhs
  location_location : ∀ l, location (location l) = location l
  location_unknown : location .unknown = .unknown

namespace Blur

open Transform

variable (β : Blur) {f : Function} {b : BlockId} {i : Instruction}

/-- An instruction under a blur. -/
def instr : Instruction → Instruction
  | .binary dst op lhs rhs => β.operator dst op lhs rhs
  | .copy dst src => .copy dst src
  | .newArray dst size => .newArray dst size
  | .loadArray dst array index => .loadArray dst array index
  | .storeArray array index value => .storeArray array index value
  | .loadGlobal dst g => .loadGlobal dst g
  | .storeGlobal g src => .storeGlobal g src
  | .call dst callee args => .call dst callee args
  | .jump target => .jump target
  | .branch cond thenTarget elseTarget => .branch cond thenTarget elseTarget
  | .ret value => .ret value

/-- A blurred instruction is a terminator when the instruction is. -/
theorem isTerminator_instr (i : Instruction) : (β.instr i).isTerminator = i.isTerminator := by
  cases i with
  | binary dst op lhs rhs => exact β.isTerminator_operator dst op lhs rhs
  | _ => rfl

/-- A blurred instruction touches the same slots. -/
theorem locals_instr (i : Instruction) : (β.instr i).locals = i.locals := by
  cases i with
  | binary dst op lhs rhs => exact β.locals_operator dst op lhs rhs
  | _ => rfl

/-- Terminators stay. -/
theorem instr_of_isTerminator (h : i.isTerminator = true) : β.instr i = i := by
  cases i with
  | binary dst op lhs rhs => cases h
  | _ => rfl

/-- Blurring an instruction twice is blurring it once. -/
theorem instr_instr (i : Instruction) : β.instr (β.instr i) = β.instr i := by
  cases i with
  | binary dst op lhs rhs =>
    rw [instr]
    cases h : β.operator dst op lhs rhs with
    | binary dst' op' lhs' rhs' =>
      rw [instr, β.operator_stays _ _ _ _ _ _ _ _ h, h]
    | _ => rfl
  | _ => rfl

/-- A place in the arena under a blur. -/
def slot (s : Slot) : Slot :=
  { s with instr := β.instr s.instr, location := β.location s.location }

/-- Blurring a slot twice is blurring it once. -/
theorem slot_slot (s : Slot) : β.slot (β.slot s) = β.slot s := by
  simp only [slot, instr_instr, β.location_location]

/-- **A function under a blur.** -/
def function (f : Function) : Function :=
  { f with slots := f.slots.map β.slot }

/-- Blurring a function twice is blurring it once. -/
theorem function_function (f : Function) : β.function (β.function f) = β.function f := by
  simp only [function, Array.map_map, Function.comp_def, slot_slot]

/-- There is nothing to blur in an empty function. -/
theorem function_empty (name : String) (params : List String) :
    β.function (.empty name params) = .empty name params := by
  rw [function, Function.empty, Array.map_empty]

/-! ## The check -/

/-- The slots of a blurred function are the blurred slots. -/
theorem slots_function (id : InstrId) : (β.function f).slots[id]? = (f.slots[id]?).map β.slot :=
  Array.getElem?_map ..

/-- A lookup in the arena gives the blurred slot, or the same error. -/
theorem slot_function (id : InstrId) : (β.function f).slot id = (f.slot id).map β.slot := by
  rw [Function.slot, Function.slot, slots_function]
  cases f.slots[id]? with
  | none => rfl
  | some s => rfl

/-- **The blur leaves terminators alone**, and with them the control flow. -/
theorem terminator?_function (b : BlockId) : (β.function f).terminator? b = f.terminator? b := by
  have hblocks : (β.function f).blocks = f.blocks := rfl
  unfold Function.terminator?
  rw [hblocks]
  refine bind_congr fun block => bind_congr fun last => ?_
  rw [slots_function]
  cases f.slots[last]? with
  | none => rfl
  | some s =>
    have hsame : (β.slot s).instr.isTerminator = s.instr.isTerminator :=
      β.isTerminator_instr s.instr
    show (if (β.slot s).instr.isTerminator then some (β.slot s).instr else none) =
      if s.instr.isTerminator then some s.instr else none
    rw [hsame]
    split
    · rename_i hterm
      exact congrArg some (β.instr_of_isTerminator hterm)
    · rfl

/-- The check of an instruction does not see the blur. -/
theorem checkInstr_function (b : BlockId) (isLast : Bool) (id : InstrId) :
    (β.function f).checkInstr b isLast id = f.checkInstr b isLast id := by
  unfold Function.checkInstr
  rw [slot_function]
  cases f.slot id with
  | error e => rfl
  | ok s =>
    have hterminator : (β.slot s).instr.isTerminator = s.instr.isTerminator :=
      β.isTerminator_instr s.instr
    have hlocals : (β.slot s).instr.locals = s.instr.locals := β.locals_instr s.instr
    have howner : (β.slot s).owner = s.owner := rfl
    simp only [Except.map, bind, Except.bind, hterminator, hlocals, howner]
    rfl

/-- The check of the instructions of a block does not see the blur. -/
theorem checkInstrs_function (b : BlockId) (ids : List InstrId) :
    (β.function f).checkInstrs b ids = f.checkInstrs b ids := by
  induction ids with
  | nil => rfl
  | cons id rest ih => rw [Function.checkInstrs, Function.checkInstrs, ih, checkInstr_function]

/-- **A blurred function passes the check when the function does**, and fails it for
the same reason. -/
theorem check_function (f : Function) : (β.function f).check = f.check := by
  have hblock : (β.function f).checkBlock = f.checkBlock := by
    funext block
    unfold Function.checkBlock
    rw [checkInstrs_function, terminator?_function]
    rfl
  rw [Function.check, Function.check, hblock]
  rfl

/-! ## Edits -/

/-- What is wrong with a block, under a blur. -/
def flaw : BlockFlaw → BlockFlaw
  | .closed i => .closed (β.instr i)
  | other => other

/-- **An error under a blur**: it shows the instruction that could not be emitted. -/
def error : StructureError → StructureError
  | .malformed name b x => .malformed name b (β.flaw x)
  | other => other

/-- **An edit is carried over by a blur.** -/
abbrev Edits {α : Type} (e e' : Edit α) : Prop :=
  Carries β.function β.error e e'

/-- A lookup of a block carries over. -/
theorem edits_block (b : BlockId) : β.Edits (query (·.block b)) (query (·.block b)) := by
  refine carries_query fun f => ?_
  show f.block b = _
  unfold Function.block
  cases f.blocks[b]? with
  | none => rfl
  | some block => rfl

/-- A lookup of edges carries over. -/
theorem edits_successors (b : BlockId) :
    β.Edits (query (·.successors b)) (query (·.successors b)) := by
  refine carries_query fun f => ?_
  show f.successors b = _
  unfold Function.successors Function.block
  cases f.blocks[b]? with
  | none => rfl
  | some block => rfl

/-- Counting the instructions of a block carries over. -/
theorem edits_count (b : BlockId) : β.Edits (query (·.count b)) (query (·.count b)) := by
  refine carries_query fun f => ?_
  show f.count b = _
  unfold Function.count Function.block
  cases f.blocks[b]? with
  | none => rfl
  | some block => rfl

/-- A question for the owner of an instruction carries over. -/
theorem edits_owner (id : InstrId) : β.Edits (query (·.owner id)) (query (·.owner id)) := by
  refine carries_query fun f => ?_
  rw [Function.owner, Function.owner, slot_function]
  unfold Function.slot
  cases f.slots[id]? with
  | none => rfl
  | some s => rfl

/-- A change of a block carries over. -/
theorem edits_modifyBlock (b : BlockId) (g : Block → Block) :
    β.Edits (modify (·.modifyBlock b g)) (modify (·.modifyBlock b g)) :=
  carries_modify fun _ => rfl

/-- A change of a block that has to be there carries over. -/
theorem edits_updateBlock (b : BlockId) (g : Block → Block) :
    β.Edits (Function.updateBlock b g) (Function.updateBlock b g) :=
  (β.edits_block b).bind fun _ => β.edits_modifyBlock b g

/-- A change of one place that is the same before and after a map. -/
theorem map_modify {α β : Type} (g : α → β) (change : α → α) (change' : β → β)
    (h : ∀ x, g (change x) = change' (g x)) (xs : Array α) (k : Nat) :
    (xs.modify k change).map g = (xs.map g).modify k change' := by
  refine Array.ext_getElem? fun j => ?_
  rw [Array.getElem?_map, Array.getElem?_modify, Array.getElem?_modify, Array.getElem?_map]
  split
  · rw [Option.map_map, Option.map_map]
    exact congrArg (Option.map · xs[j]?) (funext h)
  · rfl

/-- Giving an instruction another owner carries over. -/
theorem edits_own (id : InstrId) (owner : Option BlockId) :
    β.Edits (Function.updateSlot id fun s => { s with owner := owner })
      (Function.updateSlot id fun s => { s with owner := owner }) := by
  intro f
  have hslots := map_modify β.slot (fun s => { s with owner := owner })
    (fun s => { s with owner := owner }) (fun _ => rfl) f.slots id
  rw [Function.updateSlot, apply_bind, apply_bind, apply_query, apply_query, slot_function,
    Function.slot]
  cases f.slots[id]? with
  | none => rfl
  | some s =>
    exact congrArg (fun slots => (Except.ok (), { f with slots := slots })) hslots.symm

/-- Attaching an instruction at the end of a block carries over. -/
theorem edits_attachLast (b : BlockId) (id : InstrId) :
    β.Edits (Function.attachLast b id) (Function.attachLast b id) := by
  refine (β.edits_count b).bind fun length => (β.edits_owner id).bind fun owner => ?_
  cases owner with
  | some owner => exact carries_throw rfl
  | none =>
    refine (β.edits_count b).bind fun length' => ?_
    split
    · exact (carries_throw rfl).bind fun _ => (β.edits_modifyBlock b _).bind fun _ =>
        (β.edits_own id _).bind fun _ => carries_pure id
    · exact (β.edits_modifyBlock b _).bind fun _ =>
        (β.edits_own id _).bind fun _ => carries_pure id

/-- Adding an edge carries over. -/
theorem edits_connect (src dst : BlockId) :
    β.Edits (Function.connect src dst) (Function.connect src dst) := by
  refine (β.edits_block dst).bind fun _ => (β.edits_successors src).bind fun succs => ?_
  split
  · exact carries_pure false
  · exact (β.edits_updateBlock src _).bind fun _ => (β.edits_updateBlock dst _).bind fun _ =>
      carries_pure true

/-! ## Emissions -/

/-- A cursor under a blur. -/
def cursor (c : Cursor) : Cursor :=
  ⟨β.function c.function, c.block, β.location c.location⟩

/-- The blur does not open or close the block at the cursor. -/
theorem isClosed_cursor (c : Cursor) : (β.cursor c).isClosed = c.isClosed :=
  congrArg Option.isSome (β.terminator?_function c.block)

/-- **An emission is carried over by a blur.** -/
abbrev Emits {α : Type} (e e' : Emit α) : Prop :=
  Carries β.cursor β.error e e'

variable {β} in
/-- An edit that carries over does so at a cursor. -/
theorem Edits.edit {α : Type} {e e' : Edit α} (h : β.Edits e e') :
    β.Emits (Emit.edit e) (Emit.edit e') := by
  intro c
  have happly : ∀ (e : Edit α) (c : Cursor), (Emit.edit e).apply c =
      ((e.apply c.function).1, ⟨(e.apply c.function).2, c.block, c.location⟩) := fun _ _ => rfl
  rw [happly, happly, show (β.cursor c).function = β.function c.function from rfl, h c.function]
  rfl

/-- A new instruction carries over to the blurred one, under the same id. -/
theorem createInstr_cursor (i : Instruction) (c : Cursor) :
    (Emit.createInstr (β.instr i)).run (β.cursor c) =
      (((Emit.createInstr i).run c).1, β.cursor ((Emit.createInstr i).run c).2) := by
  have hrun : ∀ (i : Instruction) (c : Cursor), (Emit.createInstr i).run c =
      (c.function.slots.size, ⟨{ c.function with
        slots := c.function.slots.push { instr := i, location := c.location } },
        c.block, c.location⟩) := fun _ _ => rfl
  rw [hrun, hrun]
  simp only [cursor, function, Array.map_push, Array.size_map]
  rfl

/-- **What is emitted is the blurred instruction.** -/
theorem emits_append (i : Instruction) : β.Emits (Emit.append i) (Emit.append (β.instr i)) := by
  intro c
  have hrest : β.Emits
      (do let id ← Emit.createInstr i; Emit.edit (Function.attachLast c.block id))
      (do let id ← Emit.createInstr (β.instr i); Emit.edit (Function.attachLast c.block id)) :=
    (carries_lift (β.createInstr_cursor i)).bind fun id => (β.edits_attachLast c.block id).edit
  unfold Emit.append
  rw [apply_bind_ok (apply_get _), apply_bind_ok (apply_get _), isClosed_cursor]
  split
  · rfl
  · exact hrest c

/-- Appending with a new slot carries over when the instruction does for every slot. -/
theorem emits_appendTo {instr instr' : LocalId → Instruction}
    (h : ∀ dst, instr' dst = β.instr (instr dst)) :
    β.Emits (Emit.appendTo instr) (Emit.appendTo instr') := by
  refine (carries_lift fun _ => rfl).bind fun dst => ?_
  rw [h]
  exact (β.emits_append (instr dst)).bind fun _ => carries_pure dst

/-- An instruction that stays is emitted in both. -/
theorem emits_of_stays (h : β.instr i = i) :
    β.Emits (do let _ ← Emit.append i) (do let _ ← Emit.append i) := by
  have happend := β.emits_append i
  rw [h] at happend
  exact happend.bind fun _ => carries_pure ()

/-- Requiring a block carries over. -/
theorem emits_requireBlock (b : BlockId) : β.Emits (Emit.requireBlock b) (Emit.requireBlock b) :=
  (β.edits_block b).edit.bind fun _ => carries_pure ()

/-- Adding an edge from the current block carries over. -/
theorem emits_connectTo (target : BlockId) :
    β.Emits (Emit.connectTo target) (Emit.connectTo target) := by
  intro c
  unfold Emit.connectTo
  rw [apply_bind_ok (apply_get _), apply_bind_ok (apply_get _)]
  exact ((β.edits_connect c.block target).edit.bind fun _ => carries_pure ()) c

/-- Emitting a jump carries over. -/
theorem emits_jump (target : BlockId) : β.Emits (Emit.jump target) (Emit.jump target) :=
  (β.emits_requireBlock target).bind fun _ => (β.emits_append (.jump target)).bind fun _ =>
    β.emits_connectTo target

/-- Emitting a branch carries over. -/
theorem emits_branch (cond : Operand) (thenTarget elseTarget : BlockId) :
    β.Emits (Emit.branch cond thenTarget elseTarget) (Emit.branch cond thenTarget elseTarget) :=
  (β.emits_requireBlock thenTarget).bind fun _ => (β.emits_requireBlock elseTarget).bind fun _ =>
    (β.emits_append (.branch cond thenTarget elseTarget)).bind fun _ =>
      (β.emits_connectTo thenTarget).bind fun _ => β.emits_connectTo elseTarget

end Blur

end BlockIR
