import BlockIR.Function.Cursor
import BlockIR.Proofs.Function.Edit
/-!
# What a cursor adds

At an open block, every emission succeeds and is one of the ways in which code
grows: an instruction is appended, perhaps to a new local slot, or the block is
closed. `Cursor.Extends` is what a sequence of such steps keeps: the code that
was there, and all code of blocks other than the one where the cursor stood.
-/

namespace BlockIR

namespace Cursor

/-- The cursor once an instruction is appended. -/
def append (c : Cursor) (i : Instruction) : Cursor :=
  { c with function := c.function.push c.block i c.location }

/-- The cursor with one more local slot. -/
def widen (c : Cursor) : Cursor :=
  { c with function := c.function.widen }

/-- The cursor once an instruction that writes a new local slot is appended. -/
def assign (c : Cursor) (i : LocalId → Instruction) : Cursor :=
  c.widen.append (i c.function.numLocals)

/-- The cursor once its block is closed by a terminator. -/
def close (c : Cursor) (i : Instruction) : Cursor :=
  { c with function := c.function.close c.block i c.location }

/-- The cursor with a new block, where it stood. -/
def extend (c : Cursor) (name : String) : Cursor :=
  { c with function := c.function.extend (some name) }

/-- The cursor at another block. -/
def moveTo (c : Cursor) (b : BlockId) : Cursor :=
  { c with block := b }

/-- The cursor with another location. -/
def locate (c : Cursor) (location : Location) : Cursor :=
  { c with location := location }

/-- Appending an instruction adds no block. -/
@[simp] theorem size_append (c : Cursor) (i : Instruction) :
    (c.append i).function.blocks.size = c.function.blocks.size :=
  Function.size_push ..

/-- The cursor stays at the block that it appends to. -/
@[simp] theorem block_append (c : Cursor) (i : Instruction) : (c.append i).block = c.block := rfl

@[simp] theorem block_moveTo (c : Cursor) (b : BlockId) : (c.moveTo b).block = b := rfl

@[simp] theorem function_moveTo (c : Cursor) (b : BlockId) : (c.moveTo b).function = c.function := rfl

/-- A new block is one more. -/
@[simp] theorem size_extend (c : Cursor) (name : String) :
    (c.extend name).function.blocks.size = c.function.blocks.size + 1 :=
  Function.size_extend ..

end Cursor

namespace Function

variable {f : Function} {b : BlockId} {i : Instruction} {location : Location}

/-- A change at the old size of an array meets the element just pushed. -/
theorem modify_push_size {α : Type} (xs : Array α) (x : α) (g : α → α) :
    (xs.push x).modify xs.size g = xs.push (g x) := by
  apply Array.ext_getElem?
  intro k
  rw [Array.getElem?_modify, Array.getElem?_push, Array.getElem?_push]
  by_cases hk : k = xs.size
  · simp [hk]
  · simp [hk, Ne.symm hk]

/-- A new instruction is appended to the end of its block. -/
theorem apply_attachLast_new (hb : b < f.blocks.size) :
    (attachLast b f.slots.size).apply
        { f with slots := f.slots.push { instr := i, location := location } } =
      (.ok f.slots.size, f.push b i location) := by
  obtain ⟨block, hblock⟩ := exists_block hb
  have hcount : Function.count { f with slots := f.slots.push { instr := i, location := location } }
      b = .ok block.instrs.length :=
    count_eq_ok.mpr ⟨hb, congrArg List.length (idsOf_of_block hblock)⟩
  have howner : Function.owner { f with slots := f.slots.push { instr := i, location := location } }
      f.slots.size = .ok none := by
    refine owner_eq_ok.mpr ⟨by simp, (ownerOf_create f i location _).trans ?_⟩
    simp [ownerOf]
  have hmod : f.blocks.modify b (fun block' =>
      { block' with instrs := block'.instrs.insertIdx block.instrs.length f.slots.size }) =
      f.blocks.modify b fun block => { block with instrs := block.instrs ++ [f.slots.size] } := by
    apply Array.ext_getElem?
    intro k
    rw [Array.getElem?_modify, Array.getElem?_modify]
    split
    · rename_i hk
      subst hk
      simp [hblock, List.insertIdx_length_self]
    · rfl
  rw [attachLast, apply_query_bind, hcount]
  simp only
  rw [apply_attachAt, howner, hcount]
  simp only [Nat.lt_irrefl, if_false, placed, push, modifyBlock, modifySlot, hmod,
    modify_push_size]

end Function

namespace Emit

/-- An edit that succeeds changes the function under the cursor, and only that. -/
theorem apply_edit {α : Type} {e : Edit α} {c : Cursor} {f' : Function} {a : α}
    (h : e.apply c.function = (.ok a, f')) :
    (edit e).apply c = (.ok a, { c with function := f' }) := by
  have hedit : (edit e).apply c =
      ((e.apply c.function).1, { c with function := (e.apply c.function).2 }) := rfl
  rw [hedit, h]

/-- An edit that fails leaves the function under the cursor as the edit left it. -/
theorem apply_edit_error {α : Type} {e : Edit α} {c : Cursor} {f' : Function} {err : StructureError}
    (h : e.apply c.function = (.error err, f')) :
    (edit e).apply c = (.error err, { c with function := f' }) := by
  have hedit : (edit e).apply c =
      ((e.apply c.function).1, { c with function := (e.apply c.function).2 }) := rfl
  rw [hedit, h]

/-- **Appending succeeds in an open block**, and gives the id of the new
instruction. -/
theorem apply_append {c : Cursor} (hopen : c.function.IsOpen c.block) (instr : Instruction) :
    (append instr).apply c =
      (.ok c.function.slots.size, c.append instr) := by
  have hclosed : c.isClosed = false := by simp [Cursor.isClosed, hopen.terminator?]
  unfold append
  rw [Transform.apply_bind_ok (Transform.apply_get _)]
  simp only [hclosed, Bool.false_eq_true, if_false]
  rw [Transform.apply_bind_ok (Transform.apply_lift _ _)]
  exact apply_edit (Function.apply_attachLast_new hopen.lt_size)

/-- Appending with a new slot succeeds in an open block, and gives the slot. -/
theorem apply_appendTo {c : Cursor} (hopen : c.function.IsOpen c.block)
    (instr : LocalId → Instruction) :
    (appendTo instr).apply c = (.ok c.function.numLocals, c.assign instr) := by
  unfold appendTo
  rw [Transform.apply_bind_ok (Transform.apply_lift _ _)]
  have hwide : c.widen.function.IsOpen c.widen.block := hopen.widen
  exact Transform.apply_bind_ok (apply_append hwide (instr c.function.numLocals))

/-- An edge between two blocks that are there can be added. -/
theorem apply_connectTo {c : Cursor} {target : BlockId} (hb : c.block < c.function.blocks.size)
    (ht : target < c.function.blocks.size) :
    (connectTo target).apply c = (.ok (), { c with function := c.function.join c.block target }) := by
  have hconnect : ∃ new, (Function.connect c.block target).apply c.function =
      (.ok new, c.function.join c.block target) := by
    obtain ⟨dst, hdst⟩ := Function.exists_block ht
    have hsuccs : c.function.successors c.block = .ok (c.function.succsOf c.block) :=
      Function.successors_eq_ok.mpr ⟨hb, rfl⟩
    rw [Function.apply_connect, Function.block_eq_ok.mpr hdst, hsuccs]
    by_cases hmem : target ∈ c.function.succsOf c.block
    · simp only [Function.join, hmem, if_true]
      exact ⟨false, rfl⟩
    · simp only [Function.join, hmem, if_false]
      exact ⟨true, rfl⟩
  obtain ⟨new, hnew⟩ := hconnect
  unfold connectTo
  rw [Transform.apply_bind_ok (Transform.apply_get _), Transform.apply_bind_ok (apply_edit hnew)]
  rfl

/-- A block that is there passes when it is required. -/
theorem apply_requireBlock {c : Cursor} {b : BlockId} (hb : b < c.function.blocks.size) :
    (requireBlock b).apply c = (.ok (), c) := by
  obtain ⟨block, hblock⟩ := Function.exists_block hb
  have hquery : (Transform.query (·.block b) : Edit Block).apply c.function =
      (.ok block, c.function) := by
    rw [Transform.apply_query, Function.block_eq_ok.mpr hblock]
  unfold requireBlock
  rw [Transform.apply_bind_ok (apply_edit hquery)]
  rfl

/-- An open block can be closed by a jump to a block that is there. -/
theorem apply_jump {c : Cursor} (hopen : c.function.IsOpen c.block) {target : BlockId}
    (ht : target < c.function.blocks.size) :
    (jump target).apply c =
      (.ok (), c.close (.jump target)) := by
  unfold jump
  rw [Transform.apply_bind_ok (apply_requireBlock ht), Transform.apply_bind_ok (apply_append hopen _)]
  exact apply_connectTo (by simpa using hopen.lt_size) (by simpa using ht)

/-- An open block can be closed by a branch to two blocks that are there. -/
theorem apply_branch {c : Cursor} (hopen : c.function.IsOpen c.block) (cond : Operand)
    {thenTarget elseTarget : BlockId} (ht : thenTarget < c.function.blocks.size)
    (he : elseTarget < c.function.blocks.size) :
    (branch cond thenTarget elseTarget).apply c =
      (.ok (), c.close (.branch cond thenTarget elseTarget)) := by
  have hb : c.block < (c.append (.branch cond thenTarget elseTarget)).function.blocks.size := by
    simpa using hopen.lt_size
  unfold branch
  rw [Transform.apply_bind_ok (apply_requireBlock ht), Transform.apply_bind_ok (apply_requireBlock he),
    Transform.apply_bind_ok (apply_append hopen _)]
  rw [Transform.apply_bind_ok (apply_connectTo hb (by simpa using ht))]
  rw [apply_connectTo (by simpa using hopen.lt_size) (by simpa using he)]
  by_cases hne : thenTarget = elseTarget
  · -- the one edge is there when it is asked for again
    subst hne
    simp only [Cursor.block_append]
    rw [Function.join_of_mem ((Function.mem_succsOf_join hb _ _).mpr (.inr ⟨rfl, rfl⟩))]
    simp [Cursor.append, Cursor.close, Function.close, Function.joinAll, Instruction.targets]
  · simp [Cursor.append, Cursor.close, Function.close, Function.joinAll, Instruction.targets, hne]

/-- An open block can be closed by a return. -/
theorem apply_ret {c : Cursor} (hopen : c.function.IsOpen c.block) (value : Operand) :
    (ret value).apply c =
      (.ok (), c.close (.ret value)) := by
  unfold ret
  rw [Transform.apply_bind_ok (apply_append hopen _)]
  rfl

end Emit

namespace Cursor

/-! ## What stays -/

variable {c c' c'' : Cursor} {i : Instruction}

/-- **A cursor extends the code of another**: local slots and blocks are only
added, all code stays, and code is only added in the block where the cursor
stood and in new ones. -/
structure Extends (c c' : Cursor) : Prop where
  name : c'.function.name = c.function.name
  params : c'.function.params = c.function.params
  numLocals : c.function.numLocals ≤ c'.function.numLocals
  size : c.function.blocks.size ≤ c'.function.blocks.size
  kept : ∀ b, b < c.function.blocks.size → b ≠ c.block → c'.function.AgreeAt c.function b
  holds : c'.function.Holds c.function
  spot : c'.block = c.block ∨ c.function.blocks.size ≤ c'.block

namespace Extends

/-- A cursor extends itself. -/
theorem refl (c : Cursor) : Extends c c :=
  ⟨rfl, rfl, Nat.le_refl _, Nat.le_refl _, fun b _ _ => .refl _ b, .refl _, .inl rfl⟩

/-- Extensions compose. -/
theorem trans (h : Extends c c') (h' : Extends c' c'') : Extends c c'' where
  name := h'.name.trans h.name
  params := h'.params.trans h.params
  numLocals := Nat.le_trans h.numLocals h'.numLocals
  size := Nat.le_trans h.size h'.size
  kept b hb hne := by
    -- the cursor is either still at its block or at a new one, so not at `b`
    have hne' : b ≠ c'.block := by
      rcases h.spot with heq | hge
      · rw [heq]
        exact hne
      · exact Nat.ne_of_lt (Nat.lt_of_lt_of_le hb hge)
    exact (h'.kept b (Nat.lt_of_lt_of_le hb h.size) hne').trans (h.kept b hb hne)
  holds := h'.holds.trans h.holds
  spot := by
    rcases h'.spot with heq | hge
    · rw [heq]
      exact h.spot
    · exact .inr (Nat.le_trans h.size hge)

/-- The cursor may go on in a new block. -/
theorem moveTo (h : Extends c c') {b : BlockId} (hb : c.function.blocks.size ≤ b) :
    Extends c (c'.moveTo b) :=
  ⟨h.name, h.params, h.numLocals, h.size, h.kept, h.holds, .inr hb⟩

/-- A change of the location in force does not matter for what is extended. -/
theorem locate (h : Extends c c') (location : Location) : Extends c (c'.locate location) :=
  ⟨h.name, h.params, h.numLocals, h.size, h.kept, h.holds, h.spot⟩

end Extends

/-- A new slot extends what is there. -/
theorem extends_widen (c : Cursor) : Extends c c.widen :=
  ⟨rfl, rfl, Nat.le_succ _, Nat.le_refl _, fun b _ _ => Function.agreeAt_widen _ b,
    Function.holds_of_agreeAt (Function.agreeAt_widen _), .inl rfl⟩

/-- A new block extends what is there. -/
theorem extends_extend (c : Cursor) (name : String) : Extends c (c.extend name) where
  name := rfl
  params := rfl
  numLocals := Nat.le_refl _
  size := by rw [size_extend]; exact Nat.le_succ _
  kept b _ _ := Function.agreeAt_extend _ _ b
  holds := Function.holds_of_agreeAt (Function.agreeAt_extend _ _)
  spot := .inl rfl

section AtOpenBlock

variable (hd : c.function.Drafted) (hopen : c.function.IsOpen c.block)
include hd hopen

/-- An instruction appended to an open block extends what is there. -/
theorem extends_append : Extends c (c.append i) where
  name := rfl
  params := rfl
  numLocals := Nat.le_refl _
  size := Nat.le_of_eq (size_append c i).symm
  kept _ _ hne := Function.agreeAt_push hd hne
  holds := Function.holds_push hd hopen.lt_size
  spot := .inl rfl

/-- An instruction that writes a new slot extends what is there. -/
theorem extends_assign {i : LocalId → Instruction} : Extends c (c.assign i) :=
  (extends_widen c).trans (extends_append (Function.drafted_widen hd) hopen.widen)

/-- A terminator extends what is there, and closes the block. -/
theorem extends_close (htargets : ∀ t ∈ i.targets, t < c.function.blocks.size) :
    Extends c (c.close i) where
  name := (Function.joined_close hd hopen htargets).name
  params := (Function.joined_close hd hopen htargets).params
  numLocals := Nat.le_of_eq (Function.joined_close hd hopen htargets).numLocals.symm
  size := Nat.le_of_eq (Function.size_close hd hopen htargets).symm
  kept _ _ hne := Function.agreeAt_close hd hopen htargets hne
  holds := Function.holds_close hd hopen htargets
  spot := .inl rfl

end AtOpenBlock

end Cursor

end BlockIR
