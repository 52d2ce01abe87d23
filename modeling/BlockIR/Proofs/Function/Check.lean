import BlockIR.Function.Check
import BlockIR.Proofs.Function.Code
import BlockIR.Proofs.Success
/-!
# What the check of a function decides

`BlockSound` states of one block what the check asks of it, without the order in
which the check asks. `check_eq_ok_iff` says that the check asks just that of
every block. `Runnable` is what a run needs of a function, and a function that
passes the check has it, provided its blocks carry their own numbers.
-/

namespace BlockIR

/-- Instructions that are not terminators lead nowhere. -/
theorem Instruction.targets_eq_nil {i : Instruction} (h : i.isTerminator = false) :
    i.targets = [] := by
  cases i <;> first | rfl | cases h

/-- A branch leads to its two targets. -/
theorem Instruction.mem_targets_branch {cond : Operand} {thenTarget elseTarget t : BlockId} :
    t ∈ (branch cond thenTarget elseTarget).targets ↔ t = thenTarget ∨ t = elseTarget := by
  simp only [targets]
  by_cases h : thenTarget = elseTarget
  · simp [h]
  · simp [h]

namespace Function

open Success

variable {f : Function} {b : BlockId} {block : Block}

/-- The blocks that the terminator of a block leads to. -/
def targetsOf (f : Function) (b : BlockId) : List BlockId :=
  ((f.terminator? b).map Instruction.targets).getD []

/-- A listed instruction is in the arena, belongs to its block, is a terminator
just when it is the last, and touches local slots that exist. -/
def InstrSound (f : Function) (b : BlockId) (isLast : Bool) (id : InstrId) : Prop :=
  ∃ slot, f.slots[id]? = some slot ∧ slot.owner = some b ∧ slot.instr.isTerminator = isLast ∧
    ∀ l ∈ slot.instr.locals, l < f.numLocals

/-- **What the check asks of a block.** -/
structure BlockSound (f : Function) (block : Block) : Prop where
  nonempty : block.instrs ≠ []
  instrs : ∀ k id, block.instrs[k]? = some id →
    f.InstrSound block.id (k + 1 == block.instrs.length) id
  targets : ∀ t ∈ f.targetsOf block.id, t < f.blocks.size ∧ t ∈ block.succs
  taken : ∀ s ∈ block.succs, s ∈ f.targetsOf block.id
  backward : ∀ s ∈ block.succs, ∃ far, f.blocks[s]? = some far ∧ block.id ∈ far.preds
  forward : ∀ p ∈ block.preds, ∃ far, f.blocks[p]? = some far ∧ block.id ∈ far.succs

theorem block_eq_ok : f.block b = .ok block ↔ f.blocks[b]? = some block := by
  unfold Function.block
  cases f.blocks[b]? <;> simp

theorem slot_eq_ok {id : InstrId} {slot : Slot} :
    f.slot id = .ok slot ↔ f.slots[id]? = some slot := by
  unfold Function.slot
  cases f.slots[id]? <;> simp

/-- The check of an instruction asks what `InstrSound` states. -/
theorem checkInstr_eq_ok {isLast : Bool} {id : InstrId} :
    f.checkInstr b isLast id = .ok () ↔ f.InstrSound b isLast id := by
  unfold checkInstr InstrSound
  rw [bind_eq_ok]
  refine exists_congr fun slot => ?_
  rw [slot_eq_ok]
  refine and_congr_right fun _ => ?_
  by_cases howner : slot.owner = some b
  · by_cases hterm : slot.instr.isTerminator = isLast
    · have hfind : (∀ l ∈ slot.instr.locals, l < f.numLocals) ↔
          slot.instr.locals.find? (fun l => f.numLocals ≤ l) = none := by
        simp
      rw [hfind]
      simp only [howner, hterm, ne_eq, not_true_eq_false, if_false, true_and]
      cases slot.instr.locals.find? (fun l => f.numLocals ≤ l) with
      | none => simp
      | some l => simp
    · simp [howner, hterm, bind_eq_ok]
  · simp [howner, bind_eq_ok]

/-- The instructions of a block are checked one by one, and of the list that is
left only the last member is the last of the block. -/
theorem checkInstrs_eq_ok {ids : List InstrId} :
    f.checkInstrs b ids = .ok () ↔
      ∀ k id, ids[k]? = some id → f.InstrSound b (k + 1 == ids.length) id := by
  induction ids with
  | nil => simp [checkInstrs]
  | cons id rest ih =>
    have hlast : (0 + 1 == (id :: rest).length) = rest.isEmpty := by
      cases rest <;> simp
    have hnext : ∀ k, (k + 1 + 1 == (id :: rest).length) = (k + 1 == rest.length) := by
      intro k
      simp
    unfold checkInstrs
    rw [bind_eq_ok]
    constructor
    · rintro ⟨⟨⟩, hhead, htail⟩ k id' hk
      cases k with
      | zero =>
        cases hk
        rw [hlast]
        exact checkInstr_eq_ok.mp hhead
      | succ k =>
        rw [hnext]
        exact ih.mp htail k id' hk
    · intro h
      refine ⟨(), checkInstr_eq_ok.mpr ?_, ih.mpr fun k id' hk => ?_⟩
      · have := h 0 id rfl
        rwa [hlast] at this
      · have := h (k + 1) id' hk
        rwa [hnext] at this

/-- The check of a target asks for the block and the edge to it. -/
theorem checkTarget_eq_ok {t : BlockId} :
    f.checkTarget block t = .ok () ↔ t < f.blocks.size ∧ t ∈ block.succs := by
  unfold checkTarget
  rw [bind_eq_ok]
  simp only [block_eq_ok]
  by_cases ht : t ∈ block.succs
  · simp only [ht, not_true_eq_false, if_false, pure_eq_ok, and_true]
    refine ⟨?_, exists_block⟩
    rintro ⟨_, h⟩
    exact lt_size_of_block h
  · simp [ht]

/-- A look at the far end of an edge asks that the near end is listed there. -/
theorem farEnd_eq_ok {b near : BlockId} {listed : Block → List BlockId} {e : StructureError} :
    (do
      let far ← f.block b
      if near ∉ listed far then throw e) = .ok () ↔
      ∃ far, f.blocks[b]? = some far ∧ near ∈ listed far := by
  rw [bind_eq_ok]
  refine exists_congr fun far => ?_
  rw [block_eq_ok]
  refine and_congr_right fun _ => ?_
  by_cases hmem : near ∈ listed far
  · simp [hmem]
  · simp [hmem]

/-- The check of an edge asks for its back-edge. -/
theorem checkSuccessor_eq_ok {s : BlockId} :
    f.checkSuccessor block s = .ok () ↔ ∃ far, f.blocks[s]? = some far ∧ block.id ∈ far.preds :=
  farEnd_eq_ok

/-- The check of a back-edge asks for its edge. -/
theorem checkPredecessor_eq_ok {p : BlockId} :
    f.checkPredecessor block p = .ok () ↔
      ∃ far, f.blocks[p]? = some far ∧ block.id ∈ far.succs :=
  farEnd_eq_ok

/-- The check of a block asks what `BlockSound` states. -/
theorem checkBlock_eq_ok : f.checkBlock block = .ok () ↔ f.BlockSound block := by
  have hextra : (∀ s ∈ block.succs, s ∈ f.targetsOf block.id) ↔
      block.succs.find? (fun s => s ∉ f.targetsOf block.id) = none := by
    simp
  unfold checkBlock
  by_cases hempty : block.instrs = []
  · constructor
    · intro h
      simp [hempty, bind_eq_ok] at h
    · intro h
      exact absurd hempty h.nonempty
  · have hne : block.instrs.isEmpty = false := by
      simp [hempty]
    simp only [hne, Bool.false_eq_true, if_false, then_eq_ok, checkInstrs_eq_ok, forM_eq_ok,
      checkTarget_eq_ok]
    rw [show ((f.terminator? block.id).map Instruction.targets).getD [] = f.targetsOf block.id
      from rfl]
    cases hfind : block.succs.find? (fun s => s ∉ f.targetsOf block.id) with
    | some extra =>
      constructor
      · rintro ⟨-, -, h⟩
        exact absurd h throw_ne_ok
      · intro h
        have hnone := hextra.mp h.taken
        rw [hfind] at hnone
        cases hnone
    | none =>
      simp only [then_eq_ok, forM_eq_ok, checkSuccessor_eq_ok, checkPredecessor_eq_ok]
      constructor
      · rintro ⟨hinstrs, htargets, hback, hforw⟩
        exact ⟨hempty, hinstrs, htargets, hextra.mpr hfind, hback, hforw⟩
      · intro h
        exact ⟨h.instrs, h.targets, h.backward, h.forward⟩

/-- **A function passes the check when every block is sound.** -/
theorem check_eq_ok_iff :
    f.check = .ok () ↔ ∀ (b : BlockId) (block : Block), f.blocks[b]? = some block → f.BlockSound block := by
  unfold check
  rw [forM_eq_ok]
  constructor
  · intro h b block hb
    exact checkBlock_eq_ok.mp (h block (Array.mem_toList_iff.mpr (Array.mem_of_getElem? hb)))
  · intro h block hblock
    obtain ⟨b, hb⟩ := Array.getElem?_of_mem (Array.mem_toList_iff.mp hblock)
    exact checkBlock_eq_ok.mpr (h b block hb)

/-! ## What a run needs -/

/-- Every block carries its own number. -/
def Numbered (f : Function) : Prop :=
  ∀ (b : BlockId) (block : Block), f.blocks[b]? = some block → block.id = b

/-- **What a run needs of a function**: there is a block to enter at, no block is
empty, and at every index of a block stands an instruction that touches only
local slots and leads only to blocks that exist, a terminator at the last index
and nowhere else. -/
structure Runnable (f : Function) : Prop where
  enterable : 0 < f.blocks.size
  nonempty : ∀ b, b < f.blocks.size → 0 < f.length b
  instr : ∀ b k, k < f.length b → ∃ i, f.instrAt? b k = some i ∧
    (i.isTerminator = true ↔ k + 1 = f.length b) ∧
    (∀ l ∈ i.locals, l < f.numLocals) ∧ ∀ t ∈ i.targets, t < f.blocks.size

/-- **A function that passes the check can be run.** The terminator at the last
index of a block is the one whose targets the check looked at, since the block
carries its own number. -/
theorem runnable_of_check (hn : f.Numbered) (hpos : 0 < f.blocks.size) (hc : f.check = .ok ()) :
    f.Runnable := by
  have hsound : ∀ (b : BlockId) (block : Block), f.blocks[b]? = some block → f.BlockSound block :=
    check_eq_ok_iff.mp hc
  refine ⟨hpos, fun b hb => ?_, fun b k hk => ?_⟩
  · obtain ⟨block, hblock⟩ := exists_block hb
    rw [length_of_block hblock]
    exact List.length_pos_iff.mpr (hsound b block hblock).nonempty
  · have hb : b < f.blocks.size := lt_size_of_lt_length hk
    obtain ⟨block, hblock⟩ := exists_block hb
    have hs := hsound b block hblock
    rw [length_of_block hblock] at hk
    obtain ⟨slot, hslot, -, hterm, hlocals⟩ := hs.instrs k _ (List.getElem?_eq_getElem hk)
    have hi : f.instrAt? b k = some slot.instr :=
      instrAt?_eq_some.mpr ⟨block, _, slot, hblock, List.getElem?_eq_getElem hk, hslot, rfl⟩
    refine ⟨slot.instr, hi, ?_, hlocals, fun t ht => ?_⟩
    · rw [hterm, length_of_block hblock, beq_iff_eq]
    · cases hlast : slot.instr.isTerminator with
      | false =>
        rw [Instruction.targets_eq_nil hlast] at ht
        cases ht
      | true =>
        have hk' : k = f.length b - 1 := by
          rw [hlast] at hterm
          have := beq_iff_eq.mp hterm.symm
          rw [length_of_block hblock]
          omega
        have hid : block.id = b := hn b block hblock
        have hterminator : f.terminator? b = some slot.instr :=
          terminator?_eq_some.mpr ⟨by rw [← hk']; exact hi, hlast⟩
        refine (hs.targets t ?_).1
        rw [hid, targetsOf, hterminator]
        exact ht

end Function

end BlockIR
