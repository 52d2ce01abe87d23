import BlockIR.Function.Edit
/-!
# The code of a function

A block lists instructions by their place in the arena. What a run sees of a
function is only which instruction stands where: `instrAt?` reads it off, and
two functions with the same reading run alike. `Holds` says that a function has
at least the code of another, in the same places.
-/

namespace BlockIR

namespace Function

variable {f g h : Function} {b : BlockId} {k : Nat} {i : Instruction}

/-- The number of instructions that a block lists, zero if there is no such
block. -/
def length (f : Function) (b : BlockId) : Nat :=
  match f.blocks[b]? with
  | some block => block.instrs.length
  | none => 0

/-- **The instruction at an index of a block.** -/
def instrAt? (f : Function) (b : BlockId) (k : Nat) : Option Instruction :=
  ((f.blocks[b]?).bind fun block => block.instrs[k]?).bind fun id =>
    (f.slots[id]?).map fun slot => slot.instr

/-- A block below the number of blocks is there. -/
theorem exists_block (hb : b < f.blocks.size) : ∃ block, f.blocks[b]? = some block :=
  ⟨_, Array.getElem?_eq_getElem hb⟩

theorem lt_size_of_block {block : Block} (hb : f.blocks[b]? = some block) : b < f.blocks.size :=
  (Array.getElem?_eq_some_iff.mp hb).1

/-- The length of a block is the number of its instructions. -/
theorem length_of_block {block : Block} (hb : f.blocks[b]? = some block) :
    f.length b = block.instrs.length := by
  simp [length, hb]

/-- What stands at an index is what the arena holds under the id listed there. -/
theorem instrAt?_of_block {block : Block} (hb : f.blocks[b]? = some block) :
    f.instrAt? b k = (block.instrs[k]?).bind fun id => (f.slots[id]?).map fun slot => slot.instr := by
  simp [instrAt?, hb]

/-- An instruction stands at an index when its block lists its place there. -/
theorem instrAt?_eq_some :
    f.instrAt? b k = some i ↔
      ∃ block id slot, f.blocks[b]? = some block ∧ block.instrs[k]? = some id ∧
        f.slots[id]? = some slot ∧ slot.instr = i := by
  simp only [instrAt?, Option.bind_eq_some_iff, Option.map_eq_some_iff]
  constructor
  · rintro ⟨id, ⟨block, hb, hid⟩, slot, hslot, rfl⟩
    exact ⟨block, id, slot, hb, hid, hslot, rfl⟩
  · rintro ⟨block, id, slot, hb, hid, hslot, rfl⟩
    exact ⟨id, ⟨block, hb, hid⟩, slot, hslot, rfl⟩

/-- An instruction stands below the length of its block. -/
theorem lt_length_of_instrAt? (hi : f.instrAt? b k = some i) : k < f.length b := by
  obtain ⟨block, id, slot, hb, hid, -, -⟩ := instrAt?_eq_some.mp hi
  rw [length_of_block hb]
  exact (List.getElem?_eq_some_iff.mp hid).1

/-- Only a block that is there has a length. -/
theorem lt_size_of_lt_length (hk : k < f.length b) : b < f.blocks.size := by
  rcases Nat.lt_or_ge b f.blocks.size with hb | hb
  · exact hb
  · have hnone : f.blocks[b]? = none := Array.getElem?_eq_none hb
    simp [length, hnone] at hk

/-- An instruction stands in a block that is there. -/
theorem lt_size_of_instrAt? (hi : f.instrAt? b k = some i) : b < f.blocks.size := by
  obtain ⟨block, id, slot, hb, -, -, -⟩ := instrAt?_eq_some.mp hi
  exact lt_size_of_block hb

/-- The terminator of a block is its last instruction. -/
theorem terminator?_eq_some :
    f.terminator? b = some i ↔
      f.instrAt? b (f.length b - 1) = some i ∧ i.isTerminator = true := by
  have hlast : ∀ block, f.blocks[b]? = some block →
      block.instrs[f.length b - 1]? = block.instrs.getLast? := by
    intro block hb
    rw [length_of_block hb, List.getLast?_eq_getElem?]
  simp only [terminator?, Option.bind_eq_bind, Option.bind_eq_some_iff,
    Option.ite_none_right_eq_some, Option.some.injEq, instrAt?_eq_some]
  constructor
  · rintro ⟨block, hb, last, hl, slot, hs, ht, rfl⟩
    exact ⟨⟨block, last, slot, hb, (hlast block hb).trans hl, hs, rfl⟩, ht⟩
  · rintro ⟨⟨block, last, slot, hb, hl, hs, rfl⟩, ht⟩
    exact ⟨block, hb, last, (hlast block hb).symm.trans hl, slot, hs, ht, rfl⟩

/-! ## Having the code of another function -/

/-- **A function holds the code of another**: wherever the other has an
instruction, it has the same one. -/
def Holds (f g : Function) : Prop :=
  ∀ b k i, g.instrAt? b k = some i → f.instrAt? b k = some i

/-- A function holds its own code. -/
theorem Holds.refl (f : Function) : f.Holds f := fun _ _ _ hi => hi

/-- Code that is held by held code is held. -/
theorem Holds.trans (hfg : f.Holds g) (hgh : g.Holds h) : f.Holds h :=
  fun b k i hi => hfg b k i (hgh b k i hi)

end Function

end BlockIR
