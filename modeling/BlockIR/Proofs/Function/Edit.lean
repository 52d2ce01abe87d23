import BlockIR.Proofs.Function.Growth
/-!
# What an edit does

An edit asks the function some questions, fails where the answer is no, and
otherwise makes one change. The equations of this file say which questions and
which change; `Alters` collects the changes that there are, so that whatever
each of them keeps is kept by every edit.

A change is seen through four views: what a block lists, who owns an
instruction, and the two ends of the edges.
-/

namespace BlockIR

namespace Function

open Success

variable {f : Function} {b c : BlockId} {i j : InstrId}

/-! ## Views -/

/-- The instructions that a block lists, none if there is no such block. -/
def idsOf (f : Function) (b : BlockId) : List InstrId :=
  match f.blocks[b]? with
  | some block => block.instrs
  | none => []

/-- The block that owns an instruction, none if it is detached or unknown. -/
def ownerOf (f : Function) (i : InstrId) : Option BlockId :=
  (f.slots[i]?).bind Slot.owner

theorem idsOf_of_block {block : Block} (h : f.blocks[b]? = some block) :
    f.idsOf b = block.instrs := by
  simp [idsOf, h]

theorem succsOf_of_block {block : Block} (h : f.blocks[b]? = some block) :
    f.succsOf b = block.succs := by
  simp [succsOf, h]

theorem predsOf_of_block {block : Block} (h : f.blocks[b]? = some block) :
    f.predsOf b = block.preds := by
  simp [predsOf, h]

/-- Only a block that is there lists instructions. -/
theorem lt_size_of_mem_idsOf (h : i ∈ f.idsOf b) : b < f.blocks.size := by
  unfold idsOf at h
  split at h
  · exact lt_size_of_block (by assumption)
  · cases h

/-- Only a block that is there has edges. -/
theorem lt_size_of_mem_succsOf (h : c ∈ f.succsOf b) : b < f.blocks.size := by
  unfold succsOf at h
  split at h
  · exact lt_size_of_block (by assumption)
  · cases h

/-- Only a block that is there has back-edges. -/
theorem lt_size_of_mem_predsOf (h : c ∈ f.predsOf b) : b < f.blocks.size := by
  unfold predsOf at h
  split at h
  · exact lt_size_of_block (by assumption)
  · cases h

/-- Only an instruction of the arena has an owner. -/
theorem lt_size_of_ownerOf (h : f.ownerOf i = some b) : i < f.slots.size := by
  obtain ⟨slot, hslot, -⟩ := Option.bind_eq_some_iff.mp h
  exact (Array.getElem?_eq_some_iff.mp hslot).1

/-- A field of a block can be read when there is such a block. -/
theorem field_eq_ok {α : Type} {field : Block → α} {a : α} :
    (do return field (← f.block b) : Except StructureError α) = .ok a ↔
      ∃ block, f.blocks[b]? = some block ∧ field block = a := by
  simp only [bind_eq_ok, block_eq_ok, pure_eq_ok]

/-- The owner is told of every instruction of the arena. -/
theorem owner_eq_ok {o : Option BlockId} :
    f.owner i = .ok o ↔ i < f.slots.size ∧ f.ownerOf i = o := by
  simp only [owner, bind_eq_ok, slot_eq_ok, pure_eq_ok]
  constructor
  · rintro ⟨slot, hslot, rfl⟩
    exact ⟨(Array.getElem?_eq_some_iff.mp hslot).1, by simp [ownerOf, hslot]⟩
  · rintro ⟨hlt, rfl⟩
    have hslot := Array.getElem?_eq_getElem hlt
    exact ⟨_, hslot, by simp [ownerOf, hslot]⟩

/-- The instructions are counted of every block that is there. -/
theorem count_eq_ok {length : Nat} :
    f.count b = .ok length ↔ b < f.blocks.size ∧ (f.idsOf b).length = length := by
  rw [count, field_eq_ok]
  constructor
  · rintro ⟨block, hb, rfl⟩
    exact ⟨lt_size_of_block hb, congrArg List.length (idsOf_of_block hb)⟩
  · rintro ⟨hlt, rfl⟩
    obtain ⟨block, hb⟩ := exists_block hlt
    exact ⟨block, hb, congrArg List.length (idsOf_of_block hb).symm⟩

/-- The edges are told of every block that is there. -/
theorem successors_eq_ok {succs : List BlockId} :
    f.successors b = .ok succs ↔ b < f.blocks.size ∧ f.succsOf b = succs := by
  rw [successors, field_eq_ok]
  constructor
  · rintro ⟨block, hb, rfl⟩
    exact ⟨lt_size_of_block hb, succsOf_of_block hb⟩
  · rintro ⟨hlt, rfl⟩
    obtain ⟨block, hb⟩ := exists_block hlt
    exact ⟨block, hb, (succsOf_of_block hb).symm⟩

/-- The back-edges are told of every block that is there. -/
theorem predecessors_eq_ok {preds : List BlockId} :
    f.predecessors b = .ok preds ↔ b < f.blocks.size ∧ f.predsOf b = preds := by
  rw [predecessors, field_eq_ok]
  constructor
  · rintro ⟨block, hb, rfl⟩
    exact ⟨lt_size_of_block hb, predsOf_of_block hb⟩
  · rintro ⟨hlt, rfl⟩
    obtain ⟨block, hb⟩ := exists_block hlt
    exact ⟨block, hb, (predsOf_of_block hb).symm⟩

/-- A block that is not there is reported. -/
theorem block_of_unknown (h : f.blocks.size ≤ b) : f.block b = .error (.unknownBlock b) := by
  simp [block, Array.getElem?_eq_none h]

theorem successors_of_unknown (h : f.blocks.size ≤ b) :
    f.successors b = .error (.unknownBlock b) := by
  rw [successors, block_of_unknown h]
  rfl

theorem predecessors_of_unknown (h : f.blocks.size ≤ b) :
    f.predecessors b = .error (.unknownBlock b) := by
  rw [predecessors, block_of_unknown h]
  rfl

/-- What is listed at an index is told where something is. -/
theorem listedAt_eq_ok {k : Nat} : f.listedAt b k = .ok i ↔ (f.idsOf b)[k]? = some i := by
  unfold listedAt
  rw [bind_eq_ok]
  constructor
  · rintro ⟨block, hb, hlisted⟩
    rw [idsOf_of_block (block_eq_ok.mp hb)]
    cases hk : block.instrs[k]? with
    | none =>
      rw [hk] at hlisted
      cases hlisted
    | some j =>
      rw [hk] at hlisted
      exact congrArg some (pure_eq_ok.mp hlisted)
  · intro hi
    obtain ⟨block, hb⟩ := exists_block
      (lt_size_of_mem_idsOf (List.mem_of_getElem? hi))
    rw [idsOf_of_block hb] at hi
    refine ⟨block, block_eq_ok.mpr hb, ?_⟩
    rw [hi]
    rfl

/-- The position of an instruction is where its owner lists it. -/
theorem position_eq_ok {k : Nat} :
    f.position i = .ok (b, k) ↔
      f.ownerOf i = some b ∧ b < f.blocks.size ∧ (f.idsOf b).idxOf? i = some k := by
  unfold position
  rw [bind_eq_ok]
  constructor
  · rintro ⟨owner, howner, h⟩
    cases owner with
    | none => exact absurd h throw_ne_ok
    | some b' =>
      obtain ⟨block, hblock, h⟩ := bind_eq_ok.mp h
      rw [block_eq_ok] at hblock
      cases hk : block.instrs.idxOf? i with
      | none =>
        rw [hk] at h
        exact absurd h throw_ne_ok
      | some k' =>
        rw [hk] at h
        cases h
        refine ⟨(owner_eq_ok.mp howner).2, lt_size_of_block hblock, ?_⟩
        rw [idsOf_of_block hblock]
        exact hk
  · rintro ⟨howner, hlt, hk⟩
    obtain ⟨block, hblock⟩ := exists_block hlt
    rw [idsOf_of_block hblock] at hk
    refine ⟨some b, owner_eq_ok.mpr ⟨lt_size_of_ownerOf howner, howner⟩, ?_⟩
    refine bind_eq_ok.mpr ⟨block, block_eq_ok.mpr hblock, ?_⟩
    rw [hk]
    rfl

/-- A detached instruction has no position. -/
theorem position_of_detached (h : f.owner i = .ok none) : f.position i = .error (.detached i) := by
  unfold position
  rw [h]
  rfl

/-- An instruction that is not in the arena has no position. -/
theorem position_of_unknown (h : f.slots.size ≤ i) : f.position i = .error (.unknownInstr i) := by
  have hslot : f.slot i = .error (.unknownInstr i) := by
    simp [slot, Array.getElem?_eq_none h]
  unfold position owner
  rw [hslot]
  rfl

/-! ## Changes -/

/-- The function with an instruction listed by a block, and owned by it. -/
def placed (f : Function) (b : BlockId) (i : InstrId) (index : Nat) : Function :=
  (f.modifyBlock b fun block => { block with instrs := block.instrs.insertIdx index i }).modifySlot
    i fun slot => { slot with owner := some b }

/-- The function with an instruction taken out of a block. -/
def unplaced (f : Function) (b : BlockId) (i : InstrId) (index : Nat) : Function :=
  (f.modifyBlock b fun block => { block with instrs := block.instrs.eraseIdx index }).modifySlot
    i fun slot => { slot with owner := none }

/-- The function with a new edge. -/
def linked (f : Function) (src dst : BlockId) : Function :=
  (f.modifyBlock src fun block => { block with succs := block.succs ++ [dst] }).modifyBlock dst
    fun block => { block with preds := block.preds ++ [src] }

/-- The function without an edge. -/
def unlinked (f : Function) (src dst : BlockId) : Function :=
  (f.modifyBlock src fun block => { block with succs := block.succs.erase dst }).modifyBlock dst
    fun block => { block with preds := block.preds.filter (· != src) }

/-- **The changes that an edit can make**, each with what was asked before. -/
inductive Alters (f : Function) : Function → Prop
  | nothing : Alters f f
  | recount (count : Nat) : Alters f { f with numLocals := count }
  | extend (name : Option String) : Alters f (f.extend name)
  | create (instr : Instruction) (location : Location) :
      Alters f { f with slots := f.slots.push { instr := instr, location := location } }
  | amend (i : InstrId) (g : Slot → Slot) (hg : ∀ slot, (g slot).owner = slot.owner) :
      Alters f (f.modifySlot i g)
  | place {b : BlockId} {i : InstrId} {index : Nat} : i < f.slots.size → f.ownerOf i = none →
      b < f.blocks.size → index ≤ (f.idsOf b).length → Alters f (f.placed b i index)
  | unplace {b : BlockId} {i : InstrId} {index : Nat} : f.ownerOf i = some b →
      (f.idsOf b).idxOf? i = some index → Alters f (f.unplaced b i index)
  | link {src dst : BlockId} : src < f.blocks.size → dst < f.blocks.size →
      dst ∉ f.succsOf src → Alters f (f.linked src dst)
  | unlink {src dst : BlockId} : dst < f.blocks.size → dst ∈ f.succsOf src →
      Alters f (f.unlinked src dst)

/-! ### Views of a change -/

/-- What a block has in one of its lists, nothing if there is no such block. -/
def view (field : Block → List Nat) (f : Function) (b : BlockId) : List Nat :=
  ((f.blocks[b]?).map field).getD []

/-- The instructions of a block are a view of it. -/
theorem idsOf_eq_view (f : Function) (b : BlockId) : f.idsOf b = view Block.instrs f b := by
  unfold idsOf view
  cases f.blocks[b]? <;> rfl

/-- The edges of a block are a view of it. -/
theorem succsOf_eq_view (f : Function) (b : BlockId) : f.succsOf b = view Block.succs f b := by
  unfold succsOf view
  cases f.blocks[b]? <;> rfl

/-- The back-edges of a block are a view of it. -/
theorem predsOf_eq_view (f : Function) (b : BlockId) : f.predsOf b = view Block.preds f b := by
  unfold predsOf view
  cases f.blocks[b]? <;> rfl

/-- A list that the change of a block leaves alone. -/
theorem view_modifyBlock_of_eq {field : Block → List Nat} {g : Block → Block}
    (hg : ∀ block, field (g block) = field block) (f : Function) (b c : BlockId) :
    view field (f.modifyBlock b g) c = view field f c := by
  unfold view
  rw [blocks_modifyBlock]
  split
  · cases f.blocks[c]? with
    | none => rfl
    | some block => exact hg block
  · rfl

/-- A list that changes in one block. -/
theorem view_modifyBlock {field : Block → List Nat} {g : Block → Block} {h : List Nat → List Nat}
    (hg : ∀ block, field (g block) = h (field block)) (hb : b < f.blocks.size) (c : BlockId) :
    view field (f.modifyBlock b g) c = if c = b then h (view field f b) else view field f c := by
  unfold view
  rw [blocks_modifyBlock]
  by_cases hc : b = c
  · subst hc
    obtain ⟨block, hblock⟩ := exists_block hb
    simp [hblock, hg]
  · rw [if_neg hc, if_neg (Ne.symm hc)]

@[simp] theorem size_modifyBlock (f : Function) (b : BlockId) (g : Block → Block) :
    (f.modifyBlock b g).blocks.size = f.blocks.size := by
  simp [modifyBlock]

/-- A change of a slot that keeps its owner keeps all owners. -/
theorem ownerOf_modifySlot_of_eq {g : Slot → Slot} (hg : ∀ slot, (g slot).owner = slot.owner)
    (f : Function) (i j : InstrId) : (f.modifySlot i g).ownerOf j = f.ownerOf j := by
  simp only [ownerOf, modifySlot, Array.getElem?_modify]
  split
  · cases f.slots[j]? with
    | none => rfl
    | some slot => exact hg slot
  · rfl

/-- A change of the owner of one slot leaves the others theirs. -/
theorem ownerOf_modifySlot {g : Slot → Slot} {o : Option BlockId} (hg : ∀ slot, (g slot).owner = o)
    (hi : i < f.slots.size) (j : InstrId) :
    (f.modifySlot i g).ownerOf j = if j = i then o else f.ownerOf j := by
  simp only [ownerOf, modifySlot, Array.getElem?_modify]
  by_cases hj : i = j
  · subst hj
    simp [Array.getElem?_eq_getElem hi, hg]
  · rw [if_neg hj, if_neg (Ne.symm hj)]

/-- Placing an instruction puts it in the list of one block. -/
theorem idsOf_placed (hb : b < f.blocks.size) (i : InstrId) (index : Nat) (c : BlockId) :
    (f.placed b i index).idsOf c =
      if c = b then (f.idsOf b).insertIdx index i else f.idsOf c := by
  simp only [idsOf_eq_view]
  exact view_modifyBlock (h := fun ids => ids.insertIdx index i) (by intro block; rfl) hb c

/-- A placed instruction belongs to its block. -/
theorem ownerOf_placed (hi : i < f.slots.size) (b : BlockId) (index : Nat) (j : InstrId) :
    (f.placed b i index).ownerOf j = if j = i then some b else f.ownerOf j :=
  ownerOf_modifySlot (by intro slot; rfl) hi j

/-- Taking an instruction out removes it from the list of one block. -/
theorem idsOf_unplaced (hb : b < f.blocks.size) (i : InstrId) (index : Nat) (c : BlockId) :
    (f.unplaced b i index).idsOf c =
      if c = b then (f.idsOf b).eraseIdx index else f.idsOf c := by
  simp only [idsOf_eq_view]
  exact view_modifyBlock (h := fun ids => ids.eraseIdx index) (by intro block; rfl) hb c

/-- An instruction that is taken out belongs to no block. -/
theorem ownerOf_unplaced (hi : i < f.slots.size) (b : BlockId) (index : Nat) (j : InstrId) :
    (f.unplaced b i index).ownerOf j = if j = i then none else f.ownerOf j :=
  ownerOf_modifySlot (by intro slot; rfl) hi j

/-- Placing an instruction does not touch edges. -/
theorem succsOf_placed (f : Function) (b : BlockId) (i : InstrId) (index : Nat) (c : BlockId) :
    (f.placed b i index).succsOf c = f.succsOf c := by
  simp only [succsOf_eq_view]
  exact view_modifyBlock_of_eq (by intro block; rfl) f b c

/-- Placing an instruction does not touch back-edges. -/
theorem predsOf_placed (f : Function) (b : BlockId) (i : InstrId) (index : Nat) (c : BlockId) :
    (f.placed b i index).predsOf c = f.predsOf c := by
  simp only [predsOf_eq_view]
  exact view_modifyBlock_of_eq (by intro block; rfl) f b c

/-- Taking an instruction out does not touch edges. -/
theorem succsOf_unplaced (f : Function) (b : BlockId) (i : InstrId) (index : Nat) (c : BlockId) :
    (f.unplaced b i index).succsOf c = f.succsOf c := by
  simp only [succsOf_eq_view]
  exact view_modifyBlock_of_eq (by intro block; rfl) f b c

/-- Taking an instruction out does not touch back-edges. -/
theorem predsOf_unplaced (f : Function) (b : BlockId) (i : InstrId) (index : Nat) (c : BlockId) :
    (f.unplaced b i index).predsOf c = f.predsOf c := by
  simp only [predsOf_eq_view]
  exact view_modifyBlock_of_eq (by intro block; rfl) f b c

/-- A new edge is the last one of its block. -/
theorem succsOf_linked {src : BlockId} (hsrc : src < f.blocks.size) (dst c : BlockId) :
    (f.linked src dst).succsOf c = if c = src then f.succsOf src ++ [dst] else f.succsOf c := by
  simp only [succsOf_eq_view]
  refine (view_modifyBlock_of_eq (by intro block; rfl) _ dst c).trans ?_
  exact view_modifyBlock (h := fun succs => succs ++ [dst]) (by intro block; rfl) hsrc c

/-- A new back-edge is the last one of its block. -/
theorem predsOf_linked {dst : BlockId} (hdst : dst < f.blocks.size) (src c : BlockId) :
    (f.linked src dst).predsOf c = if c = dst then f.predsOf dst ++ [src] else f.predsOf c := by
  have hkept : ∀ c, view Block.preds (f.modifyBlock src fun block =>
      { block with succs := block.succs ++ [dst] }) c = view Block.preds f c :=
    view_modifyBlock_of_eq (by intro block; rfl) f src
  simp only [predsOf_eq_view]
  refine (view_modifyBlock (h := fun preds => preds ++ [src]) (by intro block; rfl)
    (by simpa using hdst) c).trans ?_
  rw [hkept, hkept]

/-- An edge that is removed is gone from its block, once. -/
theorem succsOf_unlinked {src : BlockId} (hsrc : src < f.blocks.size) (dst c : BlockId) :
    (f.unlinked src dst).succsOf c =
      if c = src then (f.succsOf src).erase dst else f.succsOf c := by
  simp only [succsOf_eq_view]
  refine (view_modifyBlock_of_eq (by intro block; rfl) _ dst c).trans ?_
  exact view_modifyBlock (h := fun succs => succs.erase dst) (by intro block; rfl) hsrc c

/-- A back-edge that is removed is gone from its block. -/
theorem predsOf_unlinked {dst : BlockId} (hdst : dst < f.blocks.size) (src c : BlockId) :
    (f.unlinked src dst).predsOf c =
      if c = dst then (f.predsOf dst).filter (· != src) else f.predsOf c := by
  have hkept : ∀ c, view Block.preds (f.modifyBlock src fun block =>
      { block with succs := block.succs.erase dst }) c = view Block.preds f c :=
    view_modifyBlock_of_eq (by intro block; rfl) f src
  simp only [predsOf_eq_view]
  refine (view_modifyBlock (h := fun preds => preds.filter (· != src)) (by intro block; rfl)
    (by simpa using hdst) c).trans ?_
  rw [hkept, hkept]

/-- A new edge does not touch instructions. -/
theorem idsOf_linked (f : Function) (src dst c : BlockId) :
    (f.linked src dst).idsOf c = f.idsOf c := by
  simp only [idsOf_eq_view]
  refine (view_modifyBlock_of_eq (by intro block; rfl) _ dst c).trans ?_
  exact view_modifyBlock_of_eq (by intro block; rfl) f src c

/-- Removing an edge does not touch instructions. -/
theorem idsOf_unlinked (f : Function) (src dst c : BlockId) :
    (f.unlinked src dst).idsOf c = f.idsOf c := by
  simp only [idsOf_eq_view]
  refine (view_modifyBlock_of_eq (by intro block; rfl) _ dst c).trans ?_
  exact view_modifyBlock_of_eq (by intro block; rfl) f src c

/-- A new block lists nothing, and the others what they did. -/
theorem idsOf_extend (f : Function) (name : Option String) (c : BlockId) :
    (f.extend name).idsOf c = f.idsOf c := by
  unfold idsOf
  rw [blocks_extend]
  by_cases hc : c = f.blocks.size
  · simp [hc]
  · rw [if_neg hc]

/-- A new instruction belongs to no block. -/
theorem ownerOf_create (f : Function) (instr : Instruction) (location : Location) (j : InstrId) :
    ownerOf { f with slots := f.slots.push { instr := instr, location := location } } j =
      f.ownerOf j := by
  simp only [ownerOf, Array.getElem?_push]
  by_cases hj : j = f.slots.size
  · simp [hj]
  · rw [if_neg hj]

/-! ## Edits -/

/-- A question that is answered goes on with the answer, one that is not ends
the edit; either way nothing changes. -/
theorem apply_query_bind {α β : Type} (q : Function → Except StructureError α) (k : α → Edit β)
    (f : Function) :
    (Transform.query q >>= k).apply f =
      match q f with
      | .ok a => (k a).apply f
      | .error e => (.error e, f) := by
  rw [Transform.apply_bind, Transform.apply_query]
  cases q f <;> rfl

/-- A block that is there can be changed. -/
theorem apply_updateBlock (hb : b < f.blocks.size) (g : Block → Block) :
    (updateBlock b g).apply f = (.ok (), f.modifyBlock b g) := by
  obtain ⟨block, hblock⟩ := exists_block hb
  rw [updateBlock, apply_query_bind, block_eq_ok.mpr hblock]
  rfl

/-- A place of the arena that is there can be changed. -/
theorem apply_updateSlot (hi : i < f.slots.size) (g : Slot → Slot) :
    (updateSlot i g).apply f = (.ok (), f.modifySlot i g) := by
  rw [updateSlot, apply_query_bind, slot_eq_ok.mpr (Array.getElem?_eq_getElem hi)]
  rfl

/-- **Attaching an instruction**: it must be in the arena and detached, and the
block must have the index. -/
theorem apply_attachAt (b : BlockId) (i : InstrId) (index : Nat) (f : Function) :
    (attachAt b i index).apply f =
      match f.owner i with
      | .error e => (.error e, f)
      | .ok (some owner) => (.error (.alreadyOwned i owner), f)
      | .ok none =>
        match f.count b with
        | .error e => (.error e, f)
        | .ok length =>
          if length < index then (.error (.indexOutOfRange b index length), f)
          else (.ok i, f.placed b i index) := by
  unfold attachAt
  rw [apply_query_bind]
  rcases howner : f.owner i with e | _ | owner
  · rfl
  · simp only
    rw [apply_query_bind]
    rcases f.count b with e | length
    · rfl
    · simp only
      split
      · rfl
      · -- the instruction is still in the arena once the block lists it
        rw [Transform.apply_bind_ok (Transform.apply_modify _ _),
          Transform.apply_bind_ok
            (apply_updateSlot (f := f.modifyBlock b _) (owner_eq_ok.mp howner).1 _)]
        rfl
  · rfl

/-- **Detaching an instruction**: it must have a position. -/
theorem apply_detach (i : InstrId) (f : Function) :
    (detach i).apply f =
      match f.position i with
      | .error e => (.error e, f)
      | .ok (b, index) => (.ok (), f.unplaced b i index) := by
  unfold detach
  rw [apply_query_bind]
  rcases hposition : f.position i with e | ⟨b, index⟩
  · rfl
  · obtain ⟨howner, hb, -⟩ := position_eq_ok.mp hposition
    simp only
    rw [Transform.apply_bind_ok (apply_updateBlock hb _)]
    exact apply_updateSlot (f := f.modifyBlock b _) (lt_size_of_ownerOf howner) _

/-- **Adding an edge**: both its ends must exist. -/
theorem apply_connect (src dst : BlockId) (f : Function) :
    (connect src dst).apply f =
      match f.block dst, f.successors src with
      | .error e, _ => (.error e, f)
      | .ok _, .error e => (.error e, f)
      | .ok _, .ok succs =>
        if dst ∈ succs then (.ok false, f) else (.ok true, f.linked src dst) := by
  unfold connect
  rw [apply_query_bind]
  rcases hblock : f.block dst with e | block
  · rfl
  · simp only
    rw [apply_query_bind]
    rcases hsuccs : f.successors src with e | succs
    · rfl
    · have hdst := lt_size_of_block (block_eq_ok.mp hblock)
      simp only
      split
      · rfl
      · rw [Transform.apply_bind_ok (apply_updateBlock (successors_eq_ok.mp hsuccs).1 _),
          Transform.apply_bind_ok (apply_updateBlock (by simpa using hdst) _)]
        rfl

/-- **Removing an edge**: both its ends must exist. -/
theorem apply_disconnect (src dst : BlockId) (f : Function) :
    (disconnect src dst).apply f =
      match f.block dst, f.successors src with
      | .error e, _ => (.error e, f)
      | .ok _, .error e => (.error e, f)
      | .ok _, .ok succs =>
        if dst ∈ succs then (.ok true, f.unlinked src dst) else (.ok false, f) := by
  unfold disconnect
  rw [apply_query_bind]
  rcases hblock : f.block dst with e | block
  · rfl
  · simp only
    rw [apply_query_bind]
    rcases f.successors src with e | succs
    · rfl
    · have hdst := lt_size_of_block (block_eq_ok.mp hblock)
      by_cases hmem : dst ∈ succs
      · simp only [hmem, not_true_eq_false, if_false, if_true]
        rw [Transform.apply_bind_ok (Transform.apply_modify _ _),
          Transform.apply_bind_ok (apply_updateBlock (by simpa using hdst) _)]
        rfl
      · simp only [hmem, not_false_eq_true, if_false, if_true]
        rfl

/-! ### What every edit keeps -/

/-- An edit that begins with a question alters as what follows the answer does. -/
theorem alters_query_bind {α β : Type} {q : Function → Except StructureError α} {k : α → Edit β}
    (h : ∀ a, q f = .ok a → Alters f ((k a).apply f).2) :
    Alters f ((Transform.query q >>= k).apply f).2 := by
  rw [apply_query_bind]
  cases ha : q f with
  | error e => exact .nothing
  | ok a => exact h a ha

/-- Attaching an instruction is an alteration, or none. -/
theorem alters_attachAt (b : BlockId) (i : InstrId) (index : Nat) (f : Function) :
    Alters f ((attachAt b i index).apply f).2 := by
  rw [apply_attachAt]
  rcases ho : f.owner i with e | _ | owner
  · exact .nothing
  · rcases hc : f.count b with e | length
    · exact .nothing
    · simp only
      obtain ⟨hi, howner⟩ := owner_eq_ok.mp ho
      obtain ⟨hb, rfl⟩ := count_eq_ok.mp hc
      split
      · exact .nothing
      · exact .place hi howner hb (Nat.not_lt.mp (by assumption))
  · exact .nothing

/-- Detaching an instruction is an alteration, or none. -/
theorem alters_detach (i : InstrId) (f : Function) : Alters f ((detach i).apply f).2 := by
  rw [apply_detach]
  rcases hp : f.position i with e | ⟨b, index⟩
  · exact .nothing
  · obtain ⟨howner, -, hindex⟩ := position_eq_ok.mp hp
    exact .unplace howner hindex

/-- Adding an edge is an alteration, or none. -/
theorem alters_connect (src dst : BlockId) (f : Function) :
    Alters f ((connect src dst).apply f).2 := by
  rw [apply_connect]
  rcases hb : f.block dst with e | block
  · exact .nothing
  · rcases hs : f.successors src with e | succs
    · exact .nothing
    · obtain ⟨hsrc, rfl⟩ := successors_eq_ok.mp hs
      simp only
      split
      · exact .nothing
      · exact .link hsrc (lt_size_of_block (block_eq_ok.mp hb)) (by assumption)

/-- Removing an edge is an alteration, or none. -/
theorem alters_disconnect (src dst : BlockId) (f : Function) :
    Alters f ((disconnect src dst).apply f).2 := by
  rw [apply_disconnect]
  rcases hb : f.block dst with e | block
  · exact .nothing
  · rcases hs : f.successors src with e | succs
    · exact .nothing
    · obtain ⟨-, rfl⟩ := successors_eq_ok.mp hs
      simp only
      split
      · exact .unlink (lt_size_of_block (block_eq_ok.mp hb)) (by assumption)
      · exact .nothing

end Function

end BlockIR
