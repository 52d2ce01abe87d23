import BlockIR.Proofs.Function.Check
/-!
# Code under construction

Code grows by instructions appended to open blocks, by new blocks and by new
local slots; a terminator comes with the edges to its targets. `Drafted` is
what such code has at any time, and drafted code without open blocks passes the
check (`check_of_drafted`). A block that is not appended to keeps its code.
-/

namespace BlockIR

namespace Function

variable {f g : Function} {b c : BlockId} {i : Instruction} {location : Location}

/-- The successors that a block records, none if there is no such block. -/
def succsOf (f : Function) (b : BlockId) : List BlockId :=
  match f.blocks[b]? with
  | some block => block.succs
  | none => []

/-- The predecessors that a block records, none if there is no such block. -/
def predsOf (f : Function) (b : BlockId) : List BlockId :=
  match f.blocks[b]? with
  | some block => block.preds
  | none => []

/-- **Code that is sound as far as it goes**: blocks carry their numbers and own
what they list, a terminator is the last of its block, local slots exist, and
the edges are those that the terminators take. -/
structure Drafted (f : Function) : Prop where
  numbered : f.Numbered
  owned : ∀ (b : BlockId) (block : Block), f.blocks[b]? = some block → ∀ id ∈ block.instrs,
    ∃ slot, f.slots[id]? = some slot ∧ slot.owner = some b
  early : ∀ b k i, f.instrAt? b k = some i → i.isTerminator = true → k + 1 = f.length b
  locals : ∀ b k i, f.instrAt? b k = some i → ∀ l ∈ i.locals, l < f.numLocals
  taken : ∀ b t, t ∈ f.succsOf b ↔ t ∈ f.targetsOf b
  paired : ∀ b t, b ∈ f.predsOf t ↔ t ∈ f.succsOf b

/-- The block is there and does not end with a terminator. -/
structure IsOpen (f : Function) (b : BlockId) : Prop where
  lt_size : b < f.blocks.size
  terminator? : f.terminator? b = none

/-- The block is there and lists nothing. -/
structure IsFresh (f : Function) (b : BlockId) : Prop where
  lt_size : b < f.blocks.size
  length : f.length b = 0

/-- An empty block is open. -/
theorem IsFresh.isOpen (h : f.IsFresh b) : f.IsOpen b := by
  refine ⟨h.lt_size, Option.eq_none_iff_forall_not_mem.mpr fun i hi => ?_⟩
  have hlast := lt_length_of_instrAt? (terminator?_eq_some.mp hi).1
  rw [h.length] at hlast
  exact Nat.not_lt_zero _ hlast

/-- The function with an instruction appended to a block. -/
def push (f : Function) (b : BlockId) (i : Instruction) (location : Location) : Function :=
  { f with
    blocks := f.blocks.modify b fun block => { block with instrs := block.instrs ++ [f.slots.size] }
    slots := f.slots.push { instr := i, owner := some b, location := location } }

/-- The function with an edge, recorded at both its ends. -/
def join (f : Function) (src dst : BlockId) : Function :=
  if dst ∈ f.succsOf src then f
  else
    (f.modifyBlock src fun block => { block with succs := block.succs ++ [dst] }).modifyBlock dst
      fun block => { block with preds := block.preds ++ [src] }

/-- The function with edges from a block to several others. -/
def joinAll (f : Function) (src : BlockId) (dsts : List BlockId) : Function :=
  dsts.foldl (fun f t => f.join src t) f

/-- The function with a terminator appended to a block, and its edges. -/
def close (f : Function) (b : BlockId) (i : Instruction) (location : Location) : Function :=
  (f.push b i location).joinAll b i.targets

/-- The function with a new empty block. -/
def extend (f : Function) (name : Option String) : Function :=
  { f with blocks := f.blocks.push { id := f.blocks.size, name := name } }

/-- The function with one more local slot. -/
def widen (f : Function) : Function :=
  { f with numLocals := f.numLocals + 1 }

/-! ## Where code agrees -/

/-- **Two functions have the same code at a block.** -/
structure AgreeAt (f g : Function) (b : BlockId) : Prop where
  length : f.length b = g.length b
  instrAt? : ∀ k, f.instrAt? b k = g.instrAt? b k

/-- A function agrees with itself. -/
theorem AgreeAt.refl (f : Function) (b : BlockId) : AgreeAt f f b := ⟨rfl, fun _ => rfl⟩

/-- Agreement carries over. -/
theorem AgreeAt.trans {h : Function} (hfg : AgreeAt f g b) (hgh : AgreeAt g h b) :
    AgreeAt f h b :=
  ⟨hfg.length.trans hgh.length, fun k => (hfg.instrAt? k).trans (hgh.instrAt? k)⟩

/-- Where two functions agree they have the same terminator. -/
theorem AgreeAt.terminator? (h : AgreeAt f g b) : f.terminator? b = g.terminator? b := by
  refine Option.ext fun i => ?_
  rw [terminator?_eq_some, terminator?_eq_some, h.length, h.instrAt?]

/-- Where two functions agree they lead to the same blocks. -/
theorem AgreeAt.targetsOf (h : AgreeAt f g b) : f.targetsOf b = g.targetsOf b := by
  rw [Function.targetsOf, Function.targetsOf, h.terminator?]

/-- Functions that agree at every block hold each other's code. -/
theorem holds_of_agreeAt (h : ∀ b, AgreeAt f g b) : f.Holds g := by
  intro b k i hi
  rw [(h b).instrAt?]
  exact hi

/-- Code agrees where a block lists the same places and these hold the same. -/
theorem agreeAt_of_instrs
    (hinstrs : (f.blocks[b]?).map Block.instrs = (g.blocks[b]?).map Block.instrs)
    (hslots : ∀ (block : Block), g.blocks[b]? = some block → ∀ id ∈ block.instrs,
      f.slots[id]? = g.slots[id]?) : AgreeAt f g b := by
  cases hg : g.blocks[b]? with
  | none =>
    have hf : f.blocks[b]? = none := by
      simpa [hg] using hinstrs
    exact ⟨by simp [length, hf, hg], fun k => by simp [instrAt?, hf, hg]⟩
  | some block =>
    obtain ⟨block', hf, heq⟩ : ∃ block', f.blocks[b]? = some block' ∧ block'.instrs = block.instrs := by
      simpa [hg] using hinstrs
    refine ⟨by rw [length_of_block hf, length_of_block hg, heq], fun k => ?_⟩
    rw [instrAt?_of_block hf, instrAt?_of_block hg, heq]
    cases hid : block.instrs[k]? with
    | none => rfl
    | some id =>
      simp only [Option.bind_some]
      rw [hslots block hg id (List.mem_of_getElem? hid)]

/-! ## Appending an instruction -/

/-- Pushing an instruction changes the list of one block. -/
theorem blocks_push (f : Function) (b c : BlockId) (i : Instruction) (location : Location) :
    (f.push b i location).blocks[c]? =
      if b = c then (f.blocks[c]?).map fun block =>
        { block with instrs := block.instrs ++ [f.slots.size] }
      else f.blocks[c]? := by
  simp only [push, Array.getElem?_modify]

@[simp] theorem size_push (f : Function) (b : BlockId) (i : Instruction) (location : Location) :
    (f.push b i location).blocks.size = f.blocks.size := by
  simp [push]

/-- The instructions before stay where they are in the arena. -/
theorem slots_push_of_lt {id : InstrId} (hid : id < f.slots.size) :
    (f.push b i location).slots[id]? = f.slots[id]? := by
  simp only [push, Array.getElem?_push]
  rw [if_neg (Nat.ne_of_lt hid)]

/-- The new instruction is the last of the arena. -/
theorem slots_push_size : (f.push b i location).slots[f.slots.size]? =
    some { instr := i, owner := some b, location := location } := by
  simp [push]

/-- A listed instruction is in the arena. -/
theorem Drafted.lt_slots (hf : f.Drafted) {block : Block} (hb : f.blocks[b]? = some block)
    {id : InstrId} (hid : id ∈ block.instrs) : id < f.slots.size := by
  obtain ⟨slot, hslot, -⟩ := hf.owned b block hb id hid
  exact (Array.getElem?_eq_some_iff.mp hslot).1

/-- A block that is not appended to keeps its code. -/
theorem agreeAt_push (hf : f.Drafted) (hc : c ≠ b) : AgreeAt (f.push b i location) f c := by
  refine agreeAt_of_instrs ?_ fun block hblock id hid => slots_push_of_lt (hf.lt_slots hblock hid)
  rw [blocks_push, if_neg (Ne.symm hc)]

/-- A pushed instruction makes its block one longer. -/
theorem length_push (hb : b < f.blocks.size) :
    (f.push b i location).length b = f.length b + 1 := by
  obtain ⟨block, hblock⟩ := exists_block hb
  have hpush : (f.push b i location).blocks[b]? =
      some { block with instrs := block.instrs ++ [f.slots.size] } := by
    rw [blocks_push, if_pos rfl, hblock]
    rfl
  rw [length_of_block hpush, length_of_block hblock, List.length_append]
  rfl

/-- The block that is appended to keeps its code, and gets the instruction after
it. -/
theorem instrAt?_push (hf : f.Drafted) (hb : b < f.blocks.size) (k : Nat) :
    (f.push b i location).instrAt? b k =
      if k = f.length b then some i else f.instrAt? b k := by
  obtain ⟨block, hblock⟩ := exists_block hb
  have hpush : (f.push b i location).blocks[b]? =
      some { block with instrs := block.instrs ++ [f.slots.size] } := by
    rw [blocks_push, if_pos rfl, hblock]
    rfl
  rw [instrAt?_of_block hpush, instrAt?_of_block hblock, length_of_block hblock]
  rcases Nat.lt_trichotomy k block.instrs.length with hk | rfl | hk
  · simp only [List.getElem?_append_left hk, if_neg (Nat.ne_of_lt hk),
      List.getElem?_eq_getElem hk, Option.bind_some]
    rw [slots_push_of_lt (hf.lt_slots hblock (List.getElem_mem hk))]
  · simp [slots_push_size]
  · rw [if_neg (by omega), List.getElem?_eq_none (by simp; omega),
      List.getElem?_eq_none (by omega)]
    rfl

/-- **Pushing keeps the code** that was there. -/
theorem holds_push (hf : f.Drafted) (hb : b < f.blocks.size) : (f.push b i location).Holds f := by
  intro c k j hj
  by_cases hc : c = b
  · subst hc
    rw [instrAt?_push hf hb, if_neg (Nat.ne_of_lt (lt_length_of_instrAt? hj))]
    exact hj
  · rw [(agreeAt_push hf hc).instrAt?]
    exact hj

/-- What was appended last ends the block if it is a terminator. -/
theorem terminator?_push (hf : f.Drafted) (hb : b < f.blocks.size) :
    (f.push b i location).terminator? b = if i.isTerminator then some i else none := by
  have hlast : (f.push b i location).instrAt? b ((f.push b i location).length b - 1) = some i := by
    rw [length_push hb, instrAt?_push hf hb, if_pos (by omega)]
  refine Option.ext fun j => ?_
  rw [terminator?_eq_some, hlast]
  by_cases hi : i.isTerminator = true
  · simp only [hi, if_true, Option.some.injEq]
    constructor
    · exact fun h => h.1
    · rintro rfl
      exact ⟨rfl, hi⟩
  · simp only [hi, Bool.false_eq_true, if_false, Option.some.injEq, reduceCtorEq, iff_false]
    rintro ⟨rfl, hj⟩
    exact hi hj

/-- Pushing does not touch edges. -/
theorem succsOf_push (f : Function) (b c : BlockId) (i : Instruction) (location : Location) :
    (f.push b i location).succsOf c = f.succsOf c := by
  unfold succsOf
  rw [blocks_push]
  by_cases h : b = c
  · rw [if_pos h]
    cases f.blocks[c]? <;> rfl
  · rw [if_neg h]

/-- Pushing does not touch back-edges. -/
theorem predsOf_push (f : Function) (b c : BlockId) (i : Instruction) (location : Location) :
    (f.push b i location).predsOf c = f.predsOf c := by
  unfold predsOf
  rw [blocks_push]
  by_cases h : b = c
  · rw [if_pos h]
    cases f.blocks[c]? <;> rfl
  · rw [if_neg h]

/-- Pushing leaves the blocks their numbers. -/
theorem numbered_push (hf : f.Numbered) : (f.push b i location).Numbered := by
  intro c block hc
  rw [blocks_push] at hc
  split at hc
  · obtain ⟨old, hold, rfl⟩ := Option.map_eq_some_iff.mp hc
    exact hf c old hold
  · exact hf c block hc

/-- The instructions of a block still belong to it, the new one included. -/
theorem owned_push (hf : f.Drafted) (c : BlockId) (block : Block)
    (hc : (f.push b i location).blocks[c]? = some block) (id : InstrId) (hid : id ∈ block.instrs) :
    ∃ slot, (f.push b i location).slots[id]? = some slot ∧ slot.owner = some c := by
  have hkeep : ∀ old : Block, f.blocks[c]? = some old → id ∈ old.instrs →
      ∃ slot, (f.push b i location).slots[id]? = some slot ∧ slot.owner = some c := by
    intro old hold hmem
    rw [slots_push_of_lt (hf.lt_slots hold hmem)]
    exact hf.owned c old hold id hmem
  rw [blocks_push] at hc
  split at hc
  · rename_i heq
    obtain ⟨old, hold, rfl⟩ := Option.map_eq_some_iff.mp hc
    rcases List.mem_append.mp hid with hmem | hmem
    · exact hkeep old hold hmem
    · rw [List.mem_singleton.mp hmem, slots_push_size]
      exact ⟨_, rfl, congrArg some heq⟩
  · exact hkeep block hc hid

/-- An instruction of the longer code was there before, or was appended. -/
theorem instrAt?_push_cases (hf : f.Drafted) (hb : b < f.blocks.size) {k : Nat} {j : Instruction}
    (hj : (f.push b i location).instrAt? c k = some j) :
    f.instrAt? c k = some j ∨ c = b ∧ k = f.length b ∧ j = i := by
  by_cases hc : c = b
  · subst hc
    rw [instrAt?_push hf hb] at hj
    split at hj
    · exact .inr ⟨rfl, by assumption, (Option.some.inj hj).symm⟩
    · exact .inl hj
  · rw [(agreeAt_push hf hc).instrAt?] at hj
    exact .inl hj

/-- A terminator is still the last of its block. -/
theorem early_push (hf : f.Drafted) (hopen : f.IsOpen b) {k : Nat} {j : Instruction}
    (hj : (f.push b i location).instrAt? c k = some j) (hterm : j.isTerminator = true) :
    k + 1 = (f.push b i location).length c := by
  rcases instrAt?_push_cases hf hopen.lt_size hj with hold | ⟨rfl, rfl, rfl⟩
  · have hk := hf.early c k j hold hterm
    by_cases hc : c = b
    · -- the block was open, so it had no terminator to begin with
      subst hc
      have hclosed : f.terminator? c = some j :=
        terminator?_eq_some.mpr ⟨by rw [← hk]; exact hold, hterm⟩
      rw [hopen.terminator?] at hclosed
      cases hclosed
    · rw [(agreeAt_push hf hc).length]
      exact hk
  · rw [length_push hopen.lt_size]

/-- No instruction touches a slot that is not there. -/
theorem locals_push (hf : f.Drafted) (hb : b < f.blocks.size)
    (hi : ∀ l ∈ i.locals, l < f.numLocals) {k : Nat} {j : Instruction}
    (hj : (f.push b i location).instrAt? c k = some j) :
    ∀ l ∈ j.locals, l < (f.push b i location).numLocals := by
  rcases instrAt?_push_cases hf hb hj with hold | ⟨-, -, rfl⟩
  · exact hf.locals c k j hold
  · exact hi

/-- **An instruction that is no terminator may be appended to an open block.** -/
theorem drafted_push (hf : f.Drafted) (hopen : f.IsOpen b) (hterm : i.isTerminator = false)
    (hi : ∀ l ∈ i.locals, l < f.numLocals) : (f.push b i location).Drafted where
  numbered := numbered_push hf.numbered
  owned := owned_push hf
  early _ _ _ hj := early_push hf hopen hj
  locals _ _ _ hj := locals_push hf hopen.lt_size hi hj
  taken c t := by
    rw [succsOf_push, hf.taken]
    by_cases hc : c = b
    · subst hc
      rw [targetsOf, targetsOf, terminator?_push hf hopen.lt_size, hterm, hopen.terminator?]
      rfl
    · rw [(agreeAt_push hf hc).targetsOf]
  paired c t := by rw [predsOf_push, succsOf_push, hf.paired]

/-- A block stays open under an instruction that is no terminator. -/
theorem isOpen_push (hf : f.Drafted) (hopen : f.IsOpen b) (hterm : i.isTerminator = false) :
    (f.push b i location).IsOpen b := by
  refine ⟨by rw [size_push]; exact hopen.lt_size, ?_⟩
  rw [terminator?_push hf hopen.lt_size, hterm]
  rfl

/-! ## Edges -/

/-- A change of one block is seen there, and nowhere else. -/
theorem blocks_modifyBlock (f : Function) (b c : BlockId) (g : Block → Block) :
    (f.modifyBlock b g).blocks[c]? =
      if b = c then (f.blocks[c]?).map g else f.blocks[c]? := by
  simp only [modifyBlock, Array.getElem?_modify]

/-- An edge that is there is not recorded again. -/
theorem join_of_mem {src dst : BlockId} (h : dst ∈ f.succsOf src) : f.join src dst = f :=
  if_pos h

/-- Joining two blocks adds one edge, if it was not there. -/
theorem mem_succsOf_join {src dst : BlockId} (hsrc : src < f.blocks.size) (c t : BlockId) :
    t ∈ (f.join src dst).succsOf c ↔ t ∈ f.succsOf c ∨ c = src ∧ t = dst := by
  unfold join
  split
  · rename_i hmem
    constructor
    · exact .inl
    · rintro (ht | ⟨rfl, rfl⟩)
      · exact ht
      · exact hmem
  · obtain ⟨block, hblock⟩ := exists_block hsrc
    unfold succsOf
    rw [blocks_modifyBlock, blocks_modifyBlock]
    by_cases hc : src = c
    · subst hc
      by_cases hd : dst = src <;> simp [hd, hblock]
    · have hc' : c ≠ src := Ne.symm hc
      by_cases hd : dst = c
      · cases f.blocks[c]? <;> simp [hc, hc', hd]
      · simp [hc, hc', hd]

/-- Joining two blocks adds one back-edge, if it was not there. -/
theorem mem_predsOf_join {src dst : BlockId} (hdst : dst < f.blocks.size)
    (hpaired : ∀ b t, b ∈ f.predsOf t ↔ t ∈ f.succsOf b) (c t : BlockId) :
    c ∈ (f.join src dst).predsOf t ↔ c ∈ f.predsOf t ∨ c = src ∧ t = dst := by
  unfold join
  split
  · rename_i hmem
    constructor
    · exact .inl
    · rintro (ht | ⟨rfl, rfl⟩)
      · exact ht
      · exact (hpaired c t).mpr hmem
  · obtain ⟨block, hblock⟩ := exists_block hdst
    unfold predsOf
    rw [blocks_modifyBlock, blocks_modifyBlock]
    by_cases hd : dst = t
    · subst hd
      by_cases hc : src = dst <;> simp [hc, hblock]
    · have hd' : t ≠ dst := Ne.symm hd
      by_cases hc : src = t
      · cases f.blocks[t]? <;> simp [hc, hd, hd']
      · simp [hc, hd, hd']

/-- **What edges change and what not**: the edges from one block to some others
are recorded, all code stays. -/
structure Joined (f g : Function) (src : BlockId) (dsts : List BlockId) : Prop where
  name : g.name = f.name
  params : g.params = f.params
  size : g.blocks.size = f.blocks.size
  slots : g.slots = f.slots
  numLocals : g.numLocals = f.numLocals
  listed : ∀ (c : BlockId), (g.blocks[c]?).map (fun block => (block.id, block.instrs)) =
    (f.blocks[c]?).map fun block => (block.id, block.instrs)
  succs : ∀ c t, t ∈ g.succsOf c ↔ t ∈ f.succsOf c ∨ c = src ∧ t ∈ dsts
  preds : ∀ c t, c ∈ g.predsOf t ↔ c ∈ f.predsOf t ∨ c = src ∧ t ∈ dsts

@[simp] theorem size_join (f : Function) (src dst : BlockId) :
    (f.join src dst).blocks.size = f.blocks.size := by
  unfold join
  split
  · rfl
  · simp [modifyBlock]

/-- Joining adds an edge to one block. -/
theorem joined_join (hpaired : ∀ b t, b ∈ f.predsOf t ↔ t ∈ f.succsOf b) {src dst : BlockId}
    (hsrc : src < f.blocks.size) (hdst : dst < f.blocks.size) :
    Joined f (f.join src dst) src [dst] := by
  refine ⟨?_, ?_, size_join f src dst, ?_, ?_, fun c => ?_, fun c t => ?_, fun c t => ?_⟩
  · unfold join
    split <;> rfl
  · unfold join
    split <;> rfl
  · unfold join
    split <;> rfl
  · unfold join
    split <;> rfl
  · unfold join
    split
    · rfl
    · rw [blocks_modifyBlock, blocks_modifyBlock]
      by_cases hs : src = c <;> by_cases hd : dst = c <;> cases f.blocks[c]? <;> simp [hs, hd]
  · rw [mem_succsOf_join hsrc, List.mem_singleton]
  · rw [mem_predsOf_join hdst hpaired, List.mem_singleton]

/-- Edges and back-edges still match after joining. -/
theorem Joined.paired {src : BlockId} {dsts : List BlockId} (h : Joined f g src dsts)
    (hpaired : ∀ b t, b ∈ f.predsOf t ↔ t ∈ f.succsOf b) (b t : BlockId) :
    b ∈ g.predsOf t ↔ t ∈ g.succsOf b := by
  rw [h.preds, h.succs, hpaired]

/-- Joining to several blocks adds an edge to each. -/
theorem joined_joinAll {src : BlockId} : ∀ (dsts : List BlockId) (f : Function),
    (∀ b t, b ∈ f.predsOf t ↔ t ∈ f.succsOf b) → src < f.blocks.size →
    (∀ t ∈ dsts, t < f.blocks.size) → Joined f (f.joinAll src dsts) src dsts := by
  intro dsts
  induction dsts with
  | nil =>
    intro f _ _ _
    exact ⟨rfl, rfl, rfl, rfl, rfl, fun _ => rfl, fun c t => by simp [joinAll],
      fun c t => by simp [joinAll]⟩
  | cons dst rest ih =>
    intro f hpaired hsrc hdsts
    have hone := joined_join hpaired hsrc (hdsts dst List.mem_cons_self)
    have hrest := ih (f.join src dst) (hone.paired hpaired) (hone.size ▸ hsrc)
      fun t ht => hone.size ▸ hdsts t (List.mem_cons_of_mem _ ht)
    refine ⟨hrest.name.trans hone.name, hrest.params.trans hone.params,
      hrest.size.trans hone.size, hrest.slots.trans hone.slots,
      hrest.numLocals.trans hone.numLocals, fun c => (hrest.listed c).trans (hone.listed c),
      fun c t => ?_, fun c t => ?_⟩
    · change t ∈ ((f.join src dst).joinAll src rest).succsOf c ↔ _
      rw [hrest.succs, hone.succs, List.mem_singleton, List.mem_cons, or_assoc, and_or_left]
    · change c ∈ ((f.join src dst).joinAll src rest).predsOf t ↔ _
      rw [hrest.preds, hone.preds, List.mem_singleton, List.mem_cons, or_assoc, and_or_left]

/-- Joining does not touch code. -/
theorem Joined.agreeAt {src : BlockId} {dsts : List BlockId} (h : Joined f g src dsts)
    (c : BlockId) : AgreeAt g f c := by
  refine agreeAt_of_instrs ?_ fun _ _ _ _ => by rw [h.slots]
  have := congrArg (Option.map Prod.snd) (h.listed c)
  simpa [Option.map_map, Function.comp_def] using this

/-- A listed block of the one is one of the other. -/
theorem Joined.block {src : BlockId} {dsts : List BlockId} (h : Joined f g src dsts)
    {c : BlockId} {block : Block} (hb : g.blocks[c]? = some block) :
    ∃ old, f.blocks[c]? = some old ∧ old.id = block.id ∧ old.instrs = block.instrs := by
  have hlisted := h.listed c
  rw [hb] at hlisted
  obtain ⟨old, hold, heq⟩ := Option.map_eq_some_iff.mp hlisted.symm
  exact ⟨old, hold, (Prod.mk.inj heq).1, (Prod.mk.inj heq).2⟩

/-! ## Closing a block -/

section Close

variable (hf : f.Drafted) (hopen : f.IsOpen b) (htargets : ∀ t ∈ i.targets, t < f.blocks.size)
include hf hopen htargets

/-- Closing a block adds edges to the targets of its terminator. -/
theorem joined_close : Joined (f.push b i location) (f.close b i location) b i.targets := by
  refine joined_joinAll i.targets (f.push b i location) (fun c t => ?_) ?_ fun t ht => ?_
  · rw [predsOf_push, succsOf_push, hf.paired]
  · rw [size_push]
    exact hopen.lt_size
  · rw [size_push]
    exact htargets t ht

/-- Closing a block adds none. -/
theorem size_close : (f.close b i location).blocks.size = f.blocks.size :=
  (joined_close hf hopen htargets).size.trans (size_push ..)

/-- Closing a block leaves the others alone. -/
theorem agreeAt_close (hc : c ≠ b) : AgreeAt (f.close b i location) f c :=
  ((joined_close hf hopen htargets).agreeAt c).trans (agreeAt_push hf hc)

/-- Closing a block keeps the code that was there. -/
theorem holds_close : (f.close b i location).Holds f :=
  (holds_of_agreeAt (joined_close hf hopen htargets).agreeAt).trans (holds_push hf hopen.lt_size)

/-- The terminator stands behind the code that was there. -/
theorem instrAt?_close : (f.close b i location).instrAt? b (f.length b) = some i := by
  rw [((joined_close hf hopen htargets).agreeAt b).instrAt?, instrAt?_push hf hopen.lt_size,
    if_pos rfl]

/-- A closed block ends with its terminator. -/
theorem terminator?_close (hterm : i.isTerminator = true) :
    (f.close b i location).terminator? b = some i := by
  rw [((joined_close hf hopen htargets).agreeAt b).terminator?, terminator?_push hf hopen.lt_size,
    hterm]
  rfl

/-- **A terminator may be appended to an open block, with its edges.** -/
theorem drafted_close (hterm : i.isTerminator = true) (hi : ∀ l ∈ i.locals, l < f.numLocals) :
    (f.close b i location).Drafted := by
  have hj : Joined (f.push b i location) (f.close b i location) b i.targets :=
    joined_close hf hopen htargets
  refine ⟨fun c block hc => ?_, fun c block hc id hid => ?_, fun c k j hcode => ?_,
    fun c k j hcode => ?_, fun c t => ?_, fun c t => ?_⟩
  · obtain ⟨old, hold, hid, -⟩ := hj.block hc
    rw [← hid]
    exact numbered_push hf.numbered c old hold
  · obtain ⟨old, hold, -, hinstrs⟩ := hj.block hc
    rw [hj.slots]
    exact owned_push hf c old hold id (hinstrs ▸ hid)
  · rw [(hj.agreeAt c).instrAt?] at hcode
    rw [(hj.agreeAt c).length]
    exact early_push hf hopen hcode
  · rw [(hj.agreeAt c).instrAt?] at hcode
    rw [hj.numLocals]
    exact locals_push hf hopen.lt_size hi hcode
  · rw [hj.succs, succsOf_push, hf.taken]
    by_cases hc : c = b
    · -- the block was open, so it led nowhere before
      subst hc
      rw [targetsOf, targetsOf, terminator?_close hf hopen htargets hterm, hopen.terminator?]
      simp
    · rw [(agreeAt_close hf hopen htargets hc).targetsOf]
      simp [hc]
  · exact hj.paired (fun c t => by rw [predsOf_push, succsOf_push, hf.paired]) c t

end Close

/-! ## New blocks and local slots -/

/-- A new block is the last one, and it is empty. -/
theorem blocks_extend (f : Function) (name : Option String) (c : BlockId) :
    (f.extend name).blocks[c]? =
      if c = f.blocks.size then some { id := f.blocks.size, name := name } else f.blocks[c]? := by
  simp only [extend, Array.getElem?_push]

@[simp] theorem size_extend (f : Function) (name : Option String) :
    (f.extend name).blocks.size = f.blocks.size + 1 := by
  simp [extend]

/-- A new block does not change code. -/
theorem agreeAt_extend (f : Function) (name : Option String) (c : BlockId) :
    AgreeAt (f.extend name) f c := by
  by_cases hc : c = f.blocks.size
  · -- a new block is empty, like one that is not there
    have hnew : (f.extend name).blocks[c]? = some { id := f.blocks.size, name := name } := by
      rw [blocks_extend, if_pos hc]
    have hold : f.blocks[c]? = none := by
      rw [hc]
      simp
    exact ⟨by simp [length, hnew, hold], fun k => by simp [instrAt?, hnew, hold]⟩
  · refine agreeAt_of_instrs ?_ fun _ _ _ _ => rfl
    rw [blocks_extend, if_neg hc]

/-- A new block has no edges, and the others keep theirs. -/
theorem succsOf_extend (f : Function) (name : Option String) (c : BlockId) :
    (f.extend name).succsOf c = f.succsOf c := by
  unfold succsOf
  rw [blocks_extend]
  by_cases hc : c = f.blocks.size
  · simp [hc]
  · rw [if_neg hc]

/-- A new block has no back-edges, and the others keep theirs. -/
theorem predsOf_extend (f : Function) (name : Option String) (c : BlockId) :
    (f.extend name).predsOf c = f.predsOf c := by
  unfold predsOf
  rw [blocks_extend]
  by_cases hc : c = f.blocks.size
  · simp [hc]
  · rw [if_neg hc]

/-- Code stays drafted with a new block. -/
theorem drafted_extend (hf : f.Drafted) (name : Option String) : (f.extend name).Drafted := by
  have hagree := agreeAt_extend f name
  refine ⟨fun c block hc => ?_, fun c block hc id hid => ?_, fun c k j hcode => ?_,
    fun c k j hcode => ?_, fun c t => ?_, fun c t => ?_⟩
  · rw [blocks_extend] at hc
    split at hc
    · cases hc
      exact Eq.symm (by assumption)
    · exact hf.numbered c block hc
  · rw [blocks_extend] at hc
    split at hc
    · cases hc
      cases hid
    · exact hf.owned c block hc id hid
  · rw [(hagree c).instrAt?] at hcode
    rw [(hagree c).length]
    exact hf.early c k j hcode
  · rw [(hagree c).instrAt?] at hcode
    exact hf.locals c k j hcode
  · rw [succsOf_extend, (hagree c).targetsOf, hf.taken]
  · rw [predsOf_extend, succsOf_extend, hf.paired]

/-- A new block lists nothing. -/
theorem isFresh_extend_new (f : Function) (name : Option String) :
    (f.extend name).IsFresh f.blocks.size := by
  refine ⟨by simp, ?_⟩
  rw [(agreeAt_extend f name _).length]
  simp [length]

/-- An empty block stays so with a new one. -/
theorem IsFresh.extend (h : f.IsFresh b) (name : Option String) : (f.extend name).IsFresh b :=
  ⟨by rw [size_extend]; exact Nat.lt_succ_of_lt h.lt_size,
    (agreeAt_extend f name b).length.trans h.length⟩

/-- An open block stays so with a new one. -/
theorem IsOpen.extend (h : f.IsOpen b) (name : Option String) : (f.extend name).IsOpen b :=
  ⟨by rw [size_extend]; exact Nat.lt_succ_of_lt h.lt_size,
    (agreeAt_extend f name b).terminator?.trans h.terminator?⟩

/-- Any other open block was open before. -/
theorem IsOpen.of_extend {name : Option String} (h : (f.extend name).IsOpen b)
    (hne : b ≠ f.blocks.size) : f.IsOpen b := by
  have hlt := h.lt_size
  rw [size_extend] at hlt
  exact ⟨Nat.lt_of_le_of_ne (Nat.le_of_lt_succ hlt) hne,
    (agreeAt_extend f name b).terminator?.symm.trans h.terminator?⟩

/-- An open block stays so with a new slot. -/
theorem IsOpen.widen (h : f.IsOpen b) : f.widen.IsOpen b := ⟨h.lt_size, h.terminator?⟩

/-- A new slot does not change code. -/
theorem agreeAt_widen (f : Function) (c : BlockId) : AgreeAt f.widen f c := ⟨rfl, fun _ => rfl⟩

/-- Code stays drafted with a new slot. -/
theorem drafted_widen (hf : f.Drafted) : f.widen.Drafted where
  numbered := hf.numbered
  owned := hf.owned
  early := hf.early
  locals b k i hi l hl := Nat.lt_succ_of_lt (hf.locals b k i hi l hl)
  taken := hf.taken
  paired := hf.paired

/-- **An empty function is drafted.** -/
theorem drafted_empty (name : String) (params : List String) :
    (Function.empty name params).Drafted := by
  have hblock : ∀ (c : BlockId) (block : Block),
      (Function.empty name params).blocks[c]? = some block →
      c = 0 ∧ block = { id := 0, name := some "entry" } := by
    intro c block hc
    cases c with
    | zero =>
      cases hc
      exact ⟨rfl, rfl⟩
    | succ c => cases hc
  have hcode : ∀ c k i, (Function.empty name params).instrAt? c k ≠ some i := by
    intro c k i hi
    obtain ⟨block, id, slot, -, -, hslot, -⟩ := instrAt?_eq_some.mp hi
    cases hslot
  have hsuccs : ∀ c, (Function.empty name params).succsOf c = [] := by
    intro c
    cases c <;> rfl
  have hpreds : ∀ c, (Function.empty name params).predsOf c = [] := by
    intro c
    cases c <;> rfl
  have htargets : ∀ c, (Function.empty name params).targetsOf c = [] := by
    intro c
    cases c <;> rfl
  refine ⟨fun c block hc => ?_, fun c block hc id hid => ?_, fun c k i hi => absurd hi (hcode c k i),
    fun c k i hi => absurd hi (hcode c k i), fun c t => ?_, fun c t => ?_⟩
  · obtain ⟨rfl, rfl⟩ := hblock c block hc
    rfl
  · obtain ⟨rfl, rfl⟩ := hblock c block hc
    cases hid
  · rw [hsuccs, htargets]
  · rw [hpreds, hsuccs]
    simp

/-- The entry of an empty function is open. -/
theorem isOpen_empty (name : String) (params : List String) :
    (Function.empty name params).IsOpen 0 := ⟨by simp [Function.empty], rfl⟩

/-! ## Finished code -/

/-- **Drafted code passes the check once no block is open.** -/
theorem check_of_drafted (hf : f.Drafted) (hclosed : ∀ b, ¬ f.IsOpen b) : f.check = .ok () := by
  refine check_eq_ok_iff.mpr fun b block hb => ?_
  have hid : block.id = b := hf.numbered b block hb
  have hsuccs : f.succsOf b = block.succs := by simp [succsOf, hb]
  have hpreds : f.predsOf b = block.preds := by simp [predsOf, hb]
  have hfar : ∀ s, b ∈ f.predsOf s → ∃ far, f.blocks[s]? = some far ∧ b ∈ far.preds := by
    intro s hs
    unfold predsOf at hs
    split at hs
    · exact ⟨_, by assumption, hs⟩
    · cases hs
  have hnear : ∀ s, b ∈ f.succsOf s → ∃ far, f.blocks[s]? = some far ∧ b ∈ far.succs := by
    intro s hs
    unfold succsOf at hs
    split at hs
    · exact ⟨_, by assumption, hs⟩
    · cases hs
  -- the block is not open, so it ends with a terminator
  obtain ⟨i, hi⟩ : ∃ i, f.terminator? b = some i := by
    cases hnone : f.terminator? b with
    | none => exact absurd ⟨lt_size_of_block hb, hnone⟩ (hclosed b)
    | some i => exact ⟨i, rfl⟩
  obtain ⟨hlast, hterm⟩ := terminator?_eq_some.mp hi
  have hpos : 0 < block.instrs.length := by
    have := lt_length_of_instrAt? hlast
    rw [length_of_block hb] at this
    omega
  refine ⟨List.ne_nil_of_length_pos hpos, fun k id hk => ?_, ?_, ?_, ?_, ?_⟩
  · obtain ⟨slot, hslot, howner⟩ := hf.owned b block hb id (List.mem_of_getElem? hk)
    have hcode : f.instrAt? b k = some slot.instr :=
      instrAt?_eq_some.mpr ⟨block, id, slot, hb, hk, hslot, rfl⟩
    rw [hid]
    refine ⟨slot, hslot, howner, ?_, hf.locals b k _ hcode⟩
    rw [← length_of_block hb, Bool.eq_iff_iff, beq_iff_eq]
    -- drafted code has no terminator before the end of a block
    refine ⟨hf.early b k _ hcode, fun hk' => ?_⟩
    rw [← hk', Nat.add_sub_cancel, hcode] at hlast
    rw [Option.some.inj hlast]
    exact hterm
  · intro t ht
    rw [hid, ← hf.taken, hsuccs] at ht
    obtain ⟨far, hfar', -⟩ := hfar t ((hf.paired b t).mpr (hsuccs ▸ ht))
    exact ⟨lt_size_of_block hfar', ht⟩
  · intro t ht
    rw [hid, ← hf.taken, hsuccs]
    exact ht
  · intro t ht
    rw [hid]
    exact hfar t ((hf.paired b t).mpr (hsuccs ▸ ht))
  · intro q hq
    rw [hid]
    exact hnear q ((hf.paired q b).mp (hpreds ▸ hq))

end Function

end BlockIR
