import BlockIR.Proofs.Function.Ownership
import BlockIR.Proofs.Function.Edges
/-!
# What a check of a function comes to

The check asks more of a block than its instructions and edges: that the block
owns what it lists, and that edges are known at both their ends. In a function
that edits and emissions reach these two always hold, so the check decides just
whether every block is `WellFormed`. When it fails it reports a `Fault` that the
function has, and detached instructions have no part in either.
-/

namespace BlockIR

namespace Function

open Success

variable {f g : Function} {b : BlockId} {block : Block} {i : InstrId} {e : StructureError}

/-- **A block that control can enter and leave**: it ends in its only terminator,
its instructions touch local slots that exist, and its successors are the targets
of its terminator, all of them blocks that exist. -/
structure WellFormed (f : Function) (block : Block) : Prop where
  nonempty : block.instrs ≠ []
  terminator : ∀ k i, block.instrs[k]? = some i →
    ∃ instr, f.instr i = .ok instr ∧ (instr.isTerminator = true ↔ k + 1 = block.instrs.length)
  locals : ∀ i ∈ block.instrs, ∀ instr, f.instr i = .ok instr →
    ∀ l ∈ instr.locals, l < f.numLocals
  edges : ∀ i instr, block.instrs.getLast? = some i → f.instr i = .ok instr →
    (∀ t, t ∈ block.succs ↔ t ∈ instr.targets) ∧ ∀ t ∈ instr.targets, ∃ far, f.block t = .ok far

/-- **What can be wrong with a block**, and the error that reports it. -/
inductive Fault (f : Function) (block : Block) : StructureError → Prop
  | empty : block.instrs = [] → Fault f block (f.flawed block.id .empty)
  | unterminated {k : Nat} {i : InstrId} {instr : Instruction} : block.instrs[k]? = some i →
      f.instr i = .ok instr → k + 1 = block.instrs.length → instr.isTerminator = false →
      Fault f block (f.flawed block.id .unterminated)
  | earlyTerminator {k : Nat} {i : InstrId} {instr : Instruction} : block.instrs[k]? = some i →
      f.instr i = .ok instr → k + 1 ≠ block.instrs.length → instr.isTerminator = true →
      Fault f block (f.flawed block.id (.earlyTerminator i))
  | localOutOfRange {i : InstrId} {instr : Instruction} {l : LocalId} : i ∈ block.instrs →
      f.instr i = .ok instr → l ∈ instr.locals → f.numLocals ≤ l →
      Fault f block (f.flawed block.id (.localOutOfRange l f.numLocals))
  | unknownTarget {i : InstrId} {instr : Instruction} {t : BlockId} :
      block.instrs.getLast? = some i → f.instr i = .ok instr → t ∈ instr.targets →
      f.blocks.size ≤ t → Fault f block (.unknownBlock t)
  | missingEdge {i : InstrId} {instr : Instruction} {t : BlockId} :
      block.instrs.getLast? = some i → f.instr i = .ok instr → t ∈ instr.targets →
      t ∉ block.succs → Fault f block (f.flawed block.id (.missingEdge t))
  | untakenEdge {i : InstrId} {instr : Instruction} {s : BlockId} :
      block.instrs.getLast? = some i → f.instr i = .ok instr → s ∈ block.succs →
      s ∉ instr.targets → Fault f block (f.flawed block.id (.untakenEdge s))

theorem instr_eq_ok {instr : Instruction} :
    f.instr i = .ok instr ↔ ∃ slot, f.slots[i]? = some slot ∧ slot.instr = instr := by
  simp only [Function.instr, bind_eq_ok, slot_eq_ok, pure_eq_ok]

/-! ## What always holds of the records -/

/-- A listed instruction is in the arena, where it belongs to the block that lists
it. -/
theorem SingleOwned.exists_slot (h : f.SingleOwned) (hb : f.blocks[b]? = some block)
    (hi : i ∈ block.instrs) : ∃ slot, f.slots[i]? = some slot ∧ slot.owner = some b := by
  rw [← idsOf_of_block hb, h.mem_iff] at hi
  exact Option.bind_eq_some_iff.mp hi

/-- The far end of every edge knows of it. -/
theorem EdgesPaired.checkSuccessor (h : f.EdgesPaired) (hn : f.Numbered)
    (hb : f.blocks[b]? = some block) {s : BlockId} (hs : s ∈ block.succs) :
    f.checkSuccessor block s = .ok () := by
  rw [← succsOf_of_block hb, h.mem_iff] at hs
  obtain ⟨far, hfar⟩ := exists_block (lt_size_of_mem_predsOf hs)
  rw [predsOf_of_block hfar, ← hn b block hb] at hs
  exact checkSuccessor_eq_ok.mpr ⟨far, hfar, hs⟩

/-- Every back-edge belongs to an edge. -/
theorem EdgesPaired.checkPredecessor (h : f.EdgesPaired) (hn : f.Numbered)
    (hb : f.blocks[b]? = some block) {p : BlockId} (hp : p ∈ block.preds) :
    f.checkPredecessor block p = .ok () := by
  rw [← predsOf_of_block hb, ← h.mem_iff] at hp
  obtain ⟨far, hfar⟩ := exists_block (lt_size_of_mem_succsOf hp)
  rw [succsOf_of_block hfar, ← hn b block hb] at hp
  exact checkPredecessor_eq_ok.mpr ⟨far, hfar, hp⟩

/-- The check looks at the targets of the last instruction. If that is no
terminator, it has none. -/
theorem targetsOf_of_last {instr : Instruction} (hn : f.Numbered) (hb : f.blocks[b]? = some block)
    (hlast : block.instrs.getLast? = some i) (hi : f.instr i = .ok instr) :
    f.targetsOf block.id = instr.targets := by
  rw [hn b block hb]
  obtain ⟨slot, hslot, rfl⟩ := instr_eq_ok.mp hi
  cases hterm : slot.instr.isTerminator with
  | false =>
    simp [targetsOf, terminator?, hb, hlast, hslot, hterm, Instruction.targets_eq_nil hterm]
  | true => simp [targetsOf, terminator?, hb, hlast, hslot, hterm]

/-! ## The verdict -/

/-- A sound block is well-formed. -/
theorem BlockSound.wellFormed (h : f.BlockSound block) (hn : f.Numbered)
    (hb : f.blocks[b]? = some block) : f.WellFormed block where
  nonempty := h.nonempty
  terminator k i hk := by
    obtain ⟨slot, hslot, -, hterm, -⟩ := h.instrs k i hk
    exact ⟨slot.instr, instr_eq_ok.mpr ⟨slot, hslot, rfl⟩, by rw [hterm, beq_iff_eq]⟩
  locals i hi instr hinstr l hl := by
    obtain ⟨k, hk⟩ := List.getElem?_of_mem hi
    obtain ⟨slot, hslot, -, -, hlocals⟩ := h.instrs k i hk
    obtain ⟨slot', hslot', rfl⟩ := instr_eq_ok.mp hinstr
    obtain rfl := Option.some.inj (hslot.symm.trans hslot')
    exact hlocals l hl
  edges i instr hlast hinstr := by
    rw [← targetsOf_of_last hn hb hlast hinstr]
    refine ⟨fun t => ⟨h.taken t, fun ht => (h.targets t ht).2⟩, fun t ht => ?_⟩
    obtain ⟨far, hfar⟩ := exists_block (h.targets t ht).1
    exact ⟨far, block_eq_ok.mpr hfar⟩

/-- **Where the records are in order, a well-formed block is sound**: nothing else is
asked of it that could fail. -/
theorem WellFormed.blockSound (h : f.WellFormed block) (howned : f.SingleOwned)
    (hpaired : f.EdgesPaired) (hn : f.Numbered) (hb : f.blocks[b]? = some block) :
    f.BlockSound block := by
  have hlast := List.getLast?_eq_some_getLast h.nonempty
  obtain ⟨k, hk⟩ := List.getElem?_of_mem (List.getLast_mem h.nonempty)
  obtain ⟨instr, hinstr, -⟩ := h.terminator k _ hk
  obtain ⟨hedges, hexist⟩ := h.edges _ instr hlast hinstr
  have htargets := targetsOf_of_last hn hb hlast hinstr
  refine ⟨h.nonempty, fun k i hk => ?_, fun t ht => ?_, fun s hs => ?_,
    fun s hs => checkSuccessor_eq_ok.mp (hpaired.checkSuccessor hn hb hs),
    fun p hp => checkPredecessor_eq_ok.mp (hpaired.checkPredecessor hn hb hp)⟩
  · have hi : i ∈ block.instrs := List.mem_of_getElem? hk
    obtain ⟨slot, hslot, howner⟩ := howned.exists_slot hb hi
    have hi' : f.instr i = .ok slot.instr := instr_eq_ok.mpr ⟨slot, hslot, rfl⟩
    obtain ⟨instr', hinstr', hterm⟩ := h.terminator k i hk
    obtain rfl : slot.instr = instr' := Except.ok.inj (hi'.symm.trans hinstr')
    refine ⟨slot, hslot, by rw [hn b block hb, howner], ?_, h.locals i hi slot.instr hi'⟩
    rw [Bool.eq_iff_iff, hterm, beq_iff_eq]
  · rw [htargets] at ht
    obtain ⟨far, hfar⟩ := hexist t ht
    exact ⟨lt_size_of_block (block_eq_ok.mp hfar), (hedges t).mpr ht⟩
  · rw [htargets]
    exact (hedges s).mp hs

/-! ## What is reported -/

/-- What is reported of the instructions of a block is reported of one of them. -/
theorem exists_of_checkInstrs {ids : List InstrId} (h : f.checkInstrs b ids = .error e) :
    ∃ k i, ids[k]? = some i ∧ f.checkInstr b (k + 1 == ids.length) i = .error e := by
  induction ids with
  | nil => cases h
  | cons id rest ih =>
    rw [checkInstrs] at h
    rcases bind_eq_error.mp h with hfirst | ⟨_, -, hrest⟩
    · have hlast : (0 + 1 == (id :: rest).length) = rest.isEmpty := by
        cases rest <;> simp
      exact ⟨0, id, rfl, by rw [hlast]; exact hfirst⟩
    · obtain ⟨k, i, hk, herr⟩ := ih hrest
      exact ⟨k + 1, i, hk, by simpa using herr⟩

/-- A listed instruction is reported for what it does, not for whom it belongs
to. -/
theorem SingleOwned.fault_of_checkInstr (h : f.SingleOwned) (hn : f.Numbered)
    (hb : f.blocks[b]? = some block) {k : Nat} (hk : block.instrs[k]? = some i)
    (herr : f.checkInstr block.id (k + 1 == block.instrs.length) i = .error e) :
    f.Fault block e := by
  have hi : i ∈ block.instrs := List.mem_of_getElem? hk
  obtain ⟨slot, hslot, howner⟩ := h.exists_slot hb hi
  rw [← hn b block hb] at howner
  have hinstr : f.instr i = .ok slot.instr := instr_eq_ok.mpr ⟨slot, hslot, rfl⟩
  rw [checkInstr, slot_eq_ok.mpr hslot] at herr
  simp only [bind, Except.bind, howner, ne_eq, not_true_eq_false, if_false] at herr
  split at herr
  · rename_i hterm
    cases herr
    by_cases hlast : k + 1 = block.instrs.length
    · have hno : slot.instr.isTerminator = false := by simpa [hlast] using hterm
      simp only [hlast, beq_self_eq_true, if_true]
      exact .unterminated hk hinstr hlast hno
    · have hnot := beq_eq_false_iff_ne.mpr hlast
      have hyes : slot.instr.isTerminator = true := by simpa [hnot] using hterm
      simp only [hnot, Bool.false_eq_true, if_false]
      exact .earlyTerminator hk hinstr hlast hyes
  · split at herr
    · rename_i l hfind
      cases herr
      exact .localOutOfRange hi hinstr (List.mem_of_find?_eq_some hfind)
        (by simpa using List.find?_some hfind)
    · cases herr

/-- A target is reported when there is no such block, or no edge to it. -/
theorem fault_of_checkTarget {instr : Instruction} {t : BlockId}
    (hlast : block.instrs.getLast? = some i) (hinstr : f.instr i = .ok instr)
    (ht : t ∈ instr.targets) (herr : f.checkTarget block t = .error e) : f.Fault block e := by
  rcases bind_eq_error.mp herr with hunknown | ⟨far, -, herr⟩
  · rcases Nat.lt_or_ge t f.blocks.size with hlt | hge
    · obtain ⟨far, hfar⟩ := exists_block hlt
      rw [block_eq_ok.mpr hfar] at hunknown
      cases hunknown
    · rw [block_of_unknown hge] at hunknown
      cases hunknown
      exact .unknownTarget hlast hinstr ht hge
  · split at herr
    · rename_i hmem
      cases herr
      exact .missingEdge hlast hinstr ht hmem
    · cases herr

/-- **What is reported of a block is a fault that it has**, where the records are
in order. -/
theorem fault_of_checkBlock (howned : f.SingleOwned) (hpaired : f.EdgesPaired) (hn : f.Numbered)
    (hb : f.blocks[b]? = some block) (herr : f.checkBlock block = .error e) :
    f.Fault block e := by
  rw [checkBlock] at herr
  by_cases hempty : block.instrs = []
  · simp only [hempty, List.isEmpty_nil, if_true] at herr
    cases herr
    exact .empty hempty
  have hlast := List.getLast?_eq_some_getLast hempty
  obtain ⟨slot, hslot, -⟩ := howned.exists_slot hb (List.getLast_mem hempty)
  have hinstr : f.instr (block.instrs.getLast hempty) = .ok slot.instr :=
    instr_eq_ok.mpr ⟨slot, hslot, rfl⟩
  have htargets : ((f.terminator? block.id).map Instruction.targets).getD [] =
      slot.instr.targets := targetsOf_of_last hn hb hlast hinstr
  simp only [List.isEmpty_eq_false_iff.mpr hempty, Bool.false_eq_true, if_false, htargets] at herr
  rcases bind_eq_error.mp herr with herr | ⟨_, -, herr⟩
  · obtain ⟨k, i, hk, herr⟩ := exists_of_checkInstrs herr
    exact howned.fault_of_checkInstr hn hb hk herr
  rcases bind_eq_error.mp herr with herr | ⟨_, -, herr⟩
  · obtain ⟨t, ht, herr⟩ := exists_of_forM_eq_error herr
    exact fault_of_checkTarget hlast hinstr ht herr
  split at herr
  · rename_i s hfind
    cases herr
    exact .untakenEdge hlast hinstr (List.mem_of_find?_eq_some hfind)
      (by simpa using List.find?_some hfind)
  -- the far ends of edges and back-edges have nothing to report
  rcases bind_eq_error.mp herr with herr | ⟨_, -, herr⟩
  · obtain ⟨s, hs, herr⟩ := exists_of_forM_eq_error herr
    rw [hpaired.checkSuccessor hn hb hs] at herr
    cases herr
  · obtain ⟨p, hp, herr⟩ := exists_of_forM_eq_error herr
    rw [hpaired.checkPredecessor hn hb hp] at herr
    cases herr

/-! ## Detached instructions -/

/-- **Two functions differ in detached instructions only**: they have the same
name, local slots and blocks, and the same instructions in the places that the
first says are owned. -/
structure SameAttached (f g : Function) : Prop where
  name : g.name = f.name
  numLocals : g.numLocals = f.numLocals
  blocks : g.blocks = f.blocks
  slot : ∀ i b, f.owner i = .ok (some b) → g.slot i = f.slot i

namespace SameAttached

/-- What a block lists is the same in both. -/
theorem slot_of_listed (h : SameAttached f g) (howned : f.SingleOwned)
    (hb : f.blocks[b]? = some block) (hi : i ∈ block.instrs) : g.slot i = f.slot i := by
  rw [← idsOf_of_block hb, howned.mem_iff] at hi
  exact h.slot i b (owner_eq_ok.mpr ⟨lt_size_of_ownerOf hi, hi⟩)

theorem slots_of_listed (h : SameAttached f g) (howned : f.SingleOwned)
    (hb : f.blocks[b]? = some block) (hi : i ∈ block.instrs) : g.slots[i]? = f.slots[i]? := by
  obtain ⟨slot, hslot, -⟩ := howned.exists_slot hb hi
  have hsame := h.slot_of_listed howned hb hi
  rw [slot_eq_ok.mpr hslot] at hsame
  rw [slot_eq_ok.mp hsame, hslot]

theorem checkInstrs (h : SameAttached f g) (howned : f.SingleOwned)
    (hb : f.blocks[b]? = some block) {ids : List InstrId} (hids : ids ⊆ block.instrs) :
    g.checkInstrs block.id ids = f.checkInstrs block.id ids := by
  induction ids with
  | nil => rfl
  | cons i rest ih =>
    obtain ⟨hi, hrest⟩ := List.cons_subset.mp hids
    rw [Function.checkInstrs, Function.checkInstrs, ih hrest, checkInstr, checkInstr,
      h.slot_of_listed howned hb hi]
    simp only [flawed, h.name, h.numLocals]

theorem terminator? (h : SameAttached f g) (howned : f.SingleOwned)
    (hb : f.blocks[b]? = some block) : g.terminator? b = f.terminator? b := by
  unfold Function.terminator?
  rw [h.blocks, hb]
  cases hlast : block.instrs.getLast? with
  | none => simp [hlast]
  | some last => simp [hlast, h.slots_of_listed howned hb (List.mem_of_getLast? hlast)]

theorem checkBlock (h : SameAttached f g) (howned : f.SingleOwned) (hn : f.Numbered)
    (hb : f.blocks[b]? = some block) : g.checkBlock block = f.checkBlock block := by
  have hterminator := h.terminator? howned (hn b block hb ▸ hb)
  have hblock : ∀ b, g.block b = f.block b := fun b => by
    rw [Function.block, Function.block, h.blocks]
  unfold Function.checkBlock checkTarget checkSuccessor checkPredecessor
  simp only [h.checkInstrs howned hb (List.Subset.refl _), hterminator, hblock, flawed, h.name]

/-- **The check does not see detached instructions.** -/
theorem check (h : SameAttached f g) (howned : f.SingleOwned) (hn : f.Numbered) :
    g.check = f.check := by
  unfold Function.check
  rw [h.blocks]
  refine forM_congr fun block hmem => ?_
  obtain ⟨b, hb⟩ := Array.getElem?_of_mem (Array.mem_toList_iff.mp hmem)
  exact h.checkBlock howned hn hb

end SameAttached

/-! ## The check of a function that is reached -/

/-- **What the check decides.** A function that edits and emissions reach,
successful or not, passes the check exactly when all its blocks are well-formed.
The questions about owners and about the far ends of edges are always answered
well, so a failed check reports one of the other faults, which the function has;
and what is detached changes nothing about the answer. -/
theorem check_of_reached (hf : f.Reached) :
    (f.check = .ok () ↔ ∀ b block, f.block b = .ok block → f.WellFormed block) ∧
    (∀ b block, f.block b = .ok block →
      (∀ i ∈ block.instrs, f.owner i = .ok (some block.id)) ∧
      (∀ s ∈ block.succs, f.checkSuccessor block s = .ok ()) ∧
      ∀ p ∈ block.preds, f.checkPredecessor block p = .ok ()) ∧
    (∀ e, f.check = .error e → ∃ b block, f.block b = .ok block ∧ f.Fault block e) ∧
    ∀ g, SameAttached f g → g.check = f.check := by
  have howned := hf.singleOwned
  have hpaired := hf.edgesPaired
  have hn := hf.numbered.1
  refine ⟨?_, fun b block hblock => ?_, fun e herr => ?_, fun g hg => hg.check howned hn⟩
  · rw [check_eq_ok_iff]
    refine forall_congr' fun b => forall_congr' fun block => ?_
    rw [block_eq_ok]
    refine forall_congr' fun hb => ?_
    exact ⟨fun h => h.wellFormed hn hb, fun h => h.blockSound howned hpaired hn hb⟩
  · have hb := block_eq_ok.mp hblock
    refine ⟨fun i hi => ?_, fun s => hpaired.checkSuccessor hn hb,
      fun p => hpaired.checkPredecessor hn hb⟩
    rw [← idsOf_of_block hb, howned.mem_iff] at hi
    exact owner_eq_ok.mpr ⟨lt_size_of_ownerOf hi, by rw [hi, hn b block hb]⟩
  · obtain ⟨block, hmem, herr⟩ := exists_of_forM_eq_error herr
    obtain ⟨b, hb⟩ := Array.getElem?_of_mem (Array.mem_toList_iff.mp hmem)
    exact ⟨b, block, block_eq_ok.mpr hb, fault_of_checkBlock howned hpaired hn hb herr⟩

/-- A function with a branch whose targets are one block, and a detached jump to a
block that is not there. -/
def withSpare : Function :=
  Change.leaveAll [.appendBlock none, .createInstr (.branch (.var 0) 1 1) .unknown,
    .createInstr (.ret (.var 0)) .unknown, .createInstr (.jump 9) .unknown, .attachLast 0 0,
    .attachLast 1 1, .connect 0 1] (Function.empty "f" ["n"])

theorem withSpare_reached : withSpare.Reached := by
  unfold withSpare Change.leaveAll
  simp only [List.foldl]
  iterate 7 refine .change _ ?_
  exact .empty "f" ["n"]

/-- Its blocks are well-formed, and neither the detached jump nor what is put in
its place is looked at. -/
theorem check_of_reached_withSpare :
    withSpare.Reached ∧ withSpare.owner 2 = .ok none ∧
      (∀ b block, withSpare.block b = .ok block → withSpare.WellFormed block) ∧
      ((Change.substitute 2 (.copy 7 (.var 8))).leave withSpare).check = .ok () := by
  obtain ⟨hiff, -, -, hdetached⟩ := check_of_reached withSpare_reached
  have hcheck : withSpare.check = .ok () := by rfl
  have hspare : withSpare.owner 2 = .ok none := by rfl
  refine ⟨withSpare_reached, hspare, hiff.mp hcheck, ?_⟩
  rw [← hcheck]
  refine hdetached _ ⟨rfl, rfl, rfl, fun i b howner => ?_⟩
  obtain ⟨hlt, -⟩ := owner_eq_ok.mp howner
  have hsize : withSpare.slots.size = 3 := by rfl
  rw [hsize] at hlt
  rcases i with _ | _ | _ | i
  · rfl
  · rfl
  · cases hspare.symm.trans howner
  · exact absurd hlt (Nat.not_lt.mpr (Nat.le_add_left 3 i))

end Function

end BlockIR
