import BlockIR.Proofs.Function.Insertion
import BlockIR.Proofs.Function.Ownership
import Mathlib.Data.List.InsertIdx
/-!
# Inserting an instruction beside another

A detached instruction is inserted right before or right after an attached one,
whose place is searched for in the list of its block. What comes of it is the same
insertion at two indices (`Gains`): one block lists one instruction more, later
ones move up, and taking the new one out gives the old function back. That the
removal finds the entry that was inserted, and no other, is what the two records
of ownership are for.
-/

namespace BlockIR

namespace Function

open Success

variable {f g : Function} {a n i : InstrId} {b c : BlockId} {k j : Nat}

/-- **A function gains an entry of a block**: an instruction that was detached is
listed at an index and owned there, and nothing else changes. The instructions
from there on stand one further, all others stand where they stood, and to detach
the new one gives the function back. -/
structure Gains (f g : Function) (b : BlockId) (k : Nat) (n : InstrId) : Prop where
  name : g.name = f.name
  params : g.params = f.params
  numLocals : g.numLocals = f.numLocals
  block : ∀ c, g.block c = (f.block c).map fun block =>
    if c = b then { block with instrs := block.instrs.insertIdx k n } else block
  slot : ∀ i, g.slot i = (f.slot i).map fun slot =>
    if i = n then { slot with owner := some b } else slot
  count : g.count b = (f.count b).map (· + 1)
  order : ∀ old new, f.block b = .ok old → g.block b = .ok new → new.instrs.erase n = old.instrs
  position_new : g.position n = .ok (b, k)
  position : ∀ i, i ≠ n → g.position i = (f.position i).map fun p => (p.1, displaced b k p.1 p.2)
  undone : (detach n).apply g = (.ok (), f)

/-! ## Places in a list -/

/-- What stood at some index of a list stands at the displaced one. -/
theorem getElem?_placed (hb : b < f.blocks.size) (hk : k ≤ (f.idsOf b).length) (n : InstrId)
    (c : BlockId) (j : Nat) :
    ((f.placed b n k).idsOf c)[displaced b k c j]? = (f.idsOf c)[j]? := by
  rw [idsOf_placed hb]
  by_cases hc : c = b
  · subst hc
    rw [if_pos rfl]
    rcases Nat.lt_or_ge j k with hlt | hge
    · rw [displaced_lt hlt, List.getElem?_insertIdx_of_lt hlt]
    · rw [displaced_ge hge, List.getElem?_insertIdx_of_gt (by omega), Nat.add_sub_cancel]
  · rw [if_neg hc, displaced_ne hc]

/-- The new entry stands at its index. -/
theorem getElem?_placed_self (hb : b < f.blocks.size) (hk : k ≤ (f.idsOf b).length) (n : InstrId) :
    ((f.placed b n k).idsOf b)[k]? = some n := by
  rw [idsOf_placed hb, if_pos rfl, List.getElem?_insertIdx_self, if_pos hk]

/-- Where the records agree, an instruction is found where it is listed. -/
theorem SingleOwned.position_of_listed (h : f.SingleOwned) (hk : (f.idsOf b)[k]? = some i) :
    f.position i = .ok (b, k) := by
  have howner := (h.mem_iff b i).mp (List.mem_of_getElem? hk)
  obtain ⟨k', hposition, hk'⟩ := h.exists_position howner
  obtain ⟨-, rfl⟩ := h.place_unique hk hk'
  exact hposition

/-- A position is where the block lists the instruction. -/
theorem getElem?_of_position (h : f.position i = .ok (b, k)) :
    b < f.blocks.size ∧ (f.idsOf b)[k]? = some i := by
  obtain ⟨-, hb, hindex⟩ := position_eq_ok.mp h
  obtain ⟨hlt, heq, -⟩ := List.idxOf?_eq_some_iff.mp hindex
  exact ⟨hb, List.getElem?_eq_some_iff.mpr ⟨hlt, heq⟩⟩

/-! ## One insertion -/

@[simp] theorem size_placed (f : Function) (b : BlockId) (n : InstrId) (k : Nat) :
    (f.placed b n k).blocks.size = f.blocks.size := by
  simp [placed, modifySlot, modifyBlock]

theorem block_placed (f : Function) (b : BlockId) (n : InstrId) (k : Nat) (c : BlockId) :
    (f.placed b n k).block c = (f.block c).map fun block =>
      if c = b then { block with instrs := block.instrs.insertIdx k n } else block := by
  have hblocks : (f.placed b n k).blocks[c]? =
      if b = c then (f.blocks[c]?).map fun block =>
        { block with instrs := block.instrs.insertIdx k n }
      else f.blocks[c]? := blocks_modifyBlock f b c _
  unfold block
  rw [hblocks]
  by_cases hc : b = c
  · subst hc
    cases f.blocks[b]? <;> simp [Except.map]
  · cases f.blocks[c]? <;> simp [Except.map, hc, Ne.symm hc]

theorem slot_placed (f : Function) (b : BlockId) (n : InstrId) (k : Nat) (i : InstrId) :
    (f.placed b n k).slot i = (f.slot i).map fun slot =>
      if i = n then { slot with owner := some b } else slot := by
  have hslots : (f.placed b n k).slots[i]? =
      if n = i then (f.slots[i]?).map fun slot => { slot with owner := some b }
      else f.slots[i]? := Array.getElem?_modify
  unfold slot
  rw [hslots]
  by_cases hi : n = i
  · subst hi
    cases f.slots[n]? <;> simp [Except.map]
  · cases f.slots[i]? <;> simp [Except.map, hi, Ne.symm hi]

/-- **Taking out what was put in restores the function**, if it was detached before. -/
theorem unplaced_placed (hn : f.ownerOf n = none) (b : BlockId) (k : Nat) :
    (f.placed b n k).unplaced b n k = f := by
  have hblocks : ((f.placed b n k).unplaced b n k).blocks = f.blocks := by
    refine Array.ext_getElem? fun c => ?_
    refine (blocks_modifyBlock (f.placed b n k) b c _).trans ?_
    have hplaced : (f.placed b n k).blocks[c]? = if b = c then (f.blocks[c]?).map fun block =>
        { block with instrs := block.instrs.insertIdx k n } else f.blocks[c]? :=
      blocks_modifyBlock f b c _
    rw [hplaced]
    by_cases hc : b = c
    · subst hc
      cases f.blocks[b]? <;> simp [List.eraseIdx_insertIdx_self]
    · simp [hc]
  have hslots : ((f.placed b n k).unplaced b n k).slots = f.slots := by
    refine Array.ext_getElem? fun i => ?_
    simp only [unplaced, placed, modifySlot, modifyBlock, Array.getElem?_modify]
    by_cases hi : n = i
    · subst hi
      cases hslot : f.slots[n]? with
      | none => simp
      | some slot =>
        -- its owner was none, as it is again
        have howner : slot.owner = none := by simpa [ownerOf, hslot] using hn
        obtain ⟨instr, owner, location⟩ := slot
        subst howner
        simp
    · simp [hi]
  calc (f.placed b n k).unplaced b n k
      = { f with
          blocks := ((f.placed b n k).unplaced b n k).blocks
          slots := ((f.placed b n k).unplaced b n k).slots } := rfl
    _ = f := by rw [hblocks, hslots]

/-- An instruction that is placed moves no other out of its block. -/
theorem SingleOwned.position_placed (h : f.SingleOwned) (hn : n < f.slots.size)
    (hfree : f.ownerOf n = none) (hb : b < f.blocks.size) (hk : k ≤ (f.idsOf b).length)
    (hi : i ≠ n) :
    (f.placed b n k).position i =
      (f.position i).map fun p => (p.1, displaced b k p.1 p.2) := by
  have hg := h.placed hn hfree hb hk
  have howner : (f.placed b n k).owner i = f.owner i := by
    unfold owner
    rw [slot_placed]
    cases f.slot i with
    | error e => rfl
    | ok slot => simp [Except.map, hi]
  rcases Nat.lt_or_ge i f.slots.size with hlt | hge
  · cases hold : f.ownerOf i with
    | none =>
      have hdetached : f.owner i = .ok none := owner_eq_ok.mpr ⟨hlt, hold⟩
      rw [position_of_detached hdetached, position_of_detached (howner.trans hdetached)]
      rfl
    | some c =>
      obtain ⟨j, hposition, hj⟩ := h.exists_position hold
      rw [hposition]
      exact hg.position_of_listed ((getElem?_placed hb hk n c j).trans hj)
  · have hsize : (f.placed b n k).slots.size = f.slots.size := by
      simp [Function.placed, modifySlot, modifyBlock]
    rw [position_of_unknown hge, position_of_unknown (hsize ▸ hge)]
    rfl

theorem SingleOwned.gains_placed (h : f.SingleOwned) (hn : n < f.slots.size)
    (hfree : f.ownerOf n = none) (hb : b < f.blocks.size) (hk : k ≤ (f.idsOf b).length) :
    f.Gains (f.placed b n k) b k n := by
  have hposition := (h.placed hn hfree hb hk).position_of_listed (getElem?_placed_self hb hk n)
  refine ⟨rfl, rfl, rfl, block_placed f b n k, slot_placed f b n k, ?_, fun old new hold hnew => ?_,
    hposition, fun i hi => h.position_placed hn hfree hb hk hi, ?_⟩
  · have hcount : (f.placed b n k).count b = .ok ((f.idsOf b).length + 1) := by
      refine count_eq_ok.mpr ⟨by simpa using hb, ?_⟩
      rw [idsOf_placed hb, if_pos rfl, List.length_insertIdx_of_le_length hk]
    rw [hcount, count_eq_ok.mpr ⟨hb, rfl⟩]
    rfl
  · -- the search finds the new entry, which is the only one
    obtain ⟨-, -, hindex⟩ := position_eq_ok.mp hposition
    rw [idsOf_of_block (block_eq_ok.mp hnew)] at hindex
    rw [List.erase_eq_eraseIdx, hindex]
    rw [block_placed, hold] at hnew
    cases hnew
    simp only [if_true]
    exact List.eraseIdx_insertIdx_self n
  · rw [apply_detach, hposition]
    exact congrArg (Prod.mk _) (unplaced_placed hfree b k)

/-! ## Beside an instruction -/

/-- Insert an instruction some places after where another stands. -/
def attachBeside (shift : Nat) (anchor new : InstrId) : Edit InstrId :=
  Transform.query (·.position anchor) >>= fun p => attachAt p.1 new (p.2 + shift)

theorem attachBefore_eq (a n : InstrId) : attachBefore a n = attachBeside 0 a n := rfl

theorem attachAfter_eq (a n : InstrId) : attachAfter a n = attachBeside 1 a n := rfl

/-- What is inserted beside an attached instruction gets the index of that one, or
the next. -/
theorem SingleOwned.apply_attachBeside (h : f.SingleOwned) (ha : f.position a = .ok (b, k))
    (hn : f.owner n = .ok none) (shift : Nat) (hshift : shift ≤ 1) :
    (attachBeside shift a n).apply f = (.ok n, f.placed b n (k + shift)) ∧
      f.Gains (f.placed b n (k + shift)) b (k + shift) n := by
  obtain ⟨hlt, hfree⟩ := owner_eq_ok.mp hn
  obtain ⟨hb, hlisted⟩ := getElem?_of_position ha
  have hindex : k + shift ≤ (f.idsOf b).length := by
    have := (List.getElem?_eq_some_iff.mp hlisted).1
    omega
  refine ⟨?_, h.gains_placed hlt hfree hb hindex⟩
  rw [attachBeside, apply_query_bind, ha]
  simp only
  rw [apply_attachAt, hn, count_eq_ok.mpr ⟨hb, rfl⟩]
  simp only [Nat.not_lt.mpr hindex, if_false]

/-- An instruction is unknown, detached or attached. -/
theorem owner_cases (f : Function) (i : InstrId) :
    f.owner i = .error (.unknownInstr i) ∨ f.owner i = .ok none ∨
      ∃ b, f.owner i = .ok (some b) := by
  unfold owner slot
  cases f.slots[i]? with
  | none => exact .inl rfl
  | some slot =>
    cases howner : slot.owner with
    | none => exact .inr (.inl (congrArg Except.ok howner))
    | some b => exact .inr (.inr ⟨b, congrArg Except.ok howner⟩)

/-- Nothing is inserted beside an instruction that has no place, and nothing that
is not detached. -/
theorem attachBeside_fails (n : InstrId) (shift : Nat)
    (h : (∀ b, f.owner a ≠ .ok (some b)) ∨ f.owner n ≠ .ok none) :
    ∃ e, (attachBeside shift a n).apply f = (.error e, f) := by
  rw [attachBeside, apply_query_bind]
  cases hposition : f.position a with
  | error e => exact ⟨e, rfl⟩
  | ok p =>
    obtain ⟨b, k⟩ := p
    obtain ⟨howner, -, -⟩ := position_eq_ok.mp hposition
    have hn : f.owner n ≠ .ok none := h.resolve_left fun hnone =>
      hnone b (owner_eq_ok.mpr ⟨lt_size_of_ownerOf howner, howner⟩)
    simp only
    rw [apply_attachAt]
    rcases f.owner_cases n with hunknown | hdetached | ⟨c, hattached⟩
    · rw [hunknown]
      exact ⟨_, rfl⟩
    · exact absurd hdetached hn
    · rw [hattached]
      exact ⟨_, rfl⟩

/-- **When an insertion beside an instruction is refused.** -/
def Refused (f : Function) (a n : InstrId) : Prop :=
  (f.owner a = .error (.unknownInstr a) ∨ f.owner a = .ok none) ∨
    f.owner n = .error (.unknownInstr n) ∨ ∃ c, f.owner n = .ok (some c)

/-- An instruction has no place beside itself: it has one already, or none. -/
theorem refused_self (f : Function) (a : InstrId) : f.Refused a a := by
  rcases f.owner_cases a with hunknown | hdetached | hattached
  · exact .inl (.inl hunknown)
  · exact .inl (.inr hdetached)
  · exact .inr (.inr hattached)

theorem SingleOwned.attachBeside_fails_iff (h : f.SingleOwned) (a n : InstrId) (shift : Nat)
    (hshift : shift ≤ 1) :
    (∃ e, ((attachBeside shift a n).apply f).1 = .error e) ↔ f.Refused a n := by
  constructor
  · rintro ⟨e, he⟩
    rcases f.owner_cases a with hunknown | hdetached | ⟨b, hattached⟩
    · exact .inl (.inl hunknown)
    · exact .inl (.inr hdetached)
    · rcases f.owner_cases n with hunknown | hdetached | hattached'
      · exact .inr (.inl hunknown)
      · obtain ⟨k, hposition, -⟩ := h.exists_position (owner_eq_ok.mp hattached).2
        rw [(h.apply_attachBeside hposition hdetached shift hshift).1] at he
        cases he
      · exact .inr (.inr hattached')
  · intro hrefused
    have hnot : (∀ b, f.owner a ≠ .ok (some b)) ∨ f.owner n ≠ .ok none := by
      rcases hrefused with (hunknown | hdetached) | hunknown | ⟨c, hattached⟩
      · exact .inl fun b => by simp [hunknown]
      · exact .inl fun b => by simp [hdetached]
      · exact .inr (by simp [hunknown])
      · exact .inr (by simp [hattached])
    obtain ⟨e, he⟩ := attachBeside_fails n shift hnot
    exact ⟨e, congrArg Prod.fst he⟩

/-- **Insertion beside an instruction, and its removal.** In a function that edits
and emissions reach, successful or not, an attached instruction has a position,
and any detached instruction of the arena can be inserted right before it and
right after it. The block gains the new entry at that position or at the next,
nothing else changes, and detaching the entry restores the function. Both
insertions fail exactly when the one instruction is unknown or detached, or the
other is unknown or attached; so they always fail when the two are the same. -/
theorem insertion_beside_of_reached (hf : f.Reached) :
    (∀ a b, f.owner a = .ok (some b) → ∃ k, f.position a = .ok (b, k) ∧ f.listedAt b k = .ok a ∧
      ∀ n, f.owner n = .ok none →
        (∃ g, (attachBefore a n).apply f = (.ok n, g) ∧ f.Gains g b k n ∧
          g.position a = .ok (b, k + 1)) ∧
        ∃ g, (attachAfter a n).apply f = (.ok n, g) ∧ f.Gains g b (k + 1) n ∧
          g.position a = .ok (b, k)) ∧
    (∀ a n, ((∃ e, ((attachBefore a n).apply f).1 = .error e) ↔ f.Refused a n) ∧
      ((∃ e, ((attachAfter a n).apply f).1 = .error e) ↔ f.Refused a n)) ∧
    ∀ a, (∃ e, ((attachBefore a a).apply f).1 = .error e) ∧
      ∃ e, ((attachAfter a a).apply f).1 = .error e := by
  have h := hf.singleOwned
  simp only [attachBefore_eq, attachAfter_eq]
  have hbefore := fun a n => h.attachBeside_fails_iff a n 0 (by decide)
  have hafter := fun a n => h.attachBeside_fails_iff a n 1 (by decide)
  refine ⟨fun a b hattached => ?_, fun a n => ⟨hbefore a n, hafter a n⟩,
    fun a => ⟨(hbefore a a).mpr (f.refused_self a), (hafter a a).mpr (f.refused_self a)⟩⟩
  obtain ⟨k, hposition, hlisted⟩ := h.exists_position (owner_eq_ok.mp hattached).2
  refine ⟨k, hposition, listedAt_eq_ok.mpr hlisted, fun n hn => ?_⟩
  have hne : a ≠ n := by
    rintro rfl
    cases hattached.symm.trans hn
  obtain ⟨happly, hgains⟩ := h.apply_attachBeside hposition hn 0 (by decide)
  obtain ⟨happly', hgains'⟩ := h.apply_attachBeside hposition hn 1 (by decide)
  refine ⟨⟨_, happly, hgains, ?_⟩, _, happly', hgains', ?_⟩
  · rw [hgains.position a hne, hposition]
    exact congrArg (fun j => Except.ok (b, j)) (displaced_ge (Nat.le_refl k) b)
  · rw [hgains'.position a hne, hposition]
    exact congrArg (fun j => Except.ok (b, j)) (displaced_lt (Nat.lt_succ_self k) b b)

/-- A block of two instructions, another block of one, and a detached instruction. -/
def withLoose : Function :=
  Change.leaveAll [.createInstr (.copy 0 (.int 1)) .unknown, .createInstr (.ret (.var 0)) .unknown,
    .createInstr (.jump 0) .unknown, .createInstr (.copy 0 (.int 2)) .unknown, .appendBlock none,
    .attachLast 0 0, .attachLast 0 1, .attachLast 1 2] (Function.empty "f" ["n"])

theorem withLoose_reached : withLoose.Reached := by
  unfold withLoose Change.leaveAll
  simp only [List.foldl]
  iterate 8 refine .change _ ?_
  exact .empty "f" ["n"]

/-- The loose instruction goes between the two of the first block, from either side.
The last one moves up, the other block is as it was, and detaching restores all. -/
theorem insertion_beside_of_reached_withLoose :
    withLoose.Reached ∧ withLoose.owner 0 = .ok (some 0) ∧ withLoose.owner 3 = .ok none ∧
      (∃ g, (attachAfter 0 3).apply withLoose = (.ok 3, g) ∧ g.position 3 = .ok (0, 1) ∧
        g.position 1 = .ok (0, 2) ∧ g.position 2 = .ok (1, 0) ∧ g.count 0 = .ok 3 ∧
        (detach 3).apply g = (.ok (), withLoose)) ∧
      (∃ e, ((attachBefore 0 1).apply withLoose).1 = .error e) ∧
      ∃ e, ((attachAfter 3 3).apply withLoose).1 = .error e := by
  obtain ⟨hbeside, hrefused, hself⟩ := insertion_beside_of_reached withLoose_reached
  have hattached : withLoose.owner 0 = .ok (some 0) := by rfl
  have hattached' : withLoose.owner 1 = .ok (some 0) := by rfl
  have hdetached : withLoose.owner 3 = .ok none := by rfl
  have hfirst : withLoose.position 0 = .ok (0, 0) := by rfl
  have hlast : withLoose.position 1 = .ok (0, 1) := by rfl
  have hother : withLoose.position 2 = .ok (1, 0) := by rfl
  have hcount : withLoose.count 0 = .ok 2 := by rfl
  obtain ⟨k, hk, -, hinsert⟩ := hbeside 0 0 hattached
  obtain rfl : 0 = k := congrArg Prod.snd (Except.ok.inj (hfirst.symm.trans hk))
  obtain ⟨-, g, hafter, hgains, -⟩ := hinsert 3 hdetached
  refine ⟨withLoose_reached, hattached, hdetached, ⟨g, hafter, hgains.position_new, ?_, ?_, ?_,
    hgains.undone⟩, (hrefused 0 1).1.mpr (.inr (.inr ⟨0, hattached'⟩)), (hself 3).2⟩
  · rw [hgains.position 1 (by decide), hlast]
    rfl
  · rw [hgains.position 2 (by decide), hother]
    rfl
  · rw [hgains.count, hcount]
    rfl

end Function

end BlockIR
