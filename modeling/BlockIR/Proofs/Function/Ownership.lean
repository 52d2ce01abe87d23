import BlockIR.Proofs.Function.Reached
import Mathlib.Data.List.Nodup
/-!
# Every instruction has at most one place

Ownership is recorded twice, in the arena and in the lists of the blocks.
`SingleOwned` says that the two records agree and that no list names an
instruction twice. Every change keeps it, the moves between blocks included, so
it holds of every function that edits and emissions reach. The position of an
attached instruction is then where its owner lists it, and the error that a
block does not list what it owns never comes up.
-/

namespace BlockIR

namespace Function

open Success

variable {f g : Function} {b c : BlockId} {i j : InstrId}

/-- **The two records of ownership agree**, and a block lists an instruction at
most once. -/
structure SingleOwned (f : Function) : Prop where
  mem_iff : ∀ b i, i ∈ f.idsOf b ↔ f.ownerOf i = some b
  nodup : ∀ b, (f.idsOf b).Nodup

theorem singleOwned_empty (name : String) (params : List String) :
    (Function.empty name params).SingleOwned := by
  have hids : ∀ b, (Function.empty name params).idsOf b = [] := by
    intro b
    cases b <;> rfl
  refine ⟨fun b i => ?_, fun b => by rw [hids]; exact List.nodup_nil⟩
  have howner : (Function.empty name params).ownerOf i = none := rfl
  rw [hids, howner]
  simp

/-- Changes that touch neither record. -/
theorem SingleOwned.congr (h : f.SingleOwned) (hids : ∀ b, g.idsOf b = f.idsOf b)
    (howner : ∀ i, g.ownerOf i = f.ownerOf i) : g.SingleOwned where
  mem_iff b i := by rw [hids, howner, h.mem_iff]
  nodup b := by rw [hids]; exact h.nodup b

/-- A detached instruction may be listed anywhere. -/
theorem SingleOwned.placed (h : f.SingleOwned) {index : Nat} (hi : i < f.slots.size)
    (hfree : f.ownerOf i = none) (hb : b < f.blocks.size) (hindex : index ≤ (f.idsOf b).length) :
    (f.placed b i index).SingleOwned := by
  -- no block lists a detached instruction, so the new entry is the only one
  have hnew : ∀ c, i ∉ f.idsOf c := by
    intro c hmem
    rw [h.mem_iff, hfree] at hmem
    cases hmem
  have hmem : ∀ j, j ∈ (f.idsOf b).insertIdx index i ↔ j = i ∨ j ∈ f.idsOf b :=
    fun j => List.mem_insertIdx hindex
  refine ⟨fun c j => ?_, fun c => ?_⟩
  · rw [idsOf_placed hb, ownerOf_placed hi]
    by_cases hj : j = i
    · subst hj
      by_cases hc : c = b
      · simp [hc, hmem]
      · simp [hc, Ne.symm hc, hnew c]
    · by_cases hc : c = b
      · simp [hc, hj, hmem, h.mem_iff]
      · simp [hc, hj, h.mem_iff]
  · rw [idsOf_placed hb]
    split
    · have hperm := List.perm_insertIdx i (f.idsOf b) hindex
      exact hperm.nodup_iff.mpr (List.nodup_cons.mpr ⟨hnew b, h.nodup b⟩)
    · exact h.nodup c

/-- An instruction that is taken out of its block is listed nowhere. -/
theorem SingleOwned.unplaced (h : f.SingleOwned) {index : Nat} (howner : f.ownerOf i = some b)
    (hindex : (f.idsOf b).idxOf? i = some index) : (f.unplaced b i index).SingleOwned := by
  have hb : b < f.blocks.size := lt_size_of_mem_idsOf ((h.mem_iff b i).mpr howner)
  have herase : (f.idsOf b).eraseIdx index = (f.idsOf b).erase i := by
    rw [List.erase_eq_eraseIdx, hindex]
  refine ⟨fun c j => ?_, fun c => ?_⟩
  · rw [idsOf_unplaced hb, ownerOf_unplaced (lt_size_of_ownerOf howner), herase]
    by_cases hj : j = i
    · subst hj
      by_cases hc : c = b
      · simp [hc, (h.nodup b).mem_erase_iff]
      · simp [hc, h.mem_iff, howner, Ne.symm hc]
    · by_cases hc : c = b
      · simp [hc, hj, (h.nodup b).mem_erase_iff, h.mem_iff]
      · simp [hc, hj, h.mem_iff]
  · rw [idsOf_unplaced hb, herase]
    split
    · exact (h.nodup b).erase i
    · exact h.nodup c

/-- **Every change keeps the records of ownership in step.** -/
theorem Alters.singleOwned (halters : Alters f g) (h : f.SingleOwned) : g.SingleOwned := by
  cases halters with
  | nothing => exact h
  | recount count => exact h.congr (fun _ => rfl) fun _ => rfl
  | extend name => exact h.congr (idsOf_extend f name) fun _ => rfl
  | create instr location => exact h.congr (fun _ => rfl) (ownerOf_create f instr location)
  | amend i g hg => exact h.congr (fun _ => rfl) (ownerOf_modifySlot_of_eq hg f i)
  | place hi hfree hb hindex => exact h.placed hi hfree hb hindex
  | unplace howner hindex => exact h.unplaced howner hindex
  | link _ _ _ => exact h.congr (idsOf_linked f _ _) fun _ => rfl
  | unlink _ _ => exact h.congr (idsOf_unlinked f _ _) fun _ => rfl

theorem Reached.singleOwned (hf : f.Reached) : f.SingleOwned :=
  hf.of_alters singleOwned_empty fun _ _ => Alters.singleOwned

/-- An instruction stands at one index of one block. -/
theorem SingleOwned.place_unique (h : f.SingleOwned) {k k' : Nat}
    (hk : (f.idsOf b)[k]? = some i) (hk' : (f.idsOf c)[k']? = some i) : b = c ∧ k = k' := by
  have hb := (h.mem_iff b i).mp (List.mem_of_getElem? hk)
  have hc := (h.mem_iff c i).mp (List.mem_of_getElem? hk')
  obtain rfl : b = c := Option.some.inj (hb.symm.trans hc)
  refine ⟨rfl, ?_⟩
  obtain ⟨hlt, -⟩ := List.getElem?_eq_some_iff.mp hk
  exact (List.getElem?_inj hlt (h.nodup b)).mp (hk.trans hk'.symm)

/-- The owner of an instruction lists it where its position says. -/
theorem SingleOwned.exists_position (h : f.SingleOwned) (howner : f.ownerOf i = some b) :
    ∃ k, f.position i = .ok (b, k) ∧ (f.idsOf b)[k]? = some i := by
  have hmem := (h.mem_iff b i).mpr howner
  obtain ⟨k, hk⟩ : ∃ k, (f.idsOf b).idxOf? i = some k :=
    Option.isSome_iff_exists.mp (List.isSome_idxOf?.mpr hmem)
  obtain ⟨hlt, heq, -⟩ := List.idxOf?_eq_some_iff.mp hk
  exact ⟨k, position_eq_ok.mpr ⟨howner, lt_size_of_mem_idsOf hmem, hk⟩,
    List.getElem?_eq_some_iff.mpr ⟨hlt, heq⟩⟩

/-- A search for a position has one of three outcomes, and none of them finds the
two records at odds. -/
theorem SingleOwned.position_cases (h : f.SingleOwned) (i : InstrId) :
    (∃ b k, f.owner i = .ok (some b) ∧ f.position i = .ok (b, k)) ∨
      f.position i = .error (.detached i) ∨ f.position i = .error (.unknownInstr i) := by
  rcases Nat.lt_or_ge i f.slots.size with hlt | hge
  · cases howner : f.ownerOf i with
    | none => exact .inr (.inl (position_of_detached (owner_eq_ok.mpr ⟨hlt, howner⟩)))
    | some b =>
      obtain ⟨k, hk, -⟩ := h.exists_position howner
      exact .inl ⟨b, k, owner_eq_ok.mpr ⟨hlt, howner⟩, hk⟩
  · exact .inr (.inr (position_of_unknown hge))

/-- **Every instruction has at most one place.** In a function that edits and
emissions reach, successful or not, a block lists exactly the instructions that
the arena says it owns, all of them in the arena; an instruction stands at one
index of one block at most; and blocks carry their own numbers. So an attached
instruction has a position, where its owner lists it, a detached one is reported
as such, and no search for a position finds the two records at odds. -/
theorem reached_single_ownership (hf : f.Reached) :
    (∀ b block, f.block b = .ok block →
      block.id = b ∧ ∀ i ∈ block.instrs, ∃ instr, f.instr i = .ok instr) ∧
    (∀ b i, (∃ block, f.block b = .ok block ∧ i ∈ block.instrs) ↔ f.owner i = .ok (some b)) ∧
    (∀ b k c k' i, f.listedAt b k = .ok i → f.listedAt c k' = .ok i → b = c ∧ k = k') ∧
    ∀ i,
      (∀ b, f.owner i = .ok (some b) → ∃ k, f.position i = .ok (b, k) ∧ f.listedAt b k = .ok i) ∧
      (f.owner i = .ok none → f.position i = .error (.detached i)) ∧
      ∀ name b flaw, f.position i ≠ .error (.malformed name b flaw) := by
  have h := hf.singleOwned
  have howned : ∀ b block i, f.block b = .ok block → i ∈ block.instrs → f.ownerOf i = some b := by
    intro b block i hblock hi
    rw [← h.mem_iff, idsOf_of_block (block_eq_ok.mp hblock)]
    exact hi
  refine ⟨fun b block hblock => ⟨hf.numbered.1 b block (block_eq_ok.mp hblock), fun i hi => ?_⟩,
    fun b i => ⟨?_, fun howner => ?_⟩, fun b k c k' i hk hk' => ?_,
    fun i => ⟨fun b howner => ?_, position_of_detached, fun name b flaw hbad => ?_⟩⟩
  · have hlt := lt_size_of_ownerOf (howned b block i hblock hi)
    exact ⟨_, bind_eq_ok.mpr ⟨_, slot_eq_ok.mpr (Array.getElem?_eq_getElem hlt), rfl⟩⟩
  · rintro ⟨block, hblock, hi⟩
    have howner := howned b block i hblock hi
    exact owner_eq_ok.mpr ⟨lt_size_of_ownerOf howner, howner⟩
  · have hmem := (h.mem_iff b i).mpr (owner_eq_ok.mp howner).2
    obtain ⟨block, hblock⟩ := exists_block (lt_size_of_mem_idsOf hmem)
    exact ⟨block, block_eq_ok.mpr hblock, idsOf_of_block hblock ▸ hmem⟩
  · exact h.place_unique (listedAt_eq_ok.mp hk) (listedAt_eq_ok.mp hk')
  · obtain ⟨k, hposition, hk⟩ := h.exists_position (owner_eq_ok.mp howner).2
    exact ⟨k, hposition, listedAt_eq_ok.mpr hk⟩
  · rcases h.position_cases i with ⟨_, _, -, hok⟩ | hdetached | hunknown
    · cases hbad.symm.trans hok
    · cases hbad.symm.trans hdetached
    · cases hbad.symm.trans hunknown

/-- A function with an instruction that was moved from one block to another, one
that was taken out and one that was never attached; two of its edits failed. -/
def rearranged : Function :=
  Change.leaveAll [.createInstr (.copy 0 (.int 1)) .unknown, .createInstr (.ret .null) .unknown,
    .createInstr (.jump 0) .unknown, .appendBlock none, .attachLast 0 0, .attachBefore 0 1,
    .attachAt 1 0 0, .detach 0, .attachAt 1 0 1, .attachAt 1 0 0, .detach 1]
    (Function.empty "f" ["n"])

theorem rearranged_reached : rearranged.Reached := by
  unfold rearranged Change.leaveAll
  simp only [List.foldl]
  iterate 11 refine .change _ ?_
  exact .empty "f" ["n"]

/-- The moved instruction has its place in the second block, and only there. -/
theorem reached_single_ownership_rearranged :
    rearranged.Reached ∧ rearranged.owner 0 = .ok (some 1) ∧ rearranged.owner 1 = .ok none ∧
      rearranged.listedAt 1 0 = .ok 0 ∧
      (∃ k, rearranged.position 0 = .ok (1, k) ∧ rearranged.listedAt 1 k = .ok 0) ∧
      (∀ b k, rearranged.listedAt b k = .ok 0 → 1 = b ∧ 0 = k) ∧
      rearranged.position 1 = .error (.detached 1) := by
  obtain ⟨-, -, hplace, hposition⟩ := reached_single_ownership rearranged_reached
  have howner : rearranged.owner 0 = .ok (some 1) := by rfl
  have hdetached : rearranged.owner 1 = .ok none := by rfl
  have hlisted : rearranged.listedAt 1 0 = .ok 0 := by rfl
  exact ⟨rearranged_reached, howner, hdetached, hlisted, (hposition 0).1 1 howner,
    fun b k hk => hplace 1 0 b k 0 hlisted hk, (hposition 1).2.1 hdetached⟩

end Function

end BlockIR
