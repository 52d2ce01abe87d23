import BlockIR.Proofs.Function.Reached
import Mathlib.Data.List.Nodup
/-!
# Edges are known at both their ends

An edge is recorded as a successor of the block it leaves and as a predecessor
of the block it enters, in two lists that may belong to the same block.
`EdgesPaired` says that the two records agree and that no list has a member
twice. Adding an edge asks only one end whether the edge is there, and removing
one clears both; that neither breaks the other record is what the invariant
carries through every change.
-/

namespace BlockIR

namespace Function

open Success

variable {f g : Function} {a b c src dst : BlockId}

/-- **The two records of the edges agree**, and hold each edge once. -/
structure EdgesPaired (f : Function) : Prop where
  mem_iff : ∀ a b, b ∈ f.succsOf a ↔ a ∈ f.predsOf b
  succs_nodup : ∀ a, (f.succsOf a).Nodup
  preds_nodup : ∀ b, (f.predsOf b).Nodup

theorem edgesPaired_empty (name : String) (params : List String) :
    (Function.empty name params).EdgesPaired := by
  have hsuccs : ∀ a, (Function.empty name params).succsOf a = [] := by
    intro a
    cases a <;> rfl
  have hpreds : ∀ b, (Function.empty name params).predsOf b = [] := by
    intro b
    cases b <;> rfl
  refine ⟨fun a b => ?_, fun a => ?_, fun b => ?_⟩
  · rw [hsuccs, hpreds]
    simp
  · rw [hsuccs]
    exact List.nodup_nil
  · rw [hpreds]
    exact List.nodup_nil

/-- Changes that touch no edge. -/
theorem EdgesPaired.congr (h : f.EdgesPaired) (hsuccs : ∀ a, g.succsOf a = f.succsOf a)
    (hpreds : ∀ b, g.predsOf b = f.predsOf b) : g.EdgesPaired where
  mem_iff a b := by rw [hsuccs, hpreds, h.mem_iff]
  succs_nodup a := by rw [hsuccs]; exact h.succs_nodup a
  preds_nodup b := by rw [hpreds]; exact h.preds_nodup b

/-- A new edge is new at both its ends, since it was at one. -/
theorem EdgesPaired.linked (h : f.EdgesPaired) (hsrc : src < f.blocks.size)
    (hdst : dst < f.blocks.size) (hnew : dst ∉ f.succsOf src) : (f.linked src dst).EdgesPaired := by
  have hnew' : src ∉ f.predsOf dst := fun hmem => hnew ((h.mem_iff src dst).mpr hmem)
  refine ⟨fun a b => ?_, fun a => ?_, fun b => ?_⟩
  · rw [succsOf_linked hsrc, predsOf_linked hdst]
    by_cases ha : a = src <;> by_cases hb : b = dst <;> simp [ha, hb, h.mem_iff]
  · rw [succsOf_linked hsrc]
    split
    · exact List.nodup_append.mpr ⟨h.succs_nodup src, List.nodup_singleton dst, by
        simpa using fun t ht => ne_of_mem_of_not_mem ht hnew⟩
    · exact h.succs_nodup a
  · rw [predsOf_linked hdst]
    split
    · exact List.nodup_append.mpr ⟨h.preds_nodup dst, List.nodup_singleton src, by
        simpa using fun t ht => ne_of_mem_of_not_mem ht hnew'⟩
    · exact h.preds_nodup b

/-- An edge that is removed goes from both its ends, since each had it once. -/
theorem EdgesPaired.unlinked (h : f.EdgesPaired) (hsrc : src < f.blocks.size)
    (hdst : dst < f.blocks.size) : (f.unlinked src dst).EdgesPaired := by
  refine ⟨fun a b => ?_, fun a => ?_, fun b => ?_⟩
  · rw [succsOf_unlinked hsrc, predsOf_unlinked hdst]
    by_cases ha : a = src <;> by_cases hb : b = dst <;>
      simp [ha, hb, (h.succs_nodup _).mem_erase_iff, h.mem_iff]
  · rw [succsOf_unlinked hsrc]
    split
    · exact (h.succs_nodup src).erase dst
    · exact h.succs_nodup a
  · rw [predsOf_unlinked hdst]
    split
    · exact (h.preds_nodup dst).filter _
    · exact h.preds_nodup b

/-- **Every change keeps the two records of the edges in step.** -/
theorem Alters.edgesPaired (halters : Alters f g) (h : f.EdgesPaired) : g.EdgesPaired := by
  cases halters with
  | nothing => exact h
  | recount count => exact h.congr (fun _ => rfl) fun _ => rfl
  | extend name => exact h.congr (succsOf_extend f name) (predsOf_extend f name)
  | create instr location => exact h.congr (fun _ => rfl) fun _ => rfl
  | amend i g hg => exact h.congr (fun _ => rfl) fun _ => rfl
  | place _ _ _ _ => exact h.congr (succsOf_placed f _ _ _) (predsOf_placed f _ _ _)
  | unplace _ _ => exact h.congr (succsOf_unplaced f _ _ _) (predsOf_unplaced f _ _ _)
  | link hsrc hdst hnew => exact h.linked hsrc hdst hnew
  | unlink hdst hmem => exact h.unlinked (lt_size_of_mem_succsOf hmem) hdst

theorem Reached.edgesPaired (hf : f.Reached) : f.EdgesPaired :=
  hf.of_alters edgesPaired_empty fun _ _ => Alters.edgesPaired

/-! ## Adding and removing an edge -/

/-- **Two functions differ at one edge at most**: the successors of its source and
the predecessors of its destination are what the given changes make of them, and
all other lists are the same. -/
structure DiffersAt (a b : BlockId) (atSource atTarget : List BlockId → List BlockId)
    (f g : Function) : Prop where
  successors : ∀ c, g.successors c =
    (f.successors c).map fun succs => if c = a then atSource succs else succs
  predecessors : ∀ c, g.predecessors c =
    (f.predecessors c).map fun preds => if c = b then atTarget preds else preds

theorem differsAt_of_views {atSource atTarget : List BlockId → List BlockId}
    (hsize : g.blocks.size = f.blocks.size)
    (hsuccs : ∀ c, g.succsOf c = if c = a then atSource (f.succsOf c) else f.succsOf c)
    (hpreds : ∀ c, g.predsOf c = if c = b then atTarget (f.predsOf c) else f.predsOf c) :
    DiffersAt a b atSource atTarget f g := by
  refine ⟨fun c => ?_, fun c => ?_⟩
  · rcases Nat.lt_or_ge c f.blocks.size with hlt | hge
    · rw [successors_eq_ok.mpr ⟨hlt, rfl⟩, successors_eq_ok.mpr ⟨hsize ▸ hlt, hsuccs c⟩]
      rfl
    · rw [successors_of_unknown hge, successors_of_unknown (hsize ▸ hge)]
      rfl
  · rcases Nat.lt_or_ge c f.blocks.size with hlt | hge
    · rw [predecessors_eq_ok.mpr ⟨hlt, rfl⟩, predecessors_eq_ok.mpr ⟨hsize ▸ hlt, hpreds c⟩]
      rfl
    · rw [predecessors_of_unknown hge, predecessors_of_unknown (hsize ▸ hge)]
      rfl

/-- An edge is added where it was absent, last at both its ends. -/
theorem EdgesPaired.connect_spec (h : f.EdgesPaired) (ha : a < f.blocks.size)
    (hb : b < f.blocks.size) :
    ∃ g, (connect a b).apply f = (.ok (decide (b ∉ f.succsOf a)), g) ∧
      DiffersAt a b (fun succs => if b ∈ succs then succs else succs ++ [b])
        (fun preds => if a ∈ preds then preds else preds ++ [a]) f g := by
  obtain ⟨block, hblock⟩ := exists_block hb
  rw [apply_connect, block_eq_ok.mpr hblock, successors_eq_ok.mpr ⟨ha, rfl⟩]
  by_cases hmem : b ∈ f.succsOf a
  · have hmem' := (h.mem_iff a b).mp hmem
    refine ⟨f, by simp [hmem], differsAt_of_views rfl (fun c => ?_) fun c => ?_⟩
    · by_cases hc : c = a <;> simp [hc, hmem]
    · by_cases hc : c = b <;> simp [hc, hmem']
  · have hmem' : a ∉ f.predsOf b := fun hpred => hmem ((h.mem_iff a b).mpr hpred)
    refine ⟨f.linked a b, by simp [hmem], differsAt_of_views (by simp [Function.linked]) (fun c => ?_)
      fun c => ?_⟩
    · rw [succsOf_linked ha]
      by_cases hc : c = a <;> simp [hc, hmem]
    · rw [predsOf_linked hb]
      by_cases hc : c = b <;> simp [hc, hmem']

/-- An edge is removed where it was present, and the others stay in order. -/
theorem EdgesPaired.disconnect_spec (h : f.EdgesPaired) (ha : a < f.blocks.size)
    (hb : b < f.blocks.size) :
    ∃ g, (disconnect a b).apply f = (.ok (decide (b ∈ f.succsOf a)), g) ∧
      DiffersAt a b (fun succs => succs.filter (· != b)) (fun preds => preds.filter (· != a)) f g := by
  obtain ⟨block, hblock⟩ := exists_block hb
  rw [apply_disconnect, block_eq_ok.mpr hblock, successors_eq_ok.mpr ⟨ha, rfl⟩]
  by_cases hmem : b ∈ f.succsOf a
  · refine ⟨f.unlinked a b, by simp [hmem], differsAt_of_views (by simp [Function.unlinked]) (fun c => ?_)
      fun c => ?_⟩
    · rw [succsOf_unlinked ha]
      by_cases hc : c = a <;> simp [hc, (h.succs_nodup a).erase_eq_filter]
    · rw [predsOf_unlinked hb]
      by_cases hc : c = b <;> simp [hc]
  · have hmem' : a ∉ f.predsOf b := fun hpred => hmem ((h.mem_iff a b).mpr hpred)
    have hsuccs : (f.succsOf a).filter (· != b) = f.succsOf a :=
      List.filter_eq_self.mpr fun t ht => bne_iff_ne.mpr (ne_of_mem_of_not_mem ht hmem)
    have hpreds : (f.predsOf b).filter (· != a) = f.predsOf b :=
      List.filter_eq_self.mpr fun t ht => bne_iff_ne.mpr (ne_of_mem_of_not_mem ht hmem')
    refine ⟨f, by simp [hmem], differsAt_of_views rfl (fun c => ?_) fun c => ?_⟩
    · by_cases hc : c = a <;> simp [hc, hsuccs]
    · by_cases hc : c = b <;> simp [hc, hpreds]

/-- Without both its ends, an edge is neither added nor removed. -/
theorem edge_of_unknown (h : ¬ (a < f.blocks.size ∧ b < f.blocks.size)) :
    ∃ e, (connect a b).apply f = (.error e, f) ∧ (disconnect a b).apply f = (.error e, f) := by
  rw [apply_connect, apply_disconnect]
  rcases Nat.lt_or_ge b f.blocks.size with hb | hb
  · have ha : f.blocks.size ≤ a := Nat.not_lt.mp fun ha => h ⟨ha, hb⟩
    obtain ⟨block, hblock⟩ := exists_block hb
    rw [block_eq_ok.mpr hblock, successors_of_unknown ha]
    exact ⟨_, rfl, rfl⟩
  · rw [block_of_unknown hb]
    exact ⟨_, rfl, rfl⟩

/-- **Edges are symmetric.** In a function that edits and emissions reach,
successful or not, a block is a successor of another exactly when that one is its
predecessor; both lists have existing blocks only, and each once. Adding an edge
says whether the edge was absent and puts it last at both its ends; removing one
says whether it was present and takes it from both its ends. Neither changes any
other edge, or the order of the others. -/
theorem reached_edges_symmetric (hf : f.Reached) :
    (∀ a b succs preds, f.successors a = .ok succs → f.predecessors b = .ok preds →
      (b ∈ succs ↔ a ∈ preds)) ∧
    (∀ a succs, f.successors a = .ok succs →
      succs.Nodup ∧ ∀ b ∈ succs, ∃ block, f.block b = .ok block) ∧
    (∀ b preds, f.predecessors b = .ok preds →
      preds.Nodup ∧ ∀ a ∈ preds, ∃ block, f.block a = .ok block) ∧
    (∀ a b succs preds, f.successors a = .ok succs → f.predecessors b = .ok preds →
      (∃ g, (connect a b).apply f = (.ok (decide (b ∉ succs)), g) ∧
        DiffersAt a b (fun succs => if b ∈ succs then succs else succs ++ [b])
          (fun preds => if a ∈ preds then preds else preds ++ [a]) f g) ∧
      ∃ g, (disconnect a b).apply f = (.ok (decide (b ∈ succs)), g) ∧
        DiffersAt a b (fun succs => succs.filter (· != b)) (fun preds => preds.filter (· != a))
          f g) ∧
    ∀ a b, ¬ ((∃ block, f.block a = .ok block) ∧ ∃ block, f.block b = .ok block) →
      ∃ e, (connect a b).apply f = (.error e, f) ∧ (disconnect a b).apply f = (.error e, f) := by
  have h := hf.edgesPaired
  have hexists : ∀ b, b < f.blocks.size → ∃ block, f.block b = .ok block := by
    intro b hb
    obtain ⟨block, hblock⟩ := exists_block hb
    exact ⟨block, block_eq_ok.mpr hblock⟩
  refine ⟨fun a b succs preds ha hb => ?_, fun a succs ha => ?_, fun b preds hb => ?_,
    fun a b succs preds ha hb => ?_, fun a b hmissing => ?_⟩
  · obtain ⟨-, rfl⟩ := successors_eq_ok.mp ha
    obtain ⟨-, rfl⟩ := predecessors_eq_ok.mp hb
    exact h.mem_iff a b
  · obtain ⟨-, rfl⟩ := successors_eq_ok.mp ha
    refine ⟨h.succs_nodup a, fun b hmem => hexists b ?_⟩
    exact lt_size_of_mem_predsOf ((h.mem_iff a b).mp hmem)
  · obtain ⟨-, rfl⟩ := predecessors_eq_ok.mp hb
    refine ⟨h.preds_nodup b, fun a hmem => hexists a ?_⟩
    exact lt_size_of_mem_succsOf ((h.mem_iff a b).mpr hmem)
  · obtain ⟨hsrc, rfl⟩ := successors_eq_ok.mp ha
    obtain ⟨hdst, -⟩ := predecessors_eq_ok.mp hb
    exact ⟨h.connect_spec hsrc hdst, h.disconnect_spec hsrc hdst⟩
  · exact edge_of_unknown fun hboth => hmissing ⟨hexists a hboth.1, hexists b hboth.2⟩

/-- A function with a self loop, an edge that was added twice, one that was added
and removed, a branch with one target, and an edge to a block that is not there. -/
def rewired : Function :=
  let edited := Change.leaveAll [.appendBlock none, .appendBlock none, .connect 1 1, .connect 0 1,
    .connect 0 1, .connect 1 0, .disconnect 1 0, .connect 0 7] (Function.empty "f" [])
  (Emission.leave (.branch (.int 1) 2 2) ⟨edited, 0, .unknown⟩).function

theorem rewired_reached : rewired.Reached := by
  unfold rewired Change.leaveAll
  simp only [List.foldl]
  refine .emission (c := ⟨_, 0, .unknown⟩) _ ?_
  dsimp only
  iterate 8 refine .change _ ?_
  exact .empty "f" []

/-- The self loop is known at both its ends and can be removed alone; the edge of
the branch follows the one that was there. -/
theorem reached_edges_symmetric_rewired :
    rewired.Reached ∧ rewired.successors 1 = .ok [1] ∧ rewired.predecessors 1 = .ok [1, 0] ∧
      rewired.successors 0 = .ok [1, 2] ∧ ((1 : BlockId) ∈ [1] ↔ (1 : BlockId) ∈ [1, 0]) ∧
      (∃ g, (disconnect 1 1).apply rewired = (.ok true, g) ∧
        g.successors 1 = .ok [] ∧ g.predecessors 1 = .ok [0] ∧ g.successors 0 = .ok [1, 2]) := by
  have hsuccs : rewired.successors 1 = .ok [1] := by rfl
  have hpreds : rewired.predecessors 1 = .ok [1, 0] := by rfl
  have hentry : rewired.successors 0 = .ok [1, 2] := by rfl
  obtain ⟨hiff, -, -, hedit, -⟩ := reached_edges_symmetric rewired_reached
  obtain ⟨-, g, hg, hdiffers⟩ := hedit 1 1 _ _ hsuccs hpreds
  refine ⟨rewired_reached, hsuccs, hpreds, hentry, hiff 1 1 _ _ hsuccs hpreds, g, hg, ?_, ?_, ?_⟩
  · rw [hdiffers.successors, hsuccs]
    rfl
  · rw [hdiffers.predecessors, hpreds]
    rfl
  · rw [hdiffers.successors, hentry]
    rfl

end Function

end BlockIR
