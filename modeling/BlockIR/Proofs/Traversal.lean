import Mathlib.Data.List.Basic
import Mathlib.Data.List.Nodup
import Mathlib.Data.List.Perm.Basic
import Mathlib.Logic.Relation
/-!
# Depth-first traversal

A graph is given by what each node leads to, in order. A traversal takes some
nodes in turn: a node that was met before is passed over, and another is met, what
it leads to is traversed, and then it is done. `Traverses` says so without a bound
on the depth, so a derivation is a traversal that ends. The nodes in the order in
which they are met are the preorder of the traversal, and in the order in which
they are done its postorder.

In postorder a node comes after all it leads to, unless the edge closes a cycle
(`Settled`). The flag for what was met does not tell open nodes from done ones;
what carries the proof is that every open node leads to those to be traversed.
-/

namespace BlockIR

variable {α : Type}

/-- **How far a traversal has come**: the nodes that it has met, and those that it
is done with, both in order. -/
structure Marks (α : Type) where
  met : List α := []
  done : List α := []

namespace Marks

/-- A node is met. -/
def meet (s : Marks α) (x : α) : Marks α := { s with met := s.met ++ [x] }

/-- A node is done. -/
def finish (s : Marks α) (x : α) : Marks α := { s with done := s.done ++ [x] }

end Marks

/-- **A depth-first traversal** of some nodes, from one state to another. -/
inductive Traverses (next : α → List α) : List α → Marks α → Marks α → Prop
  | nil {s : Marks α} : Traverses next [] s s
  | again {x : α} {xs : List α} {s s' : Marks α} : x ∈ s.met → Traverses next xs s s' →
      Traverses next (x :: xs) s s'
  | visit {x : α} {xs : List α} {s inner s' : Marks α} : x ∉ s.met →
      Traverses next (next x) (s.meet x) inner → Traverses next xs (inner.finish x) s' →
      Traverses next (x :: xs) s s'

/-! ## What comes first -/

/-- **One element comes before another** in a list. -/
def Precedes (order : List α) (x y : α) : Prop :=
  ∃ before after, order = before ++ y :: after ∧ x ∈ before

namespace Precedes

variable {order before after : List α} {x y z : α}

/-- In a list without repetition there is one place to look at. -/
theorem mem_before (h : Precedes order x y) (hnodup : order.Nodup)
    (heq : order = before ++ y :: after) : x ∈ before := by
  obtain ⟨before', after', heq', hx⟩ := h
  rw [heq', List.nodup_middle, List.nodup_cons, List.mem_append, not_or] at hnodup
  have hsplit := (List.append_cons_inj_of_notMem hnodup.1.1 hnodup.1.2).mp (heq'.symm.trans heq)
  rw [← hsplit.1]
  exact hx

theorem trans (h : Precedes order x y) (hnodup : order.Nodup) (h' : Precedes order y z) :
    Precedes order x z := by
  obtain ⟨before, after, rfl, hy⟩ := h'
  obtain ⟨first, rest, rfl⟩ := List.append_of_mem hy
  refine ⟨_, after, rfl, List.mem_append_left _ ?_⟩
  exact h.mem_before hnodup (List.append_assoc first (y :: rest) (z :: after))

theorem filter (h : Precedes order x y) {p : α → Bool} (hx : p x = true) (hy : p y = true) :
    Precedes (order.filter p) x y := by
  obtain ⟨before, after, rfl, hmem⟩ := h
  refine ⟨before.filter p, after.filter p, ?_, List.mem_filter.mpr ⟨hmem, hx⟩⟩
  rw [List.filter_append, List.filter_cons_of_pos hy]

end Precedes

namespace Traverses

/-- One node leads to another. -/
def Edge (next : α → List α) (x y : α) : Prop := y ∈ next x

/-- One node leads to another along edges, or is that one. -/
abbrev Path (next : α → List α) : α → α → Prop := Relation.ReflTransGen (Edge next)

variable {next : α → List α} {xs ys : List α} {x y : α} {s s' s'' : Marks α}

/-- A traversal leads to one state. -/
theorem unique (h : Traverses next xs s s') (h' : Traverses next xs s s'') : s' = s'' := by
  induction h generalizing s'' with
  | nil =>
    cases h'
    rfl
  | again hx _ ih =>
    cases h' with
    | again _ hrest => exact ih hrest
    | visit hx' _ _ => exact absurd hx hx'
  | visit hx _ _ ihinner ihrest =>
    cases h' with
    | again hx' _ => exact absurd hx' hx
    | visit _ hinner hrest =>
      obtain rfl := ihinner hinner
      exact ihrest hrest

/-- Nodes are traversed in turn. -/
theorem append (h : Traverses next xs s s') (h' : Traverses next ys s' s'') :
    Traverses next (xs ++ ys) s s'' := by
  induction h with
  | nil => exact h'
  | again hx _ ih => exact .again hx (ih h')
  | visit hx hinner _ _ ih => exact .visit hx hinner (ih h')

/-- **What is newly met is newly done**, each as often as the other. -/
theorem exists_new (h : Traverses next xs s s') :
    ∃ pre post, s'.met = s.met ++ pre ∧ s'.done = s.done ++ post ∧ post.Perm pre := by
  induction h with
  | nil => exact ⟨[], [], (List.append_nil _).symm, (List.append_nil _).symm, .refl _⟩
  | again _ _ ih => exact ih
  | @visit x xs s inner s' _ _ _ ihinner ihrest =>
    obtain ⟨pre, post, hmet, hdone, hperm⟩ := ihinner
    obtain ⟨pre', post', hmet', hdone', hperm'⟩ := ihrest
    refine ⟨x :: pre ++ pre', post ++ x :: post', ?_, ?_, ?_⟩
    · rw [hmet', Marks.finish, hmet, Marks.meet]
      simp
    · rw [hdone', Marks.finish, hdone, Marks.meet]
      simp
    · exact (List.perm_middle.trans ((hperm.append hperm').cons x))

theorem met_grows (h : Traverses next xs s s') : s.met <+: s'.met := by
  obtain ⟨pre, _, hmet, _⟩ := h.exists_new
  exact ⟨pre, hmet.symm⟩

theorem done_grows (h : Traverses next xs s s') : s.done <+: s'.done := by
  obtain ⟨_, post, _, hdone, _⟩ := h.exists_new
  exact ⟨post, hdone.symm⟩

/-- What is met in a traversal is done in it. -/
theorem mem_done (h : Traverses next xs s s') (hy : y ∈ s'.met) : y ∈ s.met ∨ y ∈ s'.done := by
  obtain ⟨pre, post, hmet, hdone, hperm⟩ := h.exists_new
  rw [hmet] at hy
  rcases List.mem_append.mp hy with hy | hy
  · exact .inl hy
  · rw [hdone]
    exact .inr (List.mem_append_right _ (hperm.mem_iff.mpr hy))

/-- All that is traversed is met. -/
theorem mem_met (h : Traverses next xs s s') (hx : x ∈ xs) : x ∈ s'.met := by
  induction h with
  | nil => cases hx
  | again hmet hrest ih =>
    rcases List.mem_cons.mp hx with rfl | hx
    · exact hrest.met_grows.subset hmet
    · exact ih hx
  | visit _ hinner hrest _ ih =>
    rcases List.mem_cons.mp hx with rfl | hx
    · refine hrest.met_grows.subset (hinner.met_grows.subset ?_)
      exact List.mem_append_right _ List.mem_cons_self
    · exact ih hx

/-- No node is met twice. -/
theorem nodup_met (h : Traverses next xs s s') (hs : s.met.Nodup) : s'.met.Nodup := by
  induction h with
  | nil => exact hs
  | again _ _ ih => exact ih hs
  | visit hx _ _ ihinner ihrest =>
    refine ihrest (ihinner ?_)
    exact List.nodup_append.mpr ⟨hs, List.nodup_singleton _, by
      simpa using fun y hy => ne_of_mem_of_not_mem hy hx⟩

/-! ## What is met -/

/-- Only what the nodes lead to is met. -/
theorem path_of_mem (h : Traverses next xs s s') (hy : y ∈ s'.met) :
    y ∈ s.met ∨ ∃ x ∈ xs, Path next x y := by
  induction h with
  | nil => exact .inl hy
  | again _ _ ih =>
    rcases ih hy with hy | ⟨z, hz, hpath⟩
    · exact .inl hy
    · exact .inr ⟨z, List.mem_cons_of_mem _ hz, hpath⟩
  | @visit x _ _ _ _ _ _ _ ihinner ihrest =>
    rcases ihrest hy with hy | ⟨z, hz, hpath⟩
    · rcases ihinner hy with hy | ⟨z, hz, hpath⟩
      · rcases List.mem_append.mp hy with hy | hy
        · exact .inl hy
        · obtain rfl := List.mem_singleton.mp hy
          exact .inr ⟨y, List.mem_cons_self, .refl⟩
      · exact .inr ⟨x, List.mem_cons_self, .head hz hpath⟩
    · exact .inr ⟨z, List.mem_cons_of_mem _ hz, hpath⟩

/-- What a newly met node leads to is met. -/
theorem mem_of_edge (h : Traverses next xs s s') (hy : y ∈ s'.met) (hnew : y ∉ s.met)
    (hedge : x ∈ next y) : x ∈ s'.met := by
  induction h with
  | nil => exact absurd hy hnew
  | again _ _ ih => exact ih hy hnew
  | @visit z _ s inner _ _ hinner hrest ihinner ihrest =>
    by_cases hold : y ∈ inner.met
    · refine hrest.met_grows.subset ?_
      by_cases hyz : y = z
      · exact hinner.mem_met (hyz ▸ hedge)
      · refine ihinner hold fun hmet => ?_
        rcases List.mem_append.mp hmet with hmet | hmet
        · exact hnew hmet
        · exact hyz (List.mem_singleton.mp hmet)
    · exact ihrest hy hold

/-- **A traversal from nothing meets what its nodes reach**, and nothing else. -/
theorem mem_met_iff (h : Traverses next xs {} s) : y ∈ s.met ↔ ∃ x ∈ xs, Path next x y := by
  constructor
  · intro hy
    exact (h.path_of_mem hy).resolve_left List.not_mem_nil
  · rintro ⟨x, hx, hpath⟩
    induction hpath with
    | refl => exact h.mem_met hx
    | tail _ hedge ih => exact h.mem_of_edge ih List.not_mem_nil hedge

/-- It is done with all that it meets, and with each once. -/
theorem perm_of_empty (h : Traverses next xs {} s) : s.done.Perm s.met := by
  obtain ⟨pre, post, hmet, hdone, hperm⟩ := h.exists_new
  rw [hmet, hdone]
  exact hperm

/-! ## Postorder -/

/-- **A list is settled**: every node comes after all that it leads to, except
where the edge is part of a cycle. -/
def Settled (next : α → List α) (order : List α) : Prop :=
  ∀ pre y post, order = pre ++ y :: post → ∀ z ∈ next y, z ∈ pre ∨ Path next z y

theorem Settled.concat {order : List α} (h : Settled next order)
    (hx : ∀ z ∈ next x, z ∈ order ∨ Path next z x) : Settled next (order ++ [x]) := by
  intro pre y post heq
  rcases List.eq_nil_or_concat post with rfl | ⟨rest, last, rfl⟩
  · obtain ⟨rfl, hlast⟩ := List.append_inj' heq rfl
    obtain rfl : x = y := (List.cons.inj hlast).1
    exact hx
  · rw [List.concat_eq_append, ← List.cons_append, ← List.append_assoc] at heq
    exact h pre y rest (List.append_inj' heq rfl).1

/-- **What is done is settled.** Every open node leads to the nodes to be
traversed, so a node that is met again is done or leads back to where it is met. -/
theorem settled (h : Traverses next xs s s') (hs : Settled next s.done)
    (hopen : ∀ y ∈ s.met, y ∉ s.done → ∀ x ∈ xs, Path next y x) : Settled next s'.done := by
  induction h with
  | nil => exact hs
  | again _ _ ih =>
    exact ih hs fun y hy hdone z hz => hopen y hy hdone z (List.mem_cons_of_mem _ hz)
  | @visit x xs s inner s' hx hinner _ ihinner ihrest =>
    -- while the node is open, so is what led to it: all of it leads to its successors
    have hinner' : Settled next inner.done := by
      refine ihinner hs fun y hy hdone z hz => ?_
      have hedge : Edge next x z := hz
      rcases List.mem_append.mp hy with hy | hy
      · exact (hopen y hy hdone x List.mem_cons_self).tail hedge
      · obtain rfl := List.mem_singleton.mp hy
        exact .single hedge
    refine ihrest (hinner'.concat fun z hz => ?_) fun y hy hdone z hz => ?_
    · rcases hinner.mem_done (hinner.mem_met hz) with hmet | hdone
      · by_cases hdone : z ∈ s.done
        · exact .inl (hinner.done_grows.subset hdone)
        · rcases List.mem_append.mp hmet with hmet | hmet
          · exact .inr (hopen z hmet hdone x List.mem_cons_self)
          · obtain rfl := List.mem_singleton.mp hmet
            exact .inr .refl
      · exact .inl hdone
    · -- what is open now was open before
      have hnot : y ∉ inner.done := fun hmem => hdone (List.mem_append_left _ hmem)
      have hself : y ≠ x := fun heq => hdone (List.mem_append_right _ (List.mem_singleton.mpr heq))
      have hmet := (hinner.mem_done hy).resolve_right hnot
      have hold := (List.mem_append.mp hmet).resolve_right fun hmem =>
        hself (List.mem_singleton.mp hmem)
      refine hopen y hold (fun hmem => hnot (hinner.done_grows.subset hmem)) z ?_
      exact List.mem_cons_of_mem _ hz

/-- In a settled list a node comes after what it leads to, if that does not lead
back to it. -/
theorem Settled.precedes {order : List α} (h : Settled next order) (hy : y ∈ order)
    (hedge : x ∈ next y) (hback : ¬ Path next x y) : Precedes order x y := by
  obtain ⟨before, after, heq⟩ := List.append_of_mem hy
  exact ⟨before, after, heq, (h before y after heq x hedge).resolve_right hback⟩

/-- Where there is no cycle, it comes after all that it leads to along edges. -/
theorem Settled.precedes_of_acyclic {order : List α} (h : Settled next order)
    (hnodup : order.Nodup) (hacyclic : ∀ z, ¬ Relation.TransGen (Edge next) z z)
    (hclosed : ∀ z ∈ order, ∀ z' ∈ next z, z' ∈ order) (hy : y ∈ order)
    (hpath : Relation.TransGen (Edge next) y x) : Precedes order x y := by
  have hstep : ∀ z z', z ∈ order → Edge next z z' → Precedes order z' z := by
    intro z z' hz hedge
    exact h.precedes hz hedge fun hback => hacyclic z (.head' hedge hback)
  have hboth : x ∈ order ∧ Precedes order x y := by
    induction hpath with
    | single hedge => exact ⟨hclosed y hy _ hedge, hstep y _ hy hedge⟩
    | tail _ hedge ih =>
      exact ⟨hclosed _ ih.1 _ hedge, (hstep _ _ ih.1 hedge).trans hnodup ih.2⟩
  exact hboth.2

/-! ## Traversals end -/

section Finite

variable [DecidableEq α] {nodes : List α}

/-- How many of some nodes a traversal has not met. -/
def unmet (nodes : List α) (met : List α) : Nat :=
  (nodes.filter fun x => decide (x ∉ met)).length

theorem unmet_le (nodes : List α) {met met' : List α} (hle : met ⊆ met') :
    unmet nodes met' ≤ unmet nodes met := by
  refine (List.monotone_filter_right _ fun x hx => ?_).length_le
  simp only [decide_eq_true_eq] at hx ⊢
  exact fun hmet => hx (hle hmet)

/-- All is met when nothing is unmet. -/
theorem mem_of_unmet {met : List α} (h : unmet nodes met = 0) (hx : x ∈ nodes) : x ∈ met := by
  have hnil := List.filter_eq_nil_iff.mp (List.length_eq_zero_iff.mp h) x hx
  simpa using hnil

/-- Meeting a node leaves fewer unmet, and nothing that is met later more. -/
theorem unmet_lt {met met' : List α} (hx : x ∈ nodes) (hnew : x ∉ met) (hmet : x ∈ met')
    (hle : met ⊆ met') : unmet nodes met' < unmet nodes met := by
  have hfilter : (nodes.filter fun y => decide (y ∉ met')) =
      (nodes.filter fun y => decide (y ∉ met)).filter fun y => decide (y ∉ met') := by
    rw [List.filter_filter]
    refine List.filter_congr fun y _ => ?_
    by_cases hy : y ∈ met'
    · simp [hy]
    · have hold : y ∉ met := fun h => hy (hle h)
      simp [hy, hold]
  rw [unmet, unmet, hfilter, List.length_filter_lt_length_iff_exists]
  exact ⟨x, by simp [hx, hnew], by simpa using hmet⟩

/-- **Every traversal of a finite graph ends.** -/
theorem exists_of_closed (hclosed : ∀ x ∈ nodes, ∀ y ∈ next x, y ∈ nodes)
    (hxs : ∀ x ∈ xs, x ∈ nodes) (s : Marks α) : ∃ s', Traverses next xs s s' := by
  induction hn : unmet nodes s.met using Nat.strongRecOn generalizing xs s with
  | ind n ih =>
    induction xs with
    | nil => exact ⟨s, .nil⟩
    | cons x rest ihrest =>
      obtain ⟨hx, hrest⟩ := List.forall_mem_cons.mp hxs
      by_cases hmet : x ∈ s.met
      · obtain ⟨s', h⟩ := ihrest hrest
        exact ⟨s', .again hmet h⟩
      · -- the node counts as met in the state that its own traversal leads to
        have hself : x ∈ (s.meet x).met := List.mem_append_right _ List.mem_cons_self
        have hsub : s.met ⊆ (s.meet x).met := List.subset_append_left _ _
        obtain ⟨inner, hinner⟩ := ih _ (hn ▸ unmet_lt hx hmet hself hsub) (hclosed x hx) _ rfl
        have hlater := hinner.met_grows.subset
        have hless := unmet_lt hx hmet (hlater hself) (List.Subset.trans hsub hlater)
        obtain ⟨s', h⟩ := ih _ (hn ▸ hless) hrest (inner.finish x) rfl
        exact ⟨s', .visit hmet hinner h⟩

end Finite

end Traverses

end BlockIR
