import BlockIR.Proofs.Source.Scoping
import BlockIR.Proofs.Success
import Mathlib.Data.List.Flatten
import Mathlib.Data.List.Nodup
/-!
# What the walk over imports lists

The bound on the number of visits counts the pending ids and the imports of the
modules not yet listed, so it is never used up: `Visits` is the walk without it.
The walk keeps a `Frontier`: what it has listed is needed, and every import of
what it has listed is listed too or pending. When nothing is pending any more,
the listed modules are those that the program needs.
-/

namespace BlockIR

open Success

namespace Source

namespace Program

variable {p : Program} {id : String} {m : Module}
variable {pending : List String} {listed : List (String × Module)}

/-- **The state of the walk over imports.** -/
structure Frontier (p : Program) (pending : List String) (listed : List (String × Module)) :
    Prop where
  distinct : (listed.map Prod.fst).Nodup
  included : ∀ id m, (id, m) ∈ listed → p.Includes id m
  needed : ∀ id ∈ pending, p.Needs id
  first : (∃ m rest, listed = (p.root, m) :: rest) ∨ listed = [] ∧ pending = [p.root]
  closed : ∀ id m, (id, m) ∈ listed → ∀ i ∈ m.imports, i ∈ listed.map Prod.fst ∨ i ∈ pending

namespace Frontier

theorem start (p : Program) : p.Frontier [p.root] [] where
  distinct := List.nodup_nil
  included := nofun
  needed := by
    intro id hid
    rw [List.mem_singleton.mp hid]
    exact .root
  first := .inr ⟨rfl, rfl⟩
  closed := nofun

/-- A module that is listed already is passed over. -/
theorem skip (h : p.Frontier (id :: pending) listed) (hid : id ∈ listed.map Prod.fst) :
    p.Frontier pending listed := by
  have hmove : ∀ i, i ∈ listed.map Prod.fst ∨ i ∈ id :: pending →
      i ∈ listed.map Prod.fst ∨ i ∈ pending := by
    rintro i (hi | hi)
    · exact .inl hi
    · rcases List.mem_cons.mp hi with rfl | hi
      · exact .inl hid
      · exact .inr hi
  refine ⟨h.distinct, h.included, fun i hi => h.needed i (List.mem_cons_of_mem _ hi), ?_,
    fun id' m' hm' i hi => hmove i (h.closed id' m' hm' i hi)⟩
  rcases h.first with hfirst | ⟨rfl, -⟩
  · exact .inl hfirst
  · cases hid

/-- A module that is met first is listed, and its imports are pending. -/
theorem list (h : p.Frontier (id :: pending) listed) (hid : id ∉ listed.map Prod.fst)
    (hm : p.module? id = some m) : p.Frontier (m.imports ++ pending) (listed ++ [(id, m)]) := by
  have hneeds : p.Needs id := h.needed id List.mem_cons_self
  have hmove : ∀ i, i ∈ listed.map Prod.fst ∨ i ∈ id :: pending →
      i ∈ (listed ++ [(id, m)]).map Prod.fst ∨ i ∈ m.imports ++ pending := by
    rintro i (hi | hi)
    · exact .inl (by simp_all)
    · rcases List.mem_cons.mp hi with rfl | hi
      · exact .inl (by simp)
      · exact .inr (List.mem_append_right _ hi)
  refine ⟨?_, ?_, ?_, .inl ?_, ?_⟩
  · rw [List.map_append, List.nodup_append]
    refine ⟨h.distinct, List.nodup_singleton _, ?_⟩
    rintro i hi _ hj rfl
    obtain rfl : i = id := List.mem_singleton.mp hj
    exact hid hi
  · intro id' m' hm'
    rcases List.mem_append.mp hm' with hm' | hm'
    · exact h.included id' m' hm'
    · cases List.mem_singleton.mp hm'
      exact ⟨hneeds, hm⟩
  · intro i hi
    rcases List.mem_append.mp hi with hi | hi
    · exact .imported hneeds hm hi
    · exact h.needed i (List.mem_cons_of_mem _ hi)
  · rcases h.first with ⟨m', rest, rfl⟩ | ⟨rfl, hpending⟩
    · exact ⟨m', rest ++ [(id, m)], rfl⟩
    · cases hpending
      exact ⟨m, [], rfl⟩
  · intro id' m' hm' i hi
    rcases List.mem_append.mp hm' with hm' | hm'
    · exact hmove i (h.closed id' m' hm' i hi)
    · cases List.mem_singleton.mp hm'
      exact .inr (List.mem_append_left _ hi)

/-- When nothing is pending, all that is needed is listed. -/
theorem listed_of_needs (h : p.Frontier [] listed) (hid : p.Needs id) :
    ∃ m, (id, m) ∈ listed := by
  induction hid with
  | root =>
    rcases h.first with ⟨m, rest, rfl⟩ | ⟨-, hpending⟩
    · exact ⟨m, List.mem_cons_self⟩
    · cases hpending
  | imported _ hm hi ih =>
    obtain ⟨m', hm'⟩ := ih
    obtain rfl : _ = m' := Option.some.inj (hm.symm.trans (h.included _ _ hm').2)
    rcases h.closed _ _ hm' _ hi with hlisted | hpending
    · obtain ⟨⟨_, m⟩, hm, rfl⟩ := List.mem_map.mp hlisted
      exact ⟨m, hm⟩
    · cases hpending

end Frontier

/-! ## The bound -/

/-- The imports of the modules that are not listed yet. -/
def unlistedImports (p : Program) (listed : List (String × Module)) : List String :=
  (p.modules.filter fun m => decide (m.1 ∉ listed.map Prod.fst)).flatMap fun m => m.2.imports

/-- Listing a module takes its imports away from those of unlisted modules. -/
theorem length_unlistedImports (hid : id ∉ listed.map Prod.fst) (hm : p.module? id = some m) :
    m.imports.length + (p.unlistedImports (listed ++ [(id, m)])).length ≤
      (p.unlistedImports listed).length := by
  have hmem : (id, m) ∈ p.modules := by
    obtain ⟨before, after, heq, -⟩ := List.lookup_eq_some_iff.mp hm
    simp [heq]
  unfold unlistedImports
  obtain ⟨before, after, heq⟩ := List.append_of_mem hmem
  -- the imports of the other modules can only become fewer
  have hless : ∀ modules : List (String × Module),
      ((modules.filter fun m' => decide (m'.1 ∉ (listed ++ [(id, m)]).map Prod.fst)).flatMap
        fun m' => m'.2.imports).length ≤
      ((modules.filter fun m' => decide (m'.1 ∉ listed.map Prod.fst)).flatMap
        fun m' => m'.2.imports).length := by
    intro modules
    refine (List.Sublist.flatMap ?_ _).length_le
    refine List.monotone_filter_right modules fun m' hm' => ?_
    simp only [List.map_append, List.mem_append, decide_eq_true_eq] at hm' ⊢
    exact fun h => hm' (.inl h)
  have hafter := hless after
  have hbefore := hless before
  have hself : decide (id ∉ (listed ++ [(id, m)]).map Prod.fst) = false := by simp
  have hfresh : decide (id ∉ listed.map Prod.fst) = true := decide_eq_true hid
  simp only [heq, List.filter_append, List.filter_cons, hself, hfresh, List.flatMap_append,
    List.flatMap_cons, List.length_append, if_true, Bool.false_eq_true, if_false]
  omega

/-- The bound suffices at the root. -/
theorem length_le_importCount (p : Program) :
    [p.root].length + (p.unlistedImports []).length ≤ p.importCount + 1 := by
  have hnone : p.modules.filter (fun m => decide (m.1 ∉ ([] : List (String × Module)).map
      Prod.fst)) = p.modules := List.filter_eq_self.mpr fun _ _ => rfl
  rw [unlistedImports, hnone, List.length_singleton, Nat.add_comm]
  exact Nat.le_refl _

/-! ## The walk -/

/-- **The walk over pending ids**, one id after the other, to what it comes to. -/
inductive Visits (p : Program) : List String → List (String × Module) →
    Except LoweringError (List (String × Module)) → Prop
  | done {listed : List (String × Module)} : Visits p [] listed (.ok listed)
  | again {id : String} {pending : List String} {listed : List (String × Module)}
      {r : Except LoweringError (List (String × Module))} : id ∈ listed.map Prod.fst →
      Visits p pending listed r → Visits p (id :: pending) listed r
  | missing {id : String} {pending : List String} {listed : List (String × Module)} :
      id ∉ listed.map Prod.fst → p.module? id = none →
      Visits p (id :: pending) listed (.error (.unknownModule id))
  | list {id : String} {pending : List String} {listed : List (String × Module)} {m : Module}
      {r : Except LoweringError (List (String × Module))} : id ∉ listed.map Prod.fst →
      p.module? id = some m → Visits p (m.imports ++ pending) (listed ++ [(id, m)]) r →
      Visits p (id :: pending) listed r

/-- Within its bound, visiting what is pending is the walk. -/
theorem visits_visit : ∀ {n : Nat} {pending : List String} {listed : List (String × Module)},
    pending.length + (p.unlistedImports listed).length ≤ n →
    p.Visits pending listed (p.visit n pending listed)
  | n, [], listed, _ => by
    have hrun : p.visit n [] listed = .ok listed := by cases n <;> rfl
    rw [hrun]
    exact .done
  | 0, _ :: _, _, hn => by simp at hn
  | n + 1, id :: pending, listed, hn => by
    have hany : (listed.any fun m => m.1 == id) = true ↔ id ∈ listed.map Prod.fst := by
      simp only [List.any_eq_true, beq_iff_eq, List.mem_map]
    rw [List.length_cons] at hn
    rw [visit]
    by_cases hid : id ∈ listed.map Prod.fst
    · rw [if_pos (hany.mpr hid)]
      exact .again hid (visits_visit (by omega))
    · rw [if_neg (fun hmem => hid (hany.mp hmem))]
      cases hm : p.module? id with
      | none => exact .missing hid hm
      | some m =>
        -- the imports that become pending are no longer among those of unlisted modules
        have hless := length_unlistedImports hid hm
        refine .list hid hm (visits_visit ?_)
        rw [List.length_append]
        omega

/-- **The modules of a program are what the walk from its root comes to.** -/
theorem visits_reachable (p : Program) : p.Visits [p.root] [] p.reachable :=
  visits_visit p.length_le_importCount

/-! ## What is listed -/

/-- **A list of the modules that the program consists of**, the root first. -/
structure Lists (p : Program) (modules : List (String × Module)) : Prop where
  distinct : (modules.map Prod.fst).Nodup
  mem_iff : ∀ id m, (id, m) ∈ modules ↔ p.Includes id m
  closed : ∀ listed ∈ modules, ∀ id ∈ listed.2.imports, id ∈ modules.map Prod.fst
  first : ∃ m rest, modules = (p.root, m) :: rest

/-- The error reports a needed module that is not there. -/
def Missing (p : Program) (e : LoweringError) : Prop :=
  ∃ id, e = .unknownModule id ∧ p.Needs id ∧ p.module? id = none

/-- The walk ends with nothing pending, or at a needed module that is not
there. -/
theorem Visits.decides {r : Except LoweringError (List (String × Module))}
    (hwalk : p.Visits pending listed r) (h : p.Frontier pending listed) :
    Decides r (∀ id, p.Needs id → ∃ m, p.module? id = some m) (p.Frontier []) p.Missing := by
  induction hwalk with
  | done =>
    refine (Decides.of_ok rfl h).imp (iff_of_true trivial fun id hid => ?_)
      (fun _ _ hgood => hgood) fun _ _ hbad => hbad
    obtain ⟨m, hm⟩ := h.listed_of_needs hid
    exact ⟨m, (h.included id m hm).2⟩
  | again hid _ ih => exact ih (h.skip hid)
  | @missing id _ _ _ hm =>
    have hneeds : p.Needs id := h.needed id List.mem_cons_self
    refine Decides.of_error rfl (fun hall => ?_) ⟨id, rfl, hneeds, hm⟩
    obtain ⟨m, hm'⟩ := hall id hneeds
    rw [hm] at hm'
    cases hm'
  | list hid hm _ ih => exact ih (h.list hid hm)

/-- **The modules of a program are listed exactly when all that it needs is
there.** -/
theorem reachable_decides (p : Program) :
    Decides p.reachable (∀ id, p.Needs id → ∃ m, p.module? id = some m) p.Lists p.Missing := by
  refine (p.visits_reachable.decides (Frontier.start p)).imp Iff.rfl ?_ fun _ _ hbad => hbad
  intro modules _ h
  refine ⟨h.distinct, fun id m => ⟨h.included id m, ?_⟩, ?_, ?_⟩
  · rintro ⟨hneeds, hm⟩
    obtain ⟨m', hm'⟩ := h.listed_of_needs hneeds
    obtain rfl : m = m' := Option.some.inj (hm.symm.trans (h.included _ _ hm').2)
    exact hm'
  · exact fun listed hm id hid => (h.closed _ _ hm id hid).resolve_right nofun
  · rcases h.first with hfirst | ⟨-, hpending⟩
    · exact hfirst
    · cases hpending

end Program

end Source

end BlockIR
