import BlockIR.Proofs.Source.Safety
import BlockIR.Proofs.Source.Semantics
import BlockIR.Proofs.Traversal
import Mathlib.Data.List.Forall2
import Mathlib.Data.List.Induction
import Mathlib.Data.List.Perm.Subperm
/-!
# Modules are initialized dependencies first

A lowered program lists the positions of its modules in the order of a walk over
the imports of its rows, and the meaning of a program tree initializes modules
in the order of a walk over ids. The two walks go in step: `Tracks` relates
them. A walk that may have as many modules open as it has not met meets all that
the root needs, so the walks from all other modules add nothing.
-/

namespace BlockIR

namespace Source

namespace Program

variable {p : Program} {modules : List (String × Module)} {id : String} {m : Module}
variable {n : Nat} {w w' w'' : ImportWalk}

/-! ## The walk over ids -/

/-- How many of some modules a walk has not met. -/
def ImportWalk.unmet (w : ImportWalk) (modules : List (String × Module)) : Nat :=
  ((modules.map Prod.fst).filter fun id => decide (id ∉ w.met)).length

/-- **A walk goes on from one state to another**: nothing is forgotten, and what is
newly met is done, after all that it imports was met. -/
structure ImportWalk.Onward (w w' : ImportWalk) : Prop where
  met : w.met ⊆ w'.met
  order : w.order ⊆ w'.order
  done : ∀ id ∈ w'.met, id ∈ w.met ∨ ∃ m, (id, m) ∈ w'.order ∧ ∀ i ∈ m.imports, i ∈ w'.met

namespace ImportWalk

theorem Onward.refl (w : ImportWalk) : w.Onward w :=
  ⟨List.Subset.refl _, List.Subset.refl _, fun _ hid => .inl hid⟩

theorem Onward.trans (h : w.Onward w') (h' : w'.Onward w'') : w.Onward w'' := by
  refine ⟨List.Subset.trans h.met h'.met, List.Subset.trans h.order h'.order, fun id hid => ?_⟩
  rcases h'.done id hid with hmet | hdone
  · rcases h.done id hmet with hmet | ⟨m, hm, himports⟩
    · exact .inl hmet
    · exact .inr ⟨m, h'.order hm, fun i hi => h'.met (himports i hi)⟩
  · exact .inr hdone

theorem Onward.unmet_le (h : w.Onward w') : w'.unmet modules ≤ w.unmet modules :=
  Traverses.unmet_le _ h.met

/-- All is met when nothing is unmet. -/
theorem mem_met_of_unmet (h : w.unmet modules = 0) (hid : id ∈ modules.map Prod.fst) :
    id ∈ w.met :=
  Traverses.mem_of_unmet h hid

/-- Meeting a module leaves fewer unmet. -/
theorem unmet_meet (hid : id ∈ modules.map Prod.fst) (hmet : id ∉ w.met) :
    ({ w with met := id :: w.met } : ImportWalk).unmet modules < w.unmet modules :=
  Traverses.unmet_lt hid hmet List.mem_cons_self (List.subset_cons_self id w.met)

end ImportWalk

/-- A module that was met is passed over. -/
theorem walk_of_mem (h : id ∈ w.met) (n : Nat) : p.walk n id w = w := by
  cases n with
  | zero => rfl
  | succ n => rw [walk, if_pos h]

/-- Modules that are walked in turn are all met, if each is. -/
theorem foldl_onward {g : ImportWalk → String → ImportWalk} (imports : List String)
    (hg : ∀ i ∈ imports, ∀ w : ImportWalk, w.unmet modules ≤ n →
      w.Onward (g w i) ∧ i ∈ (g w i).met) (w : ImportWalk) (hn : w.unmet modules ≤ n) :
    w.Onward (imports.foldl g w) ∧ ∀ i ∈ imports, i ∈ (imports.foldl g w).met := by
  induction imports generalizing w with
  | nil => exact ⟨.refl w, nofun⟩
  | cons i rest ih =>
    rw [List.forall_mem_cons] at hg
    obtain ⟨hfirst, hi⟩ := hg.1 w hn
    obtain ⟨hrest, hall⟩ := ih hg.2 (g w i) (Nat.le_trans hfirst.unmet_le hn)
    exact ⟨hfirst.trans hrest, List.forall_mem_cons.mpr ⟨hrest.met hi, hall⟩⟩

/-- **A walk that may open as many modules as are unmet meets its module**, and
completes all that it meets. -/
theorem walk_onward (hlists : p.Lists modules) (n : Nat) (id : String) (w : ImportWalk)
    (hid : id ∈ modules.map Prod.fst) (hn : w.unmet modules ≤ n) :
    w.Onward (p.walk n id w) ∧ id ∈ (p.walk n id w).met := by
  induction n generalizing id w with
  | zero =>
    exact ⟨.refl w, ImportWalk.mem_met_of_unmet (Nat.le_zero.mp hn) hid⟩
  | succ n ih =>
    by_cases hmet : id ∈ w.met
    · rw [walk_of_mem hmet]
      exact ⟨.refl w, hmet⟩
    · obtain ⟨⟨_, m⟩, hm, rfl⟩ := List.mem_map.mp hid
      have hmodule := ((hlists.mem_iff _ _).mp hm).2
      rw [walk, if_neg hmet, hmodule]
      have hless := ImportWalk.unmet_meet hid hmet
      obtain ⟨hinner, himports⟩ := foldl_onward m.imports
        (fun i hi w hw => ih i w (hlists.closed _ hm i hi) hw) _ (Nat.le_of_lt_succ (Nat.lt_of_lt_of_le hless hn))
      have hself := hinner.met List.mem_cons_self
      refine ⟨⟨fun i hi => hinner.met (List.mem_cons_of_mem _ hi),
        fun entry hentry => List.mem_append_left _ (hinner.order hentry), fun i hi => ?_⟩, hself⟩
      rcases hinner.done i hi with hopen | ⟨m', hm', himports'⟩
      · rcases List.mem_cons.mp hopen with rfl | hw
        · exact .inr ⟨m, List.mem_append_right _ List.mem_cons_self, himports⟩
        · exact .inl hw
      · exact .inr ⟨m', List.mem_append_left _ hm', himports'⟩

/-! ## The walk over positions -/

/-- **A walk over positions tracks a walk over ids.** -/
structure Tracks (modules : List (String × Module)) (v : InitOrder.Walk) (w : ImportWalk) :
    Prop where
  met : List.Forall₂ (fun i id => (modules.map Prod.fst)[i]? = some id) v.met w.met
  done : List.Forall₂ (fun i listed => modules[i]? = some listed) v.done w.order

variable {v : InitOrder.Walk} {i : ModuleIndex}

theorem Tracks.mem_met_iff (h : Tracks modules v w) (hdistinct : (modules.map Prod.fst).Nodup)
    (hid : (modules.map Prod.fst)[i]? = some id) : i ∈ v.met ↔ id ∈ w.met := by
  have hmet := h.met
  generalize v.met = positions, w.met = ids at hmet ⊢
  induction hmet with
  | nil => simp
  | @cons j other _ _ hother _ ih =>
    have heq : i = j ↔ id = other := by
      constructor
      · rintro rfl
        exact Option.some.inj (hid.symm.trans hother)
      · rintro rfl
        have hlt := (List.getElem?_eq_some_iff.mp hid).1
        exact (List.getElem?_inj hlt hdistinct).mp (hid.trans hother.symm)
    rw [List.mem_cons, List.mem_cons]
    exact or_congr heq ih

/-- What is done is listed. -/
theorem Tracks.mem_of_done (h : Tracks modules v w) : ∀ listed ∈ w.order, listed ∈ modules := by
  have hdone := h.done
  generalize v.done = positions, w.order = order at hdone ⊢
  induction hdone with
  | nil => exact nofun
  | cons hlisted _ ih => exact List.forall_mem_cons.mpr ⟨List.mem_of_getElem? hlisted, ih⟩

theorem visit_of_mem {imports : ModuleIndex → List ModuleIndex} (h : i ∈ v.met) (n : Nat) :
    InitOrder.visit imports n i v = v := by
  cases n with
  | zero => rfl
  | succ n => rw [InitOrder.visit, if_pos h]

theorem getElem?_positionIn (hid : id ∈ modules.map Prod.fst) :
    (modules.map Prod.fst)[positionIn modules id]? = some id :=
  List.getElem?_idxOf hid

/-- The positions of imports are listed once each. -/
theorem mem_foldl_addImport {j : ModuleIndex} (js : List ModuleIndex) :
    j ∈ js.foldl Assembly.addImport [] ↔ j ∈ js := by
  induction js using List.reverseRecOn with
  | nil => rfl
  | append_singleton js k ih =>
    rw [List.foldl_append, List.foldl_cons, List.foldl_nil, Assembly.addImport]
    split
    · rename_i hk
      rw [ih, List.mem_append, List.mem_singleton]
      refine ⟨.inl, fun hj => hj.elim id ?_⟩
      rintro rfl
      exact ih.mp hk
    · rw [List.mem_append, List.mem_append, ih]

section

variable (hlists : p.Lists modules) {imports : ModuleIndex → List ModuleIndex} {n' : Nat}
include hlists

/-- Walks over the imports of a module go in step. -/
theorem foldl_tracks (ids : List String) (hids : ∀ id ∈ ids, id ∈ modules.map Prod.fst)
    (hvisit : ∀ id ∈ ids, ∀ v (w : ImportWalk), Tracks modules v w → w.unmet modules ≤ n →
      w.unmet modules ≤ n' →
      Tracks modules (InitOrder.visit imports n (positionIn modules id) v) (p.walk n' id w))
    (htracks : Tracks modules v w) (hn : w.unmet modules ≤ n) (hn' : w.unmet modules ≤ n') :
    Tracks modules (((ids.map (positionIn modules)).foldl Assembly.addImport []).foldl
      (fun v i => InitOrder.visit imports n i v) v) (ids.foldl (fun w id => p.walk n' id w) w) := by
  induction ids using List.reverseRecOn with
  | nil => exact htracks
  | append_singleton ids id ih =>
    rw [List.forall_mem_append, List.forall_mem_singleton] at hids hvisit
    obtain ⟨honward, hmet⟩ := foldl_onward ids
      (fun i hi w hw => p.walk_onward hlists n' i w (hids.1 i hi) hw) w hn'
    have hprevious := ih hids.1 hvisit.1
    rw [List.map_append, List.map_singleton, List.foldl_append, List.foldl_append, List.foldl_cons,
      List.foldl_nil, List.foldl_cons, List.foldl_nil, Assembly.addImport]
    split
    · rename_i hagain
      -- an import that is repeated was met
      obtain ⟨id', hid', heq⟩ := List.mem_map.mp ((mem_foldl_addImport _).mp hagain)
      have hsame := (getElem?_positionIn (hids.1 id' hid')).symm.trans
        (heq ▸ getElem?_positionIn hids.2)
      cases Option.some.inj hsame
      rw [walk_of_mem (hmet _ hid')]
      exact hprevious
    · rw [List.foldl_append, List.foldl_cons, List.foldl_nil]
      exact hvisit.2 _ _ hprevious (Nat.le_trans honward.unmet_le hn)
        (Nat.le_trans honward.unmet_le hn')

/-- **Walks from a module go in step**, if both may open as many modules as are
unmet. -/
theorem visit_tracks (himports : ∀ (i : Nat) id m, modules[i]? = some (id, m) →
      imports i = (m.imports.map (positionIn modules)).foldl Assembly.addImport [])
    (hid : (modules.map Prod.fst)[i]? = some id) (htracks : Tracks modules v w)
    (hn : w.unmet modules ≤ n) (hn' : w.unmet modules ≤ n') :
    Tracks modules (InitOrder.visit imports n i v) (p.walk n' id w) := by
  induction n generalizing n' i id v w with
  | zero =>
    have hmet : id ∈ w.met :=
      ImportWalk.mem_met_of_unmet (Nat.le_zero.mp hn) (List.mem_of_getElem? hid)
    rw [walk_of_mem hmet]
    exact htracks
  | succ n ih =>
    have hiff := htracks.mem_met_iff hlists.distinct hid
    by_cases hmet : id ∈ w.met
    · rw [walk_of_mem hmet, visit_of_mem (hiff.mpr hmet)]
      exact htracks
    · have hmem : id ∈ modules.map Prod.fst := List.mem_of_getElem? hid
      have hless := ImportWalk.unmet_meet hmem hmet
      obtain ⟨k, rfl⟩ : ∃ k, n' = k + 1 :=
        Nat.exists_eq_succ_of_ne_zero (Nat.ne_of_gt (Nat.lt_of_lt_of_le (Nat.zero_lt_of_lt hless) hn'))
      obtain ⟨⟨_, m⟩, hlisted, rfl⟩ := Option.map_eq_some_iff.mp (List.getElem?_map.symm.trans hid)
      have hincludes := (hlists.mem_iff _ _).mp (List.mem_of_getElem? hlisted)
      rw [InitOrder.visit, if_neg (mt hiff.mp hmet), himports i _ m hlisted, walk, if_neg hmet,
        hincludes.2]
      have hclosed := hlists.closed _ (List.mem_of_getElem? hlisted)
      have hbegun : Tracks modules { v with met := i :: v.met } { w with met := _ :: w.met } :=
        ⟨.cons hid htracks.met, htracks.done⟩
      have hinner := foldl_tracks hlists m.imports hclosed
        (fun i hi v w h hn hn' => ih (getElem?_positionIn (hclosed i hi)) h hn hn') hbegun
        (Nat.le_of_lt_succ (Nat.lt_of_lt_of_le hless hn))
        (Nat.le_of_lt_succ (Nat.lt_of_lt_of_le hless hn'))
      exact ⟨hinner.met, List.rel_append hinner.done (.cons hlisted .nil)⟩

end

/-! ## The order of a lowered program -/

/-- A walk from the root that has completed all that it met has met all that the
program needs. -/
theorem mem_met_of_needs (hlists : p.Lists modules) (hwalk : ImportWalk.Onward {} w)
    (hroot : p.root ∈ w.met) (horder : ∀ listed ∈ w.order, listed ∈ modules)
    (hid : p.Needs id) : id ∈ w.met := by
  induction hid with
  | root => exact hroot
  | imported _ hm hi ih =>
    obtain ⟨m', hm', himports⟩ := (hwalk.done _ ih).resolve_left List.not_mem_nil
    have hmodule := ((hlists.mem_iff _ _).mp (horder _ hm')).2
    cases hm.symm.trans hmodule
    exact himports _ hi

theorem Lists.length_le (hlists : p.Lists modules) : modules.length ≤ p.modules.length := by
  have hsubset : modules.map Prod.fst ⊆ p.modules.map Prod.fst := by
    intro id hid
    obtain ⟨⟨_, m⟩, hm, rfl⟩ := List.mem_map.mp hid
    obtain ⟨before, after, heq, -⟩ := List.lookup_eq_some_iff.mp ((hlists.mem_iff _ _).mp hm).2
    simp [heq]
  simpa using (List.subperm_of_subset hlists.distinct hsubset).length_le

variable {entry : String} {d : Declared} {lowered : BlockIR.Program}

/-- Each row imports the positions of what its module imports. -/
theorem Lowering.importsOf_eq (h : p.Lowering entry modules d lowered) (i : Nat) (id : String)
    (m : Module) (hlisted : modules[i]? = some (id, m)) :
    InitOrder.importsOf lowered.modules i =
      (m.imports.map (positionIn modules)).foldl Assembly.addImport [] := by
  obtain ⟨slots, hdeclared⟩ := h.covers.rows i id m hlisted
  obtain ⟨row, hrow, hshape⟩ := h.exists_row hdeclared
  have himports : row.imports = (rowOf modules id m slots).imports :=
    congrArg (fun shape => shape.2.2.1) hshape
  rw [InitOrder.importsOf, hrow]
  exact himports

theorem Lowering.size_modules (h : p.Lowering entry modules d lowered) :
    lowered.modules.size = modules.length := by
  have hids := congrArg List.length h.ids_eq
  rwa [List.length_map, List.length_map, Array.length_toList] at hids

/-- **A lowered program initializes its modules in the order of their
dependencies**, and all of them. -/
theorem Lowering.initOrder_tracks (h : p.Lowering entry modules d lowered) :
    List.Forall₂ (fun i listed => modules[i]? = some listed) lowered.initOrder
        p.dependencyOrder ∧
      ∀ listed, listed ∈ p.dependencyOrder ↔ listed ∈ modules := by
  obtain ⟨root, rest, hfirst⟩ := h.lists.first
  have hroot : (modules.map Prod.fst)[0]? = some p.root := by simp [hfirst]
  have hunmet : ({} : ImportWalk).unmet modules = modules.length := by
    simp [ImportWalk.unmet]
  have hbound : ({} : ImportWalk).unmet modules ≤ p.modules.length :=
    hunmet ▸ h.lists.length_le
  have hstart : Tracks modules {} {} := ⟨.nil, .nil⟩
  have htracks := visit_tracks h.lists h.importsOf_eq hroot hstart (Nat.le_of_eq hunmet) hbound
  obtain ⟨honward, hmet⟩ := p.walk_onward h.lists p.modules.length p.root {}
    (List.mem_of_getElem? hroot) hbound
  have hneeds : ∀ id, p.Needs id → id ∈ (p.walk p.modules.length p.root {}).met := fun id hid =>
    mem_met_of_needs h.lists honward hmet htracks.mem_of_done hid
  constructor
  · have hall : ∀ i < modules.length,
        i ∈ (InitOrder.visit (InitOrder.importsOf lowered.modules) modules.length 0 {}).met := by
      intro i hi
      have hlisted : (modules.map Prod.fst)[i]? = some modules[i].1 := by simp [hi]
      refine (htracks.mem_met_iff h.lists.distinct hlisted).mpr (hneeds _ ?_)
      exact ((h.lists.mem_iff _ _).mp (List.getElem_mem hi)).1
    have horder : lowered.initOrder =
        (InitOrder.visit (InitOrder.importsOf lowered.modules) modules.length 0 {}).done := by
      have hlength : modules.length = rest.length + 1 := by rw [hfirst, List.length_cons]
      rw [hlength] at hall
      rw [h.initOrder, InitOrder.ofModules, h.size_modules, hlength, List.range_succ_eq_map,
        List.foldl_cons]
      -- nothing is left to meet after the root
      refine congrArg InitOrder.Walk.done (List.foldlRecOn (motive := (· = _)) _ _ rfl ?_)
      rintro _ rfl i hi
      obtain ⟨k, hk, rfl⟩ := List.mem_map.mp hi
      exact visit_of_mem (hall _ (Nat.succ_lt_succ (List.mem_range.mp hk))) _
    rw [horder]
    exact htracks.done
  · intro listed
    refine ⟨htracks.mem_of_done listed, fun hlisted => ?_⟩
    obtain ⟨hid, hmodule⟩ := (h.lists.mem_iff listed.1 listed.2).mp hlisted
    obtain ⟨m, hm, -⟩ := (honward.done _ (hneeds _ hid)).resolve_left List.not_mem_nil
    have hmodule' := ((h.lists.mem_iff _ _).mp (htracks.mem_of_done _ hm)).2
    cases hmodule.symm.trans hmodule'
    exact hm

end Program

end Source

end BlockIR
