import BlockIR.Proofs.Source.Reachable
import BlockIR.Proofs.Traversal
/-!
# Modules are discovered in preorder

The walk over imports keeps its pending ids on one list, where ids stay that have
been listed since. Seen as a whole that list is a stack of suspended traversals:
in front what is left of the imports of the module listed last, behind it what is
left of the imports of the one that imports it, and so on. So to walk over some
ids before all else is to traverse them depth-first
(`visits_of_traverses`), and the modules of a program are listed in the preorder
of the traversal from its root.
-/

namespace BlockIR

namespace Source

namespace Program

variable {p : Program} {id : String} {m : Module} {ids ids' pending : List String}
variable {listed listed' : List (String × Module)} {s s' : Marks String}

/-! ## The graph of imports -/

/-- The ids that a module imports, none if it is not there. -/
def importsOf (p : Program) (id : String) : List String :=
  ((p.module? id).map Module.imports).getD []

/-- The imports of a module that is there are its own. -/
theorem importsOf_of_module (h : p.module? id = some m) : p.importsOf id = m.imports := by
  rw [importsOf, h]
  rfl

/-- A module that is not there imports nothing. -/
theorem importsOf_of_missing (h : p.module? id = none) : p.importsOf id = [] := by
  rw [importsOf, h]
  rfl

/-- A program needs what imports lead to from its root. -/
theorem needs_iff_path : p.Needs id ↔ Traverses.Path p.importsOf p.root id := by
  constructor
  · intro h
    induction h with
    | root => exact .refl
    | imported _ hm hi ih =>
      refine ih.tail ?_
      rw [Traverses.Edge, importsOf_of_module hm]
      exact hi
  · intro h
    induction h with
    | refl => exact .root
    | @tail id _ _ hedge ih =>
      rw [Traverses.Edge] at hedge
      cases hm : p.module? id with
      | none =>
        rw [importsOf_of_missing hm] at hedge
        cases hedge
      | some m =>
        rw [importsOf_of_module hm] at hedge
        exact .imported ih hm hedge

/-- All that is imported, and the root. -/
theorem importsOf_closed (p : Program) : ∀ id, ∀ i ∈ p.importsOf id,
    i ∈ p.root :: p.modules.flatMap fun entry => entry.2.imports := by
  intro id i hi
  cases hm : p.module? id with
  | none =>
    rw [importsOf_of_missing hm] at hi
    cases hi
  | some m =>
    rw [importsOf_of_module hm] at hi
    obtain ⟨before, after, heq, -⟩ := List.lookup_eq_some_iff.mp hm
    refine List.mem_cons_of_mem _ (List.mem_flatMap.mpr ⟨(id, m), ?_, hi⟩)
    simp [heq]

/-! ## Modules fetched in order -/

/-- **Modules are fetched for some ids**, in their order. -/
structure Fetched (p : Program) (ids : List String) (listed : List (String × Module)) : Prop where
  ids : listed.map Prod.fst = ids
  found : ∀ id m, (id, m) ∈ listed → p.module? id = some m

/-- **The first of some ids whose module is not there.** -/
def firstMissing? (p : Program) (ids : List String) : Option String :=
  ids.find? fun id => (p.module? id).isNone

/-- What was fetched is there. -/
theorem Fetched.exists_module (h : p.Fetched ids listed) (hid : id ∈ ids) :
    ∃ m, p.module? id = some m := by
  rw [← h.ids] at hid
  obtain ⟨⟨_, m⟩, hm, rfl⟩ := List.mem_map.mp hid
  exact ⟨m, h.found _ m hm⟩

/-- One more module that is there is fetched. -/
theorem Fetched.concat (h : p.Fetched ids listed) (hm : p.module? id = some m) :
    p.Fetched (ids ++ [id]) (listed ++ [(id, m)]) := by
  refine ⟨by rw [List.map_append, h.ids]; rfl, fun id' m' hmem => ?_⟩
  rcases List.mem_append.mp hmem with hmem | hmem
  · exact h.found id' m' hmem
  · cases List.mem_singleton.mp hmem
    exact hm

/-- What is fetched for some ids is determined by them. -/
theorem Fetched.unique (h : p.Fetched ids listed) (h' : p.Fetched ids listed') :
    listed = listed' := by
  induction ids generalizing listed listed' with
  | nil => rw [List.map_eq_nil_iff.mp h.ids, List.map_eq_nil_iff.mp h'.ids]
  | cons id ids ih =>
    obtain ⟨⟨_, m⟩, rest, rfl, rfl, hrest⟩ := List.map_eq_cons_iff.mp h.ids
    obtain ⟨⟨_, m'⟩, rest', rfl, rfl, hrest'⟩ := List.map_eq_cons_iff.mp h'.ids
    have hm := h.found _ m List.mem_cons_self
    have hm' := h'.found _ m' List.mem_cons_self
    obtain rfl := Option.some.inj (hm.symm.trans hm')
    rw [ih ⟨hrest, fun id m hmem => h.found id m (List.mem_cons_of_mem _ hmem)⟩
      ⟨hrest', fun id m hmem => h'.found id m (List.mem_cons_of_mem _ hmem)⟩]

/-- Where all is fetched, nothing is missing. -/
theorem Fetched.firstMissing? (h : p.Fetched ids listed) : p.firstMissing? ids = none := by
  refine List.find?_eq_none.mpr fun id hid => ?_
  obtain ⟨m, hm⟩ := h.exists_module hid
  simp [hm]

/-- The first missing module is the one after those that were fetched. -/
theorem firstMissing?_concat (h : p.Fetched ids listed) (hm : p.module? id = none) :
    p.firstMissing? (ids ++ [id]) = some id := by
  have hnone := h.firstMissing?
  rw [Program.firstMissing?] at hnone ⊢
  simp [List.find?_append, hnone, hm]

/-- The first missing module stays the first when more follow. -/
theorem firstMissing?_mono (h : p.firstMissing? ids = some id) (hlonger : ids <+: ids') :
    p.firstMissing? ids' = some id := by
  obtain ⟨more, rfl⟩ := hlonger
  rw [firstMissing?] at h ⊢
  rw [List.find?_append, h, Option.some_or]

/-- The first missing module is one that is not there. -/
theorem mem_of_firstMissing? (h : p.firstMissing? ids = some id) :
    id ∈ ids ∧ p.module? id = none := by
  have hnone := List.find?_some h
  exact ⟨List.mem_of_find?_eq_some h, Option.isNone_iff_eq_none.mp hnone⟩

/-! ## The walk is a traversal -/

/-- **A visit comes to one result.** -/
theorem Visits.unique {r r' : Except LoweringError (List (String × Module))}
    (h : p.Visits pending listed r) (h' : p.Visits pending listed r') : r = r' := by
  induction h with
  | done =>
    cases h'
    rfl
  | again hid _ ih =>
    cases h' with
    | again _ hrest => exact ih hrest
    | missing hid' _ => exact absurd hid hid'
    | list hid' _ _ => exact absurd hid hid'
  | missing hid hm =>
    cases h' with
    | again hid' _ => exact absurd hid' hid
    | missing _ _ => rfl
    | list _ hm' _ => cases hm.symm.trans hm'
  | list hid hm _ ih =>
    cases h' with
    | again hid' _ => exact absurd hid' hid
    | missing _ hm' => cases hm.symm.trans hm'
    | list _ hm' hrest =>
      obtain rfl := Option.some.inj (hm.symm.trans hm')
      exact ih hrest

/-- **To walk over some ids is to traverse them**, whatever else is pending: the
walk goes on with the rest, with all listed that the traversal has met, or it
stops at the first of those that is not there. -/
theorem visits_of_traverses (h : Traverses p.importsOf ids s s')
    (hlisted : p.Fetched s.met listed) :
    (∃ listed', p.Fetched s'.met listed' ∧
      ∀ pending r, p.Visits pending listed' r → p.Visits (ids ++ pending) listed r) ∨
    ∃ id, p.firstMissing? s'.met = some id ∧
      ∀ pending, p.Visits (ids ++ pending) listed (.error (.unknownModule id)) := by
  induction h generalizing listed with
  | nil => exact .inl ⟨listed, hlisted, fun _ _ hrest => hrest⟩
  | again hmet _ ih =>
    rw [← hlisted.ids] at hmet
    rcases ih hlisted with ⟨listed', hlisted', hwalk⟩ | ⟨id, hmissing, hwalk⟩
    · exact .inl ⟨listed', hlisted', fun pending r hrest => .again hmet (hwalk pending r hrest)⟩
    · exact .inr ⟨id, hmissing, fun pending => .again hmet (hwalk pending)⟩
  | @visit id ids s inner s' hnew hinner hrest ihinner ihrest =>
    have hid : id ∉ listed.map Prod.fst := hlisted.ids ▸ hnew
    cases hm : p.module? id with
    | none =>
      have hlonger := hinner.met_grows.trans hrest.met_grows
      exact .inr ⟨id, firstMissing?_mono (firstMissing?_concat hlisted hm) hlonger,
        fun _ => .missing hid hm⟩
    | some m =>
      rw [importsOf_of_module hm] at ihinner
      rcases ihinner (hlisted.concat hm) with ⟨listed₁, hlisted₁, hwalk₁⟩ | ⟨i, hmissing, hwalk⟩
      · -- the imports are walked over with the siblings pending, and those follow
        rcases ihrest hlisted₁ with ⟨listed₂, hlisted₂, hwalk₂⟩ | ⟨i, hmissing, hwalk⟩
        · exact .inl ⟨listed₂, hlisted₂, fun pending r hr =>
            .list hid hm (hwalk₁ _ r (hwalk₂ pending r hr))⟩
        · exact .inr ⟨i, hmissing, fun pending => .list hid hm (hwalk₁ _ _ (hwalk pending))⟩
      · exact .inr ⟨i, firstMissing?_mono hmissing hrest.met_grows,
          fun _ => .list hid hm (hwalk _)⟩

section Preorder

variable (hs : Traverses p.importsOf [p.root] {} s)
include hs

/-- The traversal from the root meets what the program needs. -/
theorem mem_preorder_iff : id ∈ s.met ↔ p.Needs id := by
  rw [hs.mem_met_iff, needs_iff_path]
  simp

/-- **Discovery follows the traversal from the root**: it lists what that meets, or
stops at the first that is not there. -/
theorem reachable_of_preorder :
    (∃ modules, p.Fetched s.met modules ∧ p.reachable = .ok modules) ∨
      ∃ id, p.firstMissing? s.met = some id ∧ p.reachable = .error (.unknownModule id) := by
  have hnone : p.Fetched ({} : Marks String).met [] :=
    ⟨rfl, fun _ _ hmem => absurd hmem List.not_mem_nil⟩
  rcases visits_of_traverses hs hnone with ⟨modules, hfetched, hwalk⟩ | ⟨id, hmissing, hwalk⟩
  · exact .inl ⟨modules, hfetched, p.visits_reachable.unique (hwalk [] _ .done)⟩
  · exact .inr ⟨id, hmissing, p.visits_reachable.unique (hwalk [])⟩

end Preorder

/-- **Discovery is the depth-first traversal of imports from the root.** The
traversal ends, in one state; it meets each id that the program needs once. The
walk over pending ids ends too, and comes to what the program finds: to the
modules of the ids in preorder if all of them are there, and otherwise to an error
that names the first in preorder that is not. -/
theorem reachable_eq_preorder (p : Program) :
    ∃ s, Traverses p.importsOf [p.root] {} s ∧
      (∀ s', Traverses p.importsOf [p.root] {} s' → s' = s) ∧
      s.met.Nodup ∧ (∀ id, id ∈ s.met ↔ p.Needs id) ∧
      (∀ r, p.Visits [p.root] [] r ↔ p.reachable = r) ∧
      (∀ modules, p.reachable = .ok modules ↔ p.Fetched s.met modules) ∧
      (∀ e, p.reachable = .error e ↔ ∃ id, p.firstMissing? s.met = some id ∧
        e = .unknownModule id) ∧
      ((∃ e, p.reachable = .error e) ↔ ∃ id, p.Needs id ∧ p.module? id = none) := by
  obtain ⟨s, hs⟩ := Traverses.exists_of_closed (fun id _ => p.importsOf_closed id)
    (fun id hid => List.mem_cons.mpr (.inl (List.mem_singleton.mp hid))) ({} : Marks String)
  have hwalks : ∀ r, p.Visits [p.root] [] r ↔ p.reachable = r := by
    intro r
    refine ⟨fun h => p.visits_reachable.unique h, ?_⟩
    rintro rfl
    exact p.visits_reachable
  refine ⟨s, hs, fun s' hs' => hs'.unique hs, hs.nodup_met List.nodup_nil,
    fun _ => mem_preorder_iff hs, hwalks, ?_⟩
  rcases reachable_of_preorder hs with ⟨modules, hfetched, hreach⟩ | ⟨id, hmissing, hreach⟩
  · rw [hreach]
    refine ⟨fun modules' => ?_, fun e => iff_of_false (by rintro ⟨⟩) ?_,
      iff_of_false (by rintro ⟨_, ⟨⟩⟩) ?_⟩
    · rw [Except.ok.injEq]
      exact ⟨fun heq => heq ▸ hfetched, fun h => hfetched.unique h⟩
    · rintro ⟨id, hmissing, -⟩
      cases hfetched.firstMissing?.symm.trans hmissing
    · rintro ⟨id, hneeds, hmodule⟩
      obtain ⟨m, hm⟩ := hfetched.exists_module ((mem_preorder_iff hs).mpr hneeds)
      cases hmodule.symm.trans hm
  · rw [hreach]
    refine ⟨fun modules => iff_of_false (by rintro ⟨⟩) fun hfetched => ?_, fun e => ?_, ?_⟩
    · cases hfetched.firstMissing?.symm.trans hmissing
    · rw [hmissing, Except.error.injEq]
      simp [eq_comm]
    · obtain ⟨hmet, hmodule⟩ := mem_of_firstMissing? hmissing
      exact iff_of_true ⟨_, rfl⟩ ⟨id, (mem_preorder_iff hs).mp hmet, hmodule⟩

end Program

end Source

end BlockIR
