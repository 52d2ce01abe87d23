import BlockIR.Proofs.Source.Declared
import BlockIR.Proofs.Source.Discovery
import BlockIR.Sample
/-!
# What lowering depends on

Lowering reads the modules that the program needs and nothing else, and counts
only the first of repeated imports. Both follow from one comparison: of a
program with another whose needed modules are revisions of its own that keep the
contents of each (`KeepsContents`). Discovery lists the revised modules in the
same order, declaring them leaves the same assembly and the same symbols, and no
later stage reads imports.
-/

namespace BlockIR

open Success

namespace Source

/-! ## Imports declared already -/

namespace Declared

variable {d d' : Declared} {i j : ModuleIndex} {row : BlockIR.Module} {id id' : String}

/-- A module imports another, as far as declared. -/
def Imports (d : Declared) (i : ModuleIndex) (id : String) : Prop :=
  ∃ j row row', d.assembly.moduleIndex? id = some j ∧ d.assembly.modules[i]? = some row ∧
    d.assembly.modules[j]? = some row' ∧ j ∈ row.imports

/-- What declaring an import does. -/
theorem declareImport_eq_ok (h : declareImport i d id = .ok d') :
    ∃ j row row', d.assembly.moduleIndex? id = some j ∧ d.assembly.modules[i]? = some row ∧
      d.assembly.modules[j]? = some row' ∧
      d' = d.withImports i row (Assembly.addImport row.imports j) := by
  obtain ⟨j, hj, h⟩ := bind_eq_ok.mp h
  obtain ⟨⟨_, d''⟩, hstep, hd⟩ := bind_eq_ok.mp h
  cases hindex : d.assembly.moduleIndex? id with
  | none =>
    rw [moduleIndex, hindex] at hj
    cases hj
  | some j' =>
    rw [moduleIndex_eq_ok hindex] at hj
    cases hj
    cases hrow' : d.assembly.modules[j]? with
    | none =>
      rw [assemble, Assembly.apply_importModule_unknown hrow'] at hstep
      cases hstep
    | some row' =>
      cases hrow : d.assembly.modules[i]? with
      | none =>
        rw [assemble, Assembly.apply_importModule_into_unknown hrow hrow'] at hstep
        cases hstep
      | some row =>
        rw [assemble_eq_ok (Assembly.apply_importModule hrow hrow')] at hstep
        cases hstep
        cases hd
        exact ⟨j, row, row', rfl, rfl, hrow', rfl⟩

/-- An import that is there already is left as it is. -/
theorem Imports.declareImport_eq (h : d.Imports i id) : declareImport i d id = .ok d := by
  obtain ⟨j, row, row', hindex, hrow, hrow', hj⟩ := h
  have hsame : Assembly.addImport row.imports j = row.imports := if_pos hj
  unfold declareImport
  rw [moduleIndex_eq_ok hindex]
  change (d.assemble _ >>= fun r => pure r.2) = _
  rw [assemble_eq_ok (Assembly.apply_importModule hrow hrow'), hsame, Assembly.putModule_self hrow]
  rfl

/-- The rows that there are stay when one is changed. -/
theorem exists_row_withImports (hrow : d.assembly.modules[i]? = some row)
    {row' : BlockIR.Module} (hrow' : d.assembly.modules[j]? = some row')
    (imports : List ModuleIndex) :
    ∃ row', (d.withImports i row imports).assembly.modules[j]? = some row' := by
  by_cases hj : i = j
  · subst hj
    exact ⟨_, Assembly.module_putModule hrow⟩
  · exact ⟨row', (Assembly.module_putModule_ne hj).trans hrow'⟩

/-- A declared import is there, and those before it still are. -/
theorem imports_of_declareImport (h : declareImport i d id = .ok d') :
    d'.Imports i id ∧ ∀ id', d.Imports i id' → d'.Imports i id' := by
  obtain ⟨j, row, row', hindex, hrow, hrow', rfl⟩ := declareImport_eq_ok h
  have hnext := (rerows_withImports d i row (Assembly.addImport row.imports j)).module_eq hrow
  constructor
  · obtain ⟨row'', hrow''⟩ := exists_row_withImports hrow hrow' (Assembly.addImport row.imports j)
    refine ⟨j, _, row'', hindex, hnext, hrow'', ?_⟩
    show j ∈ Assembly.addImport row.imports j
    unfold Assembly.addImport
    split <;> simp_all
  · rintro id' ⟨k, row₁, row₂, hindex₁, hrow₁, hrow₂, hk⟩
    obtain rfl : row = row₁ := Option.some.inj (hrow.symm.trans hrow₁)
    obtain ⟨row'', hrow''⟩ := exists_row_withImports hrow hrow₂ (Assembly.addImport row.imports j)
    refine ⟨k, _, row'', hindex₁, hnext, hrow'', ?_⟩
    show k ∈ Assembly.addImport row.imports j
    unfold Assembly.addImport
    split <;> simp_all

/-- Declaring a list of imports passes over one that is there. -/
theorem foldlM_declareImport_filter (h : d.Imports i id) (imports : List String) :
    (imports.filter fun x => !x == id).foldlM (declareImport i) d =
      imports.foldlM (declareImport i) d := by
  induction imports generalizing d with
  | nil => rfl
  | cons next rest ih =>
    by_cases hnext : next = id
    · subst hnext
      rw [List.filter_cons_of_neg (by simp), List.foldlM_cons, h.declareImport_eq]
      exact ih h
    · rw [List.filter_cons_of_pos (by simpa using hnext), List.foldlM_cons, List.foldlM_cons]
      cases hstep : declareImport i d next with
      | error e => rfl
      | ok d' => exact ih ((imports_of_declareImport hstep).2 id h)

/-- **Of repeated imports only the first is declared.** -/
theorem foldlM_declareImport_eraseDups (imports : List String) :
    ∀ d, imports.eraseDups.foldlM (declareImport i) d = imports.foldlM (declareImport i) d := by
  induction imports using firsts_induction with
  | nil => exact fun _ => rfl
  | cons id rest ih =>
    -- once the first is declared the others of its id change nothing, so that the
    -- rest may be read without them
    intro d
    rw [List.eraseDups_cons, List.foldlM_cons, List.foldlM_cons]
    cases hstep : declareImport i d id with
    | error e => rfl
    | ok d' =>
      show _ = rest.foldlM (declareImport i) d'
      rw [← foldlM_declareImport_filter (imports_of_declareImport hstep).1 rest]
      exact ih d'

end Declared

/-! ## Declaring revised modules -/

/-- **A revision of modules keeps their contents**: what they declare, and what
they import up to repetition. -/
structure KeepsContents (g : String → Module → Module) : Prop where
  globals : ∀ id m, (g id m).globals = m.globals
  functions : ∀ id m, (g id m).functions = m.functions
  imports : ∀ id m, (g id m).imports.eraseDups = m.imports.eraseDups

namespace Declared

variable {g : String → Module → Module}

/-- Declared modules with those revised that have an initializer. -/
def revise (g : String → Module → Module) (d : Declared) : Declared where
  assembly := d.assembly
  symbols := d.symbols
  inits := d.inits.map fun init => (init.1, g init.1 init.2.1, init.2.2)

theorem assemble_revise {α : Type} (d : Declared) (x : Assemble α) :
    (d.revise g).assemble x = (fun r => (r.1, r.2.revise g)) <$> d.assemble x := by
  have hsame : (d.revise g).assembly = d.assembly := rfl
  unfold assemble
  rw [hsame]
  rcases x.apply d.assembly with ⟨e | a, a'⟩
  · rfl
  · rfl

theorem declareImport_revise (i : ModuleIndex) (d : Declared) (id : String) :
    declareImport i (d.revise g) id = revise g <$> declareImport i d id := by
  have hsame : (d.revise g).moduleIndex id = d.moduleIndex id := rfl
  simp only [declareImport, hsame, assemble_revise, map_bind, bind_map_left, map_pure]

theorem declareGlobal_revise (id : String) (i : ModuleIndex) (d : Declared) (v : GlobalDef) :
    declareGlobal id i (d.revise g) v = revise g <$> declareGlobal id i d v := by
  simp only [declareGlobal, assemble_revise, map_bind, bind_map_left, map_pure]
  rfl

theorem declareFunction_revise (id : String) (i : ModuleIndex) (d : Declared) (f : FunctionDef) :
    declareFunction id i (d.revise g) f = revise g <$> declareFunction id i d f := by
  simp only [declareFunction, assemble_revise, map_bind, bind_map_left, map_pure]
  rfl

theorem declareInit_revise (hg : KeepsContents g) (id : String) (m : Module) (i : ModuleIndex)
    (d : Declared) :
    declareInit id (g id m) i (d.revise g) = revise g <$> declareInit id m i d := by
  unfold declareInit
  rw [hg.globals]
  split
  · simp only [assemble_revise, map_bind, bind_map_left, map_pure]
    simp [revise]
  · rfl

/-- Declaring one thing after the other commutes with a revision when declaring
one does. -/
theorem foldlM_revise {τ : Type} {step step' : Declared → τ → Except LoweringError Declared}
    (hstep : ∀ d x, step' (d.revise g) x = revise g <$> step d x) (xs : List τ) (d : Declared) :
    xs.foldlM step' (d.revise g) = revise g <$> xs.foldlM step d := by
  induction xs generalizing d with
  | nil => rfl
  | cons x rest ih =>
    rw [List.foldlM_cons, List.foldlM_cons, hstep, bind_map_left, map_bind]
    exact bind_congr fun d' => ih d'

/-- **What a revised module contains is declared as before.** -/
theorem declareContents_revise (hg : KeepsContents g) (d : Declared) (entry : String × Module) :
    (d.revise g).declareContents (Program.revised g entry) =
      revise g <$> d.declareContents entry := by
  obtain ⟨id, m⟩ := entry
  have hsame : (d.revise g).moduleIndex id = d.moduleIndex id := rfl
  have himports : ∀ (i : ModuleIndex) (d : Declared),
      (g id m).imports.foldlM (declareImport i) d = m.imports.foldlM (declareImport i) d := by
    intro i d
    rw [← foldlM_declareImport_eraseDups, hg.imports, foldlM_declareImport_eraseDups]
  simp only [declareContents, Program.revised, hsame, himports, hg.globals, hg.functions,
    foldlM_revise (declareImport_revise _), foldlM_revise (declareGlobal_revise _ _),
    foldlM_revise (declareFunction_revise _ _), declareInit_revise hg, map_bind, bind_map_left]

/-- Declaring revised modules commutes with the revision when declaring the
contents of one does. -/
theorem ofModules_of_contents (hcontents : ∀ d entry, declareContents (revise g d)
      (Program.revised g entry) = revise g <$> declareContents d entry)
    (modules : List (String × Module)) :
    ofModules (modules.map (Program.revised g)) = revise g <$> ofModules modules := by
  have hadd : ∀ (modules : List (String × Module)) (d : Declared),
      (modules.map (Program.revised g)).foldl (fun d m => d.declareModule m.1) (d.revise g) =
        (modules.foldl (fun d m => d.declareModule m.1) d).revise g := by
    intro modules
    induction modules with
    | nil => exact fun _ => rfl
    | cons entry rest ih => exact fun d => ih (d.declareModule entry.1)
  have hstart := hadd modules {}
  rw [show ({} : Declared).revise g = {} from rfl] at hstart
  rw [ofModules, hstart, List.foldlM_map]
  exact foldlM_revise hcontents modules _

/-- Declaring revised modules leaves the same assembly and symbols. -/
theorem ofModules_revise (hg : KeepsContents g) (modules : List (String × Module)) :
    ofModules (modules.map (Program.revised g)) = revise g <$> ofModules modules :=
  ofModules_of_contents (declareContents_revise hg) modules

end Declared

/-! ## Lowering -/

namespace Program

variable {p q : Program} {g : String → Module → Module}

/-- **Lowering reads the needed modules only**, and nothing of them that a
revision keeping their contents may change. -/
theorem lower_of_revised (hg : KeepsContents g) (hroot : q.root = p.root)
    (hmodules : ∀ id, p.Needs id → q.module? id = (p.module? id).map (g id)) (entry : String) :
    q.lower entry = p.lower entry := by
  have hfunctions : ∀ symbols a m,
      lowerFunctions symbols a (revised g m) = lowerFunctions symbols a m := by
    intro symbols a m
    simp only [lowerFunctions, revised, hg.functions]
  have hinit : ∀ symbols a (init : String × Module × FunctionRef),
      lowerInit symbols a (init.1, g init.1 init.2.1, init.2.2) = lowerInit symbols a init := by
    intro symbols a init
    simp only [lowerInit, Module.lowerInit, hg.globals]
  have hentry : ∀ symbols, q.entryRef symbols entry = p.entryRef symbols entry := by
    intro symbols
    simp only [entryRef, hroot]
  simp only [lower, reachable_of_revised hroot hg.imports hmodules, bind_map_left,
    Declared.ofModules_revise hg, List.foldlM_map, Declared.revise, hfunctions, hinit, hentry]

/-- The needed modules are the same where those of one program are. -/
theorem needs_congr (hroot : q.root = p.root)
    (hmodules : ∀ id, p.Needs id → q.module? id = p.module? id) (id : String) :
    q.Needs id ↔ p.Needs id := by
  constructor
  · intro h
    induction h with
    | root => exact hroot ▸ .root
    | imported _ hm hi ih => exact .imported ih ((hmodules _ ih).symm.trans hm) hi
  · intro h
    induction h with
    | root => exact hroot ▸ .root
    | imported hid hm hi ih => exact .imported ih ((hmodules _ hid).trans hm) hi

end Program

/-- A module with every import but the first of each id removed. -/
def Module.dropRepeats (m : Module) : Module :=
  { m with imports := m.imports.eraseDups }

namespace Program

variable {p q : Program}

/-- The program tree with the repeated imports of some modules removed. -/
def dropRepeats (p : Program) (which : String → Bool) : Program where
  root := p.root
  modules := p.modules.map (revised fun id m => if which id then m.dropRepeats else m)

theorem module?_map_revised (g : String → Module → Module) (modules : List (String × Module))
    (id : String) : (modules.map (revised g)).lookup id = (modules.lookup id).map (g id) := by
  induction modules with
  | nil => rfl
  | cons entry rest ih =>
    obtain ⟨id', m⟩ := entry
    rw [List.map_cons, revised, List.lookup_cons, List.lookup_cons]
    cases hid : id == id' with
    | true =>
      obtain rfl : id = id' := beq_iff_eq.mp hid
      rfl
    | false => exact ih

theorem keepsContents_dropRepeats (which : String → Bool) :
    KeepsContents fun id m => if which id then m.dropRepeats else m where
  globals id m := by split <;> rfl
  functions id m := by split <;> rfl
  imports id m := by
    split
    · exact eraseDups_eraseDups m.imports
    · rfl

/-- **Lowering depends only on the modules reachable from the root, and not on
repeated imports.** Two program trees with the same root that agree at every id
reachable in one of them reach the same ids, and lower to the same program or
fail with the same error, whatever other modules they hold. A program tree does
so too with the repeated imports of any of its modules removed. -/
theorem lower_depends_only_on_reachable (p : Program) (entry : String) :
    (∀ q : Program, q.root = p.root → (∀ id, p.Needs id → q.module? id = p.module? id) →
      (∀ id, q.Needs id ↔ p.Needs id) ∧ q.lower entry = p.lower entry) ∧
    ∀ which, (p.dropRepeats which).lower entry = p.lower entry := by
  constructor
  · intro q hroot hmodules
    have hsame : KeepsContents fun _ m => m := ⟨fun _ _ => rfl, fun _ _ => rfl, fun _ _ => rfl⟩
    refine ⟨needs_congr hroot hmodules, lower_of_revised hsame hroot (fun id hneeds => ?_) entry⟩
    rw [hmodules id hneeds, Option.map_id']
  · intro which
    refine lower_of_revised (keepsContents_dropRepeats which) ?_ (fun id _ => ?_) entry
    · rfl
    · exact module?_map_revised _ p.modules id

/-- The diamond with one import repeated, and beside it a module that nothing
imports and that could not be lowered. -/
def crowdedDiamond : Program where
  root := Sample.diamond.root
  modules := ("spare", { imports := ["nowhere"] }) ::
    Sample.diamond.modules.map (revised fun id m =>
      if id == "main" then { m with imports := "left" :: m.imports ++ m.imports } else m)

/-- The spare module and the repeated imports make no difference to the
diamond. -/
theorem lower_depends_only_on_reachable_diamond :
    crowdedDiamond.module? "spare" ≠ Sample.diamond.module? "spare" ∧
      (crowdedDiamond.module? "main").map (·.imports) =
        some ["left", "left", "right", "left", "right"] ∧
      (Sample.diamond.lower "main").isOk = true ∧
      crowdedDiamond.lower "main" = Sample.diamond.lower "main" := by
  obtain ⟨-, hrepeats⟩ := lower_depends_only_on_reachable crowdedDiamond "main"
  obtain ⟨hspare, -⟩ :=
    lower_depends_only_on_reachable (crowdedDiamond.dropRepeats fun _ => true) "main"
  have hids : (List.map Prod.fst <$> (crowdedDiamond.dropRepeats fun _ => true).reachable) =
      .ok ["main", "left", "base", "right"] := by decide +kernel
  have hneeds : ∀ id, (crowdedDiamond.dropRepeats fun _ => true).Needs id →
      id ∈ ["main", "left", "base", "right"] := by
    intro id hid
    cases hrun : (crowdedDiamond.dropRepeats fun _ => true).reachable with
    | error e =>
      rw [hrun] at hids
      cases hids
    | ok modules =>
      rw [hrun] at hids
      obtain ⟨hall, hlists⟩ := (reachable_decides _).of_eq_ok hrun
      obtain ⟨m, hm⟩ := hall id hid
      rw [← Except.ok.inj hids]
      exact List.mem_map_of_mem ((hlists.mem_iff id m).mpr ⟨hid, hm⟩)
  refine ⟨by rintro ⟨⟩, rfl, by decide +kernel,
    (hrepeats fun _ => true).symm.trans (hspare Sample.diamond rfl ?_).2.symm⟩
  intro id hid
  have hmem := hneeds id hid
  simp only [List.mem_cons, List.not_mem_nil, or_false] at hmem
  rcases hmem with rfl | rfl | rfl | rfl
  · rfl
  · rfl
  · rfl
  · rfl

end Program

end Source

end BlockIR
