import BlockIR.Proofs.Machine.Initialization
import BlockIR.Proofs.Program.Consistent
/-!
# Modules are initialized after what they import

The initialization order is the postorder of a traversal of the imports. The bound
on the number of open modules is never used up, since imports are of modules that
exist (`ImportsExist`), so the traversal is the one without a bound. It lists every
module once, a module after its imports except where they lead back to it, and an
evaluation calls the initializers in that order.
-/

namespace BlockIR

/-! ## The walk is a traversal -/

namespace InitOrder

variable {imports : ModuleIndex → List ModuleIndex} {nodes : List ModuleIndex} {n : Nat}

/-- The state of a walk as marks of a traversal: the walk has what it met last in
front. -/
def Walk.marks (w : Walk) : Marks ModuleIndex where
  met := w.met.reverse
  done := w.done

theorem Walk.marks_meet (w : Walk) (m : ModuleIndex) :
    ({ w with met := m :: w.met } : Walk).marks = w.marks.meet m := by
  rw [Walk.marks, Marks.meet, List.reverse_cons]
  rfl

/-- Modules are traversed in turn, if each is. -/
theorem traverses_foldl {g : Walk → ModuleIndex → Walk}
    (hg : ∀ m ∈ nodes, ∀ w : Walk, Traverses.unmet nodes w.marks.met ≤ n →
      Traverses imports [m] w.marks (g w m).marks) (ms : List ModuleIndex)
    (hms : ∀ m ∈ ms, m ∈ nodes) (w : Walk) (hn : Traverses.unmet nodes w.marks.met ≤ n) :
    Traverses imports ms w.marks (ms.foldl g w).marks := by
  induction ms generalizing w with
  | nil => exact .nil
  | cons m rest ih =>
    obtain ⟨hm, hrest⟩ := List.forall_mem_cons.mp hms
    have hfirst := hg m hm w hn
    have hless := Traverses.unmet_le nodes hfirst.met_grows.subset
    exact hfirst.append (ih hrest (g w m) (Nat.le_trans hless hn))

/-- **A walk that may open as many modules as are unmet is a traversal.** -/
theorem traverses_visit (hclosed : ∀ m ∈ nodes, ∀ i ∈ imports m, i ∈ nodes) (n : Nat) :
    ∀ m ∈ nodes, ∀ w : Walk, Traverses.unmet nodes w.marks.met ≤ n →
      Traverses imports [m] w.marks (visit imports n m w).marks := by
  induction n with
  | zero =>
    intro m hm w hn
    -- nothing may be opened, and nothing needs to be: all is met
    exact .again (Traverses.mem_of_unmet (Nat.le_zero.mp hn) hm) .nil
  | succ n ih =>
    intro m hm w hn
    rw [visit]
    by_cases hmet : m ∈ w.met
    · rw [if_pos hmet]
      exact .again (List.mem_reverse.mpr hmet) .nil
    · rw [if_neg hmet]
      have hnew : m ∉ w.marks.met := fun h => hmet (List.mem_reverse.mp h)
      have hless : Traverses.unmet nodes (w.marks.meet m).met < Traverses.unmet nodes w.marks.met :=
        Traverses.unmet_lt hm hnew (List.mem_append_right _ List.mem_cons_self)
          (List.subset_append_left _ _)
      rw [← Walk.marks_meet] at hless
      have hinner := traverses_foldl ih (imports m) (hclosed m hm) _
        (Nat.le_of_lt_succ (Nat.lt_of_lt_of_le hless hn))
      rw [Walk.marks_meet] at hinner
      exact .visit hnew hinner .nil

end InitOrder

/-! ## Imports exist -/

namespace Assembly

open InitOrder

variable {a b : Assembly} {i : ModuleIndex} {row row' : Module}

/-- **Imports are of modules that exist.** -/
def ImportsExist (a : Assembly) : Prop :=
  ∀ (i : ModuleIndex) row, a.modules[i]? = some row → ∀ j ∈ row.imports, j < a.modules.size

/-- A row that imports modules that are there keeps imports right. -/
theorem ImportsExist.putModule (h : a.ImportsExist) (hrow : a.modules[i]? = some row)
    (himports : ∀ j ∈ row'.imports, j < a.modules.size) : (a.putModule i row').ImportsExist := by
  have hsize : (a.putModule i row').modules.size = a.modules.size := Array.size_setIfInBounds
  intro k r hr
  rw [hsize]
  by_cases hk : i = k
  · subst hk
    obtain rfl := Option.some.inj ((module_putModule hrow).symm.trans hr)
    exact himports
  · exact h k r ((module_putModule_ne hk).symm.trans hr)

/-- A change of one module matters only if it changes the imports. -/
theorem ImportsExist.keepImports (h : a.ImportsExist) (hrow : a.modules[i]? = some row)
    (heq : row'.imports = row.imports) : (a.putModule i row').ImportsExist :=
  h.putModule hrow (heq ▸ h i row hrow)

/-- **Every alteration keeps imports right.** -/
theorem ImportsExist.alters (h : a.ImportsExist) (hab : Alters a b) : b.ImportsExist := by
  cases hab with
  | nothing => exact h
  | addModule _ =>
    intro k r hr j hj
    rw [Array.getElem?_push] at hr
    rw [Array.size_push]
    split at hr
    · cases hr
      cases hj
    · exact Nat.lt_succ_of_lt (h k r hr j hj)
  | addImport hrow hrow' _ =>
    refine h.putModule hrow fun k hk => ?_
    rcases List.mem_append.mp hk with hk | hk
    · exact h _ _ hrow k hk
    · rw [List.mem_singleton.mp hk]
      exact (Array.getElem?_eq_some_iff.mp hrow').1
  | addGlobal hrow _ => exact h.keepImports hrow rfl
  | addFunction hrow _ => exact h.keepImports hrow rfl
  | replaceFunction hrow _ => exact h.keepImports hrow rfl
  | setInit hrow => exact h.keepImports hrow rfl

/-- A function may be replaced by any other, whatever its name. -/
theorem ImportsExist.putFunction (h : a.ImportsExist) (ref : FunctionRef) (f : Function) :
    (a.putFunction ref f).ImportsExist := by
  cases hrow : a.modules[ref.module]? with
  | none =>
    rw [Assembly.putFunction, modifyModule_unknown hrow]
    exact h
  | some row =>
    rw [Assembly.putFunction, modifyModule_eq hrow]
    exact h.keepImports hrow rfl

/-- In every assembly that is reached the imports are there. -/
theorem Reached.importsExist (ha : a.Reached) : a.ImportsExist := by
  induction ha with
  | empty =>
    intro i row hrow
    simp at hrow
  | act act _ _ ih =>
    cases act with
    | ensureModule id => exact ih.alters (alters_ensureModule id)
    | importModule m imported => exact ih.alters (alters_importModule m imported)
    | ensureGlobal m name => exact ih.alters (alters_ensureGlobal m name)
    | defineFunction m f => exact ih.alters (alters_defineFunction m f)
    | putFunction ref f => exact ih.putFunction ref f
    | markInit ref => exact ih.alters (alters_markInit ref)

/-- What acts lead to is reached. -/
theorem Reached.acts {acts : List Act} (hacts : ∀ act ∈ acts, ∀ f ∈ act.function?, f.Reached)
    (ha : a.Reached) : Reached (acts.foldl (fun a act => Act.leave act a) a) := by
  induction acts generalizing a with
  | nil => exact ha
  | cons act rest ih =>
    obtain ⟨hact, hrest⟩ := List.forall_mem_cons.mp hacts
    exact ih hrest (.act act hact ha)

theorem ImportsExist.closed (h : a.ImportsExist) :
    ∀ i ∈ List.range a.modules.size, ∀ j ∈ importsOf a.modules i,
      j ∈ List.range a.modules.size := by
  intro i _ j hj
  rw [importsOf] at hj
  split at hj
  · rename_i row hrow
    exact List.mem_range.mpr (h i row hrow j hj)
  · cases hj

/-! ## The order -/

/-- One module imports another. -/
def Imports (a : Assembly) (m n : ModuleIndex) : Prop := n ∈ importsOf a.modules m

/-- **The initialization order is a postorder**, of a traversal that ends. -/
theorem ImportsExist.traverses (h : a.ImportsExist) :
    ∃ met, Traverses (importsOf a.modules) (List.range a.modules.size) {}
      ⟨met, ofModules a.modules⟩ := by
  have hvisit := traverses_visit h.closed a.modules.size
  have hbound : Traverses.unmet (List.range a.modules.size) ({} : Walk).marks.met ≤
      a.modules.size := by
    exact Nat.le_trans (List.length_filter_le _ _) (Nat.le_of_eq List.length_range)
  exact ⟨_, traverses_foldl hvisit _ (fun _ hm => hm) {} hbound⟩

/-- No module imports itself, directly or along other modules. -/
def Acyclic (a : Assembly) : Prop := ∀ m, ¬ Relation.TransGen a.Imports m m

section Order

variable (h : a.ImportsExist)
include h

/-- No module is initialized twice. -/
theorem ImportsExist.nodup : (ofModules a.modules).Nodup := by
  obtain ⟨met, htraverses⟩ := h.traverses
  exact htraverses.perm_of_empty.nodup_iff.mpr (htraverses.nodup_met List.nodup_nil)

/-- Every module is initialized. -/
theorem ImportsExist.mem_iff (m : ModuleIndex) : m ∈ ofModules a.modules ↔ m < a.modules.size := by
  obtain ⟨met, htraverses⟩ := h.traverses
  rw [htraverses.perm_of_empty.mem_iff, htraverses.mem_met_iff, ← List.mem_range]
  constructor
  · rintro ⟨i, hi, hpath⟩
    induction hpath with
    | refl => exact hi
    | tail _ hedge ih => exact h.closed _ ih _ hedge
  · exact fun hm => ⟨m, hm, .refl⟩

theorem ImportsExist.settled : Traverses.Settled (importsOf a.modules) (ofModules a.modules) := by
  obtain ⟨met, htraverses⟩ := h.traverses
  refine htraverses.settled ?_ fun y hy => absurd hy List.not_mem_nil
  intro before y after heq
  cases before <;> cases heq

/-- What a module imports exists, and so does the module. -/
theorem ImportsExist.mem_of_imports {m n : ModuleIndex} (himports : a.Imports m n) :
    m ∈ ofModules a.modules := by
  rw [Imports, importsOf] at himports
  split at himports
  · rename_i row hrow
    exact (h.mem_iff m).mpr (Array.getElem?_eq_some_iff.mp hrow).1
  · cases himports

/-- **A module comes after its imports**, except where they lead back to it. -/
theorem ImportsExist.precedes {m n : ModuleIndex} (himports : a.Imports m n)
    (hback : ¬ Relation.ReflTransGen a.Imports n m) : Precedes (ofModules a.modules) n m :=
  h.settled.precedes (h.mem_of_imports himports) himports hback

/-- Without cycles it comes after all that it imports, directly or not. -/
theorem ImportsExist.precedes_of_acyclic (hacyclic : a.Acyclic) {m n : ModuleIndex}
    (hpath : Relation.TransGen a.Imports m n) : Precedes (ofModules a.modules) n m := by
  obtain ⟨i, himports, -⟩ := Relation.TransGen.head'_iff.mp hpath
  refine h.settled.precedes_of_acyclic h.nodup hacyclic (fun i hi j hj => ?_)
    (h.mem_of_imports himports) hpath
  rw [h.mem_iff, ← List.mem_range] at hi ⊢
  exact h.closed i hi j hj

end Order

/-- **Modules are initialized after what they import.** Of an assembly that steps
reach, with whatever imports, the order is the postorder of a traversal that ends.
It has every module once, and a module after each of its imports that does not lead
back to it; without cycles, after all that it imports directly or not. An
evaluation of the finished program initializes the modules in that order, so each
at most once and, without cycles, only after the initializers of all that it
imports have returned. -/
theorem initOrder_of_reached (ha : a.Reached) :
    (∃ met, Traverses (importsOf a.modules) (List.range a.modules.size) {}
      ⟨met, ofModules a.modules⟩) ∧
    (ofModules a.modules).Nodup ∧ (∀ m, m ∈ ofModules a.modules ↔ m < a.modules.size) ∧
    (∀ m n, a.Imports m n → ¬ Relation.ReflTransGen a.Imports n m →
      Precedes (ofModules a.modules) n m) ∧
    (a.Acyclic → ∀ m n, Relation.TransGen a.Imports m n → Precedes (ofModules a.modules) n m) ∧
    ∀ entry p, a.finish entry = .ok p → p.initOrder = ofModules a.modules ∧
      ∀ s : Setting, s.program = p → ∀ fuel args w,
        Machine.InitializesInOrder s fuel args w ∧
        (a.Acyclic → ∀ before c after,
          (Machine.logEvaluate s fuel args w).calls = before ++ c :: after →
          ∀ n, Relation.TransGen a.Imports c.module n → Machine.hasInit s n = true →
            ∃ c' ∈ before, c'.module = n ∧ c'.Completed) := by
  have h := ha.importsExist
  refine ⟨h.traverses, h.nodup, h.mem_iff, fun m n => h.precedes,
    fun hacyclic m n => h.precedes_of_acyclic hacyclic, fun entry p hp => ?_⟩
  obtain ⟨-, -, rfl⟩ := finish_eq_ok.mp hp
  refine ⟨rfl, ?_⟩
  rintro s hs fuel args w
  have horder : s.program.initOrder = ofModules a.modules := by rw [hs]
  have hinit := Machine.initializesInOrder (horder ▸ h.nodup) fuel args w
  refine ⟨hinit, fun hacyclic before c after hcalls n hpath => ?_⟩
  refine hinit.inTurn before c after hcalls n ?_
  rw [horder]
  exact h.precedes_of_acyclic hacyclic hpath

/-- A function that returns at once. -/
def idleFunction (name : String) : Function :=
  (Emission.leave (.ret (.const .null)) (Cursor.atEntry (Function.empty name []))).function

/-- Steps that make four modules with initializers: the first imports two others, and
both of these the last. The first also has a function to enter at. -/
def diamondActs : List Act :=
  [.ensureModule "app", .ensureModule "left", .ensureModule "right", .ensureModule "base",
    .importModule 0 1, .importModule 0 2, .importModule 1 3, .importModule 2 3,
    .defineFunction 0 (idleFunction "init"), .defineFunction 1 (idleFunction "init"),
    .defineFunction 2 (idleFunction "init"), .defineFunction 3 (idleFunction "init"),
    .defineFunction 0 (idleFunction "main"), .markInit ⟨0, 0⟩, .markInit ⟨1, 0⟩, .markInit ⟨2, 0⟩,
    .markInit ⟨3, 0⟩]

def diamondAssembly : Assembly := diamondActs.foldl (fun a act => Act.leave act a) {}

/-- The diamond is made by acts. -/
theorem diamondAssembly_reached : diamondAssembly.Reached := by
  refine Reached.acts (fun act hact f hf => ?_) .empty
  have hidle : ∀ act ∈ diamondActs, ∀ f ∈ act.function?, f = idleFunction f.name := by
    decide +kernel
  rw [hidle act hact f hf]
  exact .emission _ (.empty f.name [])

/-- Imports go up in the diamond. -/
theorem diamondAssembly_acyclic : diamondAssembly.Acyclic := by
  have hup : ∀ m n, diamondAssembly.Imports m n → m < n := by
    intro m n himports
    have hm := List.mem_range.mpr ((diamondAssembly_reached.importsExist.mem_iff m).mp
      (diamondAssembly_reached.importsExist.mem_of_imports himports))
    have hall : ∀ m ∈ List.range diamondAssembly.modules.size,
        ∀ n ∈ importsOf diamondAssembly.modules m, m < n := by decide +kernel
    exact hall m hm n himports
  intro m hcycle
  have hless : ∀ n, Relation.TransGen diamondAssembly.Imports m n → m < n := by
    intro n hpath
    induction hpath with
    | single hedge => exact hup _ _ hedge
    | tail _ hedge ih => exact Nat.lt_trans ih (hup _ _ hedge)
  exact Nat.lt_irrefl m (hless m hcycle)

/-- The base of the diamond is initialized before its top, which is called only
after the base has returned. -/
theorem initOrder_of_reached_diamond :
    diamondAssembly.Reached ∧ diamondAssembly.Acyclic ∧
      Precedes (ofModules diamondAssembly.modules) 3 0 ∧
      ∃ p, diamondAssembly.finish ⟨0, 1⟩ = .ok p ∧ ∀ table limit fuel args w before c after,
        (Machine.logEvaluate ⟨p, table, limit⟩ fuel args w).calls = before ++ c :: after →
        c.module = 0 → ∃ c' ∈ before, c'.module = 3 ∧ c'.Completed := by
  obtain ⟨-, -, -, -, horder, hrun⟩ := initOrder_of_reached diamondAssembly_reached
  have hpath : Relation.TransGen diamondAssembly.Imports 0 3 := by
    have hfirst : diamondAssembly.Imports 0 1 := by unfold Imports; decide +kernel
    have hsecond : diamondAssembly.Imports 1 3 := by unfold Imports; decide +kernel
    exact .tail (.single hfirst) hsecond
  refine ⟨diamondAssembly_reached, diamondAssembly_acyclic,
    horder diamondAssembly_acyclic 0 3 hpath, ?_⟩
  obtain ⟨p, hp⟩ := Success.exists_of_toBool
    (show (diamondAssembly.finish ⟨0, 1⟩).toBool = true by decide +kernel)
  refine ⟨p, hp, fun table limit fuel args w before c after hcalls hc => ?_⟩
  obtain ⟨-, hinit⟩ := hrun ⟨0, 1⟩ p hp
  refine (hinit ⟨p, table, limit⟩ rfl fuel args w).2 diamondAssembly_acyclic before c after hcalls
    3 (hc ▸ hpath) ?_
  have hsome : ((diamondAssembly.modules[3]?).bind (·.init)).isSome = true := by decide +kernel
  have hmodules : p.modules = diamondAssembly.modules := by
    obtain ⟨-, -, heq⟩ := finish_eq_ok.mp hp
    rw [heq]
  rw [← hmodules] at hsome
  rw [Machine.hasInit, Machine.initializer?, Option.isSome_map]
  exact hsome

end Assembly

end BlockIR
