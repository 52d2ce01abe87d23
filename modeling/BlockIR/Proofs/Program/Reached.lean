import BlockIR.Proofs.Function.Reached
import BlockIR.Proofs.Machine.Safety
import BlockIR.Proofs.Program.Assembly
/-!
# Finished programs run without defects

An assembly is `Reached` by assembly steps in any order, failed ones included,
with functions that edits reach. Finishing it checks every function, so all
functions of the finished program can be run, and its evaluations end with a
defect only through a global or a function that does not exist.
-/

namespace BlockIR

open Success

namespace Assembly

/-- **A step of an assembly**, with its arguments. -/
inductive Act where
  | ensureModule (id : String)
  | importModule (m imported : ModuleIndex)
  | ensureGlobal (m : ModuleIndex) (name : String)
  | defineFunction (m : ModuleIndex) (function : Function)
  | putFunction (ref : FunctionRef) (function : Function)
  | markInit (ref : FunctionRef)

namespace Act

/-- The assembly that a step leaves, also when it fails. -/
def leave : Act → Assembly → Assembly
  | ensureModule id, a => ((Assembly.ensureModule id).run a).2
  | importModule m imported, a => ((Assembly.importModule m imported).apply a).2
  | ensureGlobal m name, a => ((Assembly.ensureGlobal m name).apply a).2
  | defineFunction m function, a => ((Assembly.defineFunction m function).apply a).2
  | putFunction ref function, a => a.putFunction ref function
  | markInit ref, a => ((Assembly.markInit ref).apply a).2

/-- The function that a step brings in. -/
def function? : Act → Option Function
  | defineFunction _ function | putFunction _ function => some function
  | _ => none

end Act

/-- **An assembly that steps reach** from the empty one, with functions that
edits reach. -/
inductive Reached : Assembly → Prop
  | empty : Reached {}
  | act {a : Assembly} (act : Act) :
      (∀ f ∈ act.function?, f.Reached) → Reached a → Reached (act.leave a)

/-! ## The functions of an assembly -/

/-- Every function of an assembly has a property. -/
def All (P : Function → Prop) (a : Assembly) : Prop :=
  ∀ ref f, a.function? ref = some f → P f

variable {P : Function → Prop} {a : Assembly}

/-- A change of one module keeps a property of all functions if it brings in
none without it. -/
theorem all_modifyModule {g : Module → Module} {m : ModuleIndex}
    (hg : ∀ module, (∀ f ∈ module.functions, P f) → ∀ f ∈ (g module).functions, P f)
    (ha : All P a) : All P (a.modifyModule m g) := by
  intro ref f hf
  rw [function?_modifyModule] at hf
  split at hf
  · rename_i heq
    obtain ⟨module, hmodule, hf⟩ := Option.bind_eq_some_iff.mp hf
    refine hg module (fun f' hf' => ?_) f (Array.mem_of_getElem? hf)
    obtain ⟨index, hindex⟩ := Array.getElem?_of_mem hf'
    refine ha ⟨m, index⟩ f' ?_
    simp only [function?, functionIn?, hmodule, Option.bind_some, hindex]
  · exact ha ref f hf

/-- Requiring a module changes nothing. -/
theorem within_requireModule {R : Assembly → Assembly → Prop} (hrefl : ∀ a, R a a)
    (m : ModuleIndex) : Within R (requireModule m) := by
  intro a
  unfold requireModule
  rw [Transform.apply_bind_ok (Transform.apply_get _)]
  cases a.modules[m]? with
  | some module => exact hrefl a
  | none => exact hrefl a

/-- What a step does to a property of all functions. -/
def Preserves (P : Function → Prop) (a b : Assembly) : Prop := All P a → All P b

/-- What holds of all functions holds without a change. -/
theorem Preserves.refl (a : Assembly) : Preserves P a a := fun h => h

/-- What is preserved twice is preserved. -/
theorem Preserves.trans {a b c : Assembly} (hab : Preserves P a b) (hbc : Preserves P b c) :
    Preserves P a c :=
  fun h => hbc (hab h)

/-- A change of a module preserves what it preserves of its functions. -/
theorem within_updateModule {g : Module → Module}
    (hg : ∀ module, (∀ f ∈ module.functions, P f) → ∀ f ∈ (g module).functions, P f)
    (m : ModuleIndex) : Within (Preserves P) (updateModule m g) :=
  Within.bind Preserves.trans (within_requireModule Preserves.refl m) fun _ =>
    Within.modify fun _ ha => all_modifyModule hg ha

/-- An import changes no function. -/
theorem within_importModule (m imported : ModuleIndex) :
    Within (Preserves P) (importModule m imported) :=
  Within.bind Preserves.trans (within_requireModule Preserves.refl imported) fun _ =>
    Within.bind Preserves.trans (within_requireModule Preserves.refl m) fun module => by
      split
      · exact Within.modify fun _ ha => all_modifyModule (fun _ h => h) ha
      · exact Within.pure Preserves.refl _

/-- A global changes no function. -/
theorem within_ensureGlobal (m : ModuleIndex) (name : String) :
    Within (Preserves P) (ensureGlobal m name) :=
  Within.bind Preserves.trans (within_requireModule Preserves.refl m) fun _ => by
    intro a ha
    rw [Transform.apply_bind_ok (Transform.apply_get _)]
    cases a.global? m name with
    | some g => exact ha
    | none =>
      have hlist : Within (Preserves P) (do
          updateModule m fun module => { module with globals := module.globals ++ [a.globals.size] }
          return a.globals.size) :=
        Within.bind Preserves.trans (within_updateModule (by intro _ h; exact h) m) fun _ =>
          Within.pure Preserves.refl _
      exact hlist { a with globals := a.globals.push ⟨name, m⟩ } ha

/-- A new function must have the property. -/
theorem within_defineFunction (m : ModuleIndex) {function : Function} (hf : P function) :
    Within (Preserves P) (defineFunction m function) :=
  Within.bind Preserves.trans (within_requireModule Preserves.refl m) fun module => by
    cases (module.function? function.name).isSome with
    | true => exact fun _ ha => ha
    | false =>
      intro a ha
      refine all_modifyModule (fun module h f hmem => ?_) ha
      rcases Array.mem_push.mp hmem with hold | rfl
      · exact h f hold
      · exact hf

/-- Marking an initializer changes no function. -/
theorem within_markInit (ref : FunctionRef) : Within (Preserves P) (markInit ref) :=
  within_updateModule (by intro _ h; exact h) ref.module

/-- A function that replaces another must have the property. -/
theorem all_putFunction {ref : FunctionRef} {function : Function} (hf : P function)
    (ha : All P a) : All P (a.putFunction ref function) := by
  refine all_modifyModule (fun module h f hmem => ?_) ha
  obtain ⟨index, hindex⟩ := Array.getElem?_of_mem hmem
  rw [Array.getElem?_modify] at hindex
  split at hindex
  · obtain ⟨_, _, rfl⟩ := Option.map_eq_some_iff.mp hindex
    exact hf
  · exact h f (Array.mem_of_getElem? hindex)

/-- A new module has no functions. -/
theorem all_ensureModule (id : String) (ha : All P a) : All P ((ensureModule id).run a).2 := by
  rw [run_ensureModule]
  cases a.moduleIndex? id with
  | some m => exact ha
  | none =>
    intro ref f hf
    simp only [function?, functionIn?, Array.getElem?_push] at hf
    split at hf
    · simp at hf
    · exact ha ref f hf

/-- **A step keeps a property of all functions** if the function that it brings
in has it. -/
theorem all_leave (act : Act) (hact : ∀ f ∈ act.function?, P f) (ha : All P a) :
    All P (act.leave a) := by
  cases act with
  | ensureModule id => exact all_ensureModule id ha
  | importModule m imported => exact within_importModule m imported a ha
  | ensureGlobal m name => exact within_ensureGlobal m name a ha
  | defineFunction m function => exact within_defineFunction m (hact function rfl) a ha
  | putFunction ref function => exact all_putFunction (hact function rfl) ha
  | markInit ref => exact within_markInit ref a ha

/-- Every function of a reached assembly is reached. -/
theorem Reached.all (ha : a.Reached) : All Function.Reached a := by
  induction ha with
  | empty =>
    intro ref f hf
    simp [function?, functionIn?] at hf
  | act act hact _ ih => exact all_leave act hact ih

/-! ## Finishing -/

/-- The functions of an assembly are those that references denote. -/
theorem mem_functions {f : Function} : f ∈ a.functions ↔ ∃ ref, a.function? ref = some f := by
  simp only [functions, function?, functionIn?, List.mem_flatMap, Array.mem_toList_iff,
    Option.bind_eq_some_iff]
  constructor
  · rintro ⟨module, hmodule, hf⟩
    obtain ⟨m, hm⟩ := Array.getElem?_of_mem hmodule
    obtain ⟨index, hindex⟩ := Array.getElem?_of_mem hf
    exact ⟨⟨m, index⟩, module, hm, hindex⟩
  · rintro ⟨ref, module, hmodule, hf⟩
    exact ⟨module, Array.mem_of_getElem? hmodule, Array.mem_of_getElem? hf⟩

/-- **An assembly can be finished when its entry exists and every function passes
the check.** -/
theorem finish_eq_ok {entry : FunctionRef} {p : Program} :
    a.finish entry = .ok p ↔
      (a.function? entry).isSome = true ∧ All (fun f => f.check = .ok ()) a ∧
        p = ⟨a.modules, a.globals, entry, InitOrder.ofModules a.modules⟩ := by
  have hall : (∀ f ∈ a.functions, f.check = .ok ()) ↔ All (fun f => f.check = .ok ()) a :=
    ⟨fun h ref f hf => h f (mem_functions.mpr ⟨ref, hf⟩),
      fun h f hf => (mem_functions.mp hf).elim fun ref href => h ref f href⟩
  unfold finish
  cases a.function? entry with
  | none => simp [bind, Except.bind, throw, throwThe, MonadExceptOf.throw]
  | some f =>
    simp only [Option.isNone_some, Bool.false_eq_true, if_false, Option.isSome_some, true_and,
      then_eq_ok, pure_eq_ok, forM_eq_ok, hall, eq_comm (b := p)]

/-- Every function of a program finished from a reached assembly can be run. -/
theorem runnable_of_finish {entry : FunctionRef} {p : Program} (ha : a.Reached)
    (hp : a.finish entry = .ok p) : p.Runnable := by
  obtain ⟨-, hcheck, rfl⟩ := finish_eq_ok.mp hp
  intro ref f hf
  obtain ⟨hn, hpos⟩ := (ha.all ref f hf).numbered
  exact Function.runnable_of_check hn hpos (hcheck ref f hf)

end Assembly

/-- It is enough to look at every instruction of the arenas, in a block or not. -/
theorem Program.forall_hasInstr {p : Program} {P : Instruction → Prop}
    (h : ∀ m ∈ p.modules, ∀ f ∈ m.functions, ∀ slot ∈ f.slots, P slot.instr) :
    ∀ i, p.HasInstr i → P i := by
  rintro i ⟨ref, f, b, k, hf, hi⟩
  obtain ⟨m, hm, hf⟩ := Option.bind_eq_some_iff.mp hf
  obtain ⟨block, id, slot, -, -, hslot, rfl⟩ := Function.instrAt?_eq_some.mp hi
  exact h m (Array.mem_of_getElem? hm) f (Array.mem_of_getElem? hf) slot
    (Array.mem_of_getElem? hslot)

/-- **A finished program is safe to run, whoever built it.** If the globals that
its code names exist, no evaluation ends with an internal error; if moreover the
functions that its code calls and its initializers exist, no evaluation ends
with a call of an unknown function. -/
theorem finished_program_safe {a : Assembly} {entry : FunctionRef} {p : Program}
    (ha : a.Reached) (hp : a.finish entry = .ok p) (hg : p.GlobalsBound) :
    (∀ limits fuel args w w' d,
      Machine.evaluateStandard p limits fuel args w ≠ some (.error (.internal d), w')) ∧
    (p.FunctionsBound → ∀ limits fuel args w w' callee,
      Machine.evaluateStandard p limits fuel args w ≠ some (.error (.unknownFunction callee), w')) := by
  have hrunnable := Assembly.runnable_of_finish ha hp
  have hentry : (p.function? p.entry).isSome = true := by
    obtain ⟨hentry, -, rfl⟩ := Assembly.finish_eq_ok.mp hp
    exact hentry
  constructor
  · intro limits fuel args w w' d hrun
    rcases Machine.evaluateStandard_excuses hrunnable hg hentry hrun with hd | ⟨-, _, he⟩
    · cases hd
    · cases he
  · intro hbound limits fuel args w w' callee hrun
    rcases Machine.evaluateStandard_excuses hrunnable hg hentry hrun with hd | ⟨hnot, -⟩
    · cases hd
    · exact hnot hbound

/-- A function that counts its calls in a global and calls itself without end. -/
def countingFunction : Function :=
  ([.loadGlobal 0, .binary .add (.var 0) (.const (.int 1)), .storeGlobal 0 (.var 1),
    .newBlock "again", .jump 1, .moveTo 1, .call (.function ⟨0, 0⟩) [], .ret (.var 2)].foldl
      (fun c e => Emission.leave e c) (Cursor.atEntry (Function.empty "main" []))).function

/-- The assembly of that function, which also initializes its module. -/
def countingAssembly : Assembly :=
  [.ensureModule "m", .ensureGlobal 0 "calls", .defineFunction 0 countingFunction,
    .markInit ⟨0, 0⟩].foldl (fun a act => Assembly.Act.leave act a) {}

/-- The counting function is made by emissions. -/
theorem countingFunction_reached : countingFunction.Reached := by
  unfold countingFunction
  simp only [List.foldl]
  iterate 8 refine .emission _ ?_
  exact .empty "main" []

/-- Its assembly is made by acts. -/
theorem countingAssembly_reached : countingAssembly.Reached := by
  refine .act (.markInit ⟨0, 0⟩) ?_ (.act (.defineFunction 0 countingFunction) ?_
    (.act (.ensureGlobal 0 "calls") ?_ (.act (.ensureModule "m") ?_ .empty)))
  · rintro f ⟨⟩
  · rintro f ⟨⟩
    exact countingFunction_reached
  · rintro f ⟨⟩
  · rintro f ⟨⟩

/-- The counting program is finished, and its globals and functions exist. -/
theorem finished_program_safe_counting :
    ∃ p, countingAssembly.finish ⟨0, 0⟩ = .ok p ∧ p.GlobalsBound ∧ p.FunctionsBound ∧
      (∀ limits fuel args w w' d,
        Machine.evaluateStandard p limits fuel args w ≠ some (.error (.internal d), w')) ∧
      ∀ limits fuel args w w' callee,
        Machine.evaluateStandard p limits fuel args w ≠
          some (.error (.unknownFunction callee), w') := by
  have hok : (countingAssembly.finish ⟨0, 0⟩).toBool = true := by decide +kernel
  cases hp : countingAssembly.finish ⟨0, 0⟩ with
  | error e =>
    rw [hp] at hok
    cases hok
  | ok p =>
    obtain ⟨hg, hf⟩ : p.GlobalsBound ∧ p.FunctionsBound := by
      obtain ⟨-, -, rfl⟩ := Assembly.finish_eq_ok.mp hp
      refine ⟨Program.forall_hasInstr (by decide +kernel),
        ⟨Program.forall_hasInstr (by decide +kernel), fun m ref href => ?_⟩⟩
      cases m with
      | zero =>
        cases href
        decide +kernel
      | succ m => cases href
    have hsafe := finished_program_safe countingAssembly_reached hp hg
    exact ⟨p, rfl, hg, hf, hsafe.1, hsafe.2 hf⟩

end BlockIR
