import BlockIR.Program.Assembly
import BlockIR.Proofs.Function.Blur
/-!
# Programs that are not told apart

A blur of the code of every function leaves the rest of a program alone: modules
and their imports, globals, the entry and the order of initialization. An
assembly is finished exactly when the blurred one is, and the blurred one gives
the blurred program (`Blur.finish_assembly`).
-/

namespace BlockIR

namespace Blur

variable (β : Blur) {ref : FunctionRef}

/-- A module under a blur. -/
def module (m : Module) : Module :=
  { m with functions := m.functions.map β.function }

/-- An assembly under a blur. -/
def assembly (a : Assembly) : Assembly :=
  { a with modules := a.modules.map β.module }

/-- **A program under a blur.** -/
def program (p : Program) : Program :=
  { p with modules := p.modules.map β.module }

/-- A function of blurred rows is the blurred function. -/
theorem functionIn?_map (modules : Array Module) (ref : FunctionRef) :
    functionIn? (modules.map β.module) ref = (functionIn? modules ref).map β.function := by
  unfold functionIn?
  rw [Array.getElem?_map]
  cases modules[ref.module]? with
  | none => rfl
  | some m => exact Array.getElem?_map ..

/-- A function of a blurred program is the blurred function. -/
theorem function?_program (p : Program) (ref : FunctionRef) :
    (β.program p).function? ref = (p.function? ref).map β.function :=
  β.functionIn?_map p.modules ref

/-- Only imports count for the order of initialization. -/
theorem initOrder_map (modules : Array Module) :
    InitOrder.ofModules (modules.map β.module) = InitOrder.ofModules modules := by
  have himports : InitOrder.importsOf (modules.map β.module) = InitOrder.importsOf modules := by
    funext m
    unfold InitOrder.importsOf
    rw [Array.getElem?_map]
    cases modules[m]? with
    | none => rfl
    | some row => rfl
  rw [InitOrder.ofModules, InitOrder.ofModules, himports, Array.size_map]

/-- The functions of a blurred assembly are the blurred functions. -/
theorem functions_assembly (a : Assembly) :
    (β.assembly a).functions = a.functions.map β.function := by
  simp only [Assembly.functions, assembly, module, Array.toList_map, List.flatMap_map,
    List.map_flatMap]

/-- A function is put in its place before the blur or after. -/
theorem assembly_putFunction (a : Assembly) (ref : FunctionRef) (f : Function) :
    β.assembly (a.putFunction ref f) = (β.assembly a).putFunction ref (β.function f) := by
  have hmodule : ∀ row : Module,
      β.module { row with functions := row.functions.modify ref.index fun _ => f } =
        { β.module row with
          functions := (β.module row).functions.modify ref.index fun _ => β.function f } :=
    fun row => congrArg (fun functions => { row with functions := functions })
      (map_modify β.function (fun _ => f) (fun _ => β.function f) (fun _ => rfl) row.functions
        ref.index)
  exact congrArg (fun modules => { a with modules := modules })
    (map_modify β.module _ (fun row => { row with
      functions := row.functions.modify ref.index fun _ => β.function f }) hmodule a.modules
      ref.module)

/-- **A blurred assembly is finished as the assembly is.** -/
theorem finish_assembly (a : Assembly) (entry : FunctionRef) :
    (β.assembly a).finish entry = (a.finish entry).map β.program := by
  have hentry : ((β.assembly a).function? entry).isNone = (a.function? entry).isNone := by
    rw [show (β.assembly a).function? entry = (a.function? entry).map β.function from
      β.functionIn?_map a.modules entry, Option.isNone_map]
  have hchecks : (β.assembly a).functions.forM Function.check =
      a.functions.forM Function.check := by
    rw [functions_assembly, List.forM_eq_forM, List.forM_map]
    simp only [check_function]
  have horder : InitOrder.ofModules (β.assembly a).modules = InitOrder.ofModules a.modules :=
    β.initOrder_map a.modules
  unfold Assembly.finish
  rw [hentry, hchecks, horder]
  split
  · rfl
  · cases a.functions.forM Function.check with
    | error e => rfl
    | ok _ => rfl

end Blur

end BlockIR
