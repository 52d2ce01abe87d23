import BlockIR.Function.Check
import BlockIR.Program.InitOrder
import BlockIR.Transform
/-!
# Assembling programs

A program is assembled from modules, imports, globals and functions. Adding a
module or a global that is there already gives back the existing one, so a
module reached along several import paths is assembled once. An assembly is
finished by checking every function and fixing the initialization order.

Assembly steps are state transformers: each returns its result together with
the assembly it leaves behind, also when it fails.
-/

namespace BlockIR

/-- **A program under assembly**, with an index of its modules by id. -/
structure Assembly where
  modules : Array Module := #[]
  globals : Array GlobalDecl := #[]
  index : List (String × ModuleIndex) := []
  deriving DecidableEq

/-- A step of an assembly. -/
abbrev Assemble := Transform Assembly StructureError

namespace Assembly

/-- The position of the module with an id, by the index. -/
def moduleIndex? (a : Assembly) (id : String) : Option ModuleIndex :=
  a.index.lookup id

/-- The global of a module with a name. -/
def global? (a : Assembly) (m : ModuleIndex) (name : String) : Option GlobalId :=
  (a.modules[m]?).bind fun module => globalIn? a.globals module name

/-- The function of a module with a name. -/
def functionRef? (a : Assembly) (m : ModuleIndex) (name : String) : Option FunctionRef :=
  ((a.modules[m]?).bind fun module => module.function? name).map fun index => ⟨m, index⟩

/-- The function a reference denotes. -/
def function? (a : Assembly) (f : FunctionRef) : Option Function :=
  functionIn? a.modules f

/-- Change one module in place. -/
def modifyModule (a : Assembly) (m : ModuleIndex) (g : Module → Module) : Assembly :=
  { a with modules := a.modules.modify m g }

/-- Put a function in the place of the one a reference denotes. -/
def putFunction (a : Assembly) (f : FunctionRef) (function : Function) : Assembly :=
  a.modifyModule f.module fun m =>
    { m with functions := m.functions.modify f.index fun _ => function }

/-- The module with a position. -/
def requireModule (m : ModuleIndex) : Assemble Module := do
  match (← get).modules[m]? with
  | some module => return module
  | none => throw (.unknownModule m)

/-- Change one module in place. There must be such a module. -/
def updateModule (m : ModuleIndex) (g : Module → Module) : Assemble Unit := do
  let _ ← requireModule m
  modify (·.modifyModule m g)

/-- The module with an id, added if there is none yet. -/
def ensureModule (id : String) : StateM Assembly ModuleIndex := do
  let a ← get
  match a.moduleIndex? id with
  | some m => return m
  | none =>
    let m := a.modules.size
    set { a with index := (id, m) :: a.index, modules := a.modules.push { id := id } }
    return m

/-- Make a module import another. Repeating an import changes nothing. -/
def importModule (m imported : ModuleIndex) : Assemble Unit := do
  let _ ← requireModule imported
  let module ← requireModule m
  if imported ∉ module.imports then
    modify (·.modifyModule m fun module => { module with imports := module.imports ++ [imported] })

/-- The global of a module with a name, added if there is none yet. -/
def ensureGlobal (m : ModuleIndex) (name : String) : Assemble GlobalId := do
  let _ ← requireModule m
  let a ← get
  match a.global? m name with
  | some g => return g
  | none =>
    let g := a.globals.size
    set { a with globals := a.globals.push ⟨name, m⟩ }
    updateModule m fun module => { module with globals := module.globals ++ [g] }
    return g

/-- Add a function to a module. Names are unique within a module. -/
def defineFunction (m : ModuleIndex) (function : Function) : Assemble FunctionRef := do
  let module ← requireModule m
  if (module.function? function.name).isSome then
    throw (.duplicateFunction module.id function.name)
  modify (·.modifyModule m fun module =>
    { module with functions := module.functions.push function })
  return ⟨m, module.functions.size⟩

/-- Make a function the initializer of its module. -/
def markInit (f : FunctionRef) : Assemble Unit :=
  updateModule f.module fun module => { module with init := some f.index }

/-- All functions, in module order. -/
def functions (a : Assembly) : List Function :=
  a.modules.toList.flatMap fun m => m.functions.toList

/-- **Finish an assembly**: the entry must exist and every function must pass
its check. -/
def finish (a : Assembly) (entry : FunctionRef) : Except StructureError Program := do
  if (a.function? entry).isNone then
    throw (.missingEntry entry)
  a.functions.forM Function.check
  return {
    modules := a.modules
    globals := a.globals
    entry := entry
    initOrder := InitOrder.ofModules a.modules }

end Assembly

end BlockIR
