import BlockIR.Function.Basic
/-!
# Programs

A program is a list of modules, a table of globals, an entry function and the
order in which the modules are initialized. Functions are known by their
position in their module, globals by their position in the program's table.
-/

namespace BlockIR

/-- A global variable: its name, and the module that declares it. -/
structure GlobalDecl where
  name : String
  module : ModuleIndex
  deriving DecidableEq

/-- **A module**: functions, the globals it declares, the modules it imports
and the function that initializes it. -/
structure Module where
  id : String
  functions : Array Function := #[]
  globals : List GlobalId := []
  imports : List ModuleIndex := []
  init : Option Nat := none
  deriving DecidableEq

/-- **A program.** -/
structure Program where
  modules : Array Module
  globals : Array GlobalDecl
  entry : FunctionRef
  initOrder : List ModuleIndex
  deriving DecidableEq

/-- The function a reference denotes among some modules. -/
def functionIn? (modules : Array Module) (f : FunctionRef) : Option Function :=
  (modules[f.module]?).bind fun m => m.functions[f.index]?

/-- The global of a module that has a name, by the table of globals. -/
def globalIn? (globals : Array GlobalDecl) (m : Module) (name : String) : Option GlobalId :=
  m.globals.find? fun g => (globals[g]?).any fun decl => decl.name == name

/-- The position of the function of a module that has a name. -/
def Module.function? (m : Module) (name : String) : Option Nat :=
  m.functions.toList.findIdx? fun f => f.name == name

namespace Program

/-- The function a reference denotes. -/
def function? (p : Program) (f : FunctionRef) : Option Function :=
  functionIn? p.modules f

/-- The position of the module with an id. -/
def moduleIndex? (p : Program) (id : String) : Option ModuleIndex :=
  p.modules.toList.findIdx? fun m => m.id == id

/-- The slot of a global, by the id of its module and its name. -/
def globalId? (p : Program) (module name : String) : Option GlobalId := do
  let index ← p.moduleIndex? module
  let m ← p.modules[index]?
  globalIn? p.globals m name

/-- The reference of a function, by the id of its module and its name. -/
def functionRef? (p : Program) (module name : String) : Option FunctionRef := do
  let index ← p.moduleIndex? module
  let m ← p.modules[index]?
  return ⟨index, ← m.function? name⟩

/-- A function in messages and listings: `module::name`. -/
def describe (p : Program) (f : FunctionRef) : String :=
  match p.modules[f.module]?, p.function? f with
  | some m, some function => m.id ++ "::" ++ function.name
  | _, _ => "<function " ++ Nat.repr f.module ++ "." ++ Nat.repr f.index ++ ">"

/-- A global in messages and listings: `module::name`. -/
def describeGlobal (p : Program) (g : GlobalId) : String :=
  match p.globals[g]? with
  | none => GlobalId.text g
  | some decl =>
    match p.modules[decl.module]? with
    | some m => m.id ++ "::" ++ decl.name
    | none => decl.name

end Program

end BlockIR
