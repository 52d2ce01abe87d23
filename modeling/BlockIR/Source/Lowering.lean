import BlockIR.Program.Assembly
import BlockIR.Source.Body
import BlockIR.Source.Reachable
/-!
# Lowering of program trees

Lowering takes the modules reachable from the root, declares all their globals
and functions, and then lowers the bodies, so a body may refer to anything that
a reachable module declares. Of a module with initial values for its globals
one more function is made, which initializes them.
-/

namespace BlockIR

namespace Source

/-- **Declared modules**: the assembly so far, the symbols declared in it, and
the modules that have an initializer, with the reference of its function. -/
structure Declared where
  assembly : Assembly := {}
  symbols : Symbols := {}
  inits : List (String × Module × FunctionRef) := []

namespace Declared

/-- Carry out an assembly step. -/
def assemble {α : Type} (d : Declared) (x : Assemble α) : Except LoweringError (α × Declared) :=
  match x.apply d.assembly with
  | (.ok a, assembly) => .ok (a, { d with assembly := assembly })
  | (.error e, _) => .error (.structure e)

/-- Add a module. -/
def declareModule (d : Declared) (id : String) : Declared :=
  { d with assembly := ((Assembly.ensureModule id).run d.assembly).2 }

/-- The position of a module, which must have been added. -/
def moduleIndex (d : Declared) (id : String) : Except LoweringError ModuleIndex :=
  match d.assembly.moduleIndex? id with
  | some m => .ok m
  | none => .error (.unknownModule id)

/-- Declare an import of a module. -/
def declareImport (m : ModuleIndex) (d : Declared) (imported : String) :
    Except LoweringError Declared := do
  let i ← d.moduleIndex imported
  return (← d.assemble (Assembly.importModule m i)).2

/-- Declare a global of a module. -/
def declareGlobal (id : String) (m : ModuleIndex) (d : Declared) (g : GlobalDef) :
    Except LoweringError Declared := do
  let (slot, d) ← d.assemble (Assembly.ensureGlobal m g.name)
  return { d with
    symbols := { d.symbols with globals := ((id, g.name), slot) :: d.symbols.globals } }

/-- Declare a function of a module. -/
def declareFunction (id : String) (m : ModuleIndex) (d : Declared) (f : FunctionDef) :
    Except LoweringError Declared := do
  let (ref, d) ← d.assemble (Assembly.defineFunction m (Function.empty f.name f.params))
  return { d with
    symbols := { d.symbols with functions := ((id, f.name), ref) :: d.symbols.functions } }

/-- Declare the initializer of a module, if one of its globals has an initial
value. -/
def declareInit (id : String) (module : Module) (m : ModuleIndex) (d : Declared) :
    Except LoweringError Declared := do
  if module.globals.any fun g => g.init.isSome then
    let (ref, d) ← d.assemble (Assembly.defineFunction m (Function.empty initName []))
    let (_, d) ← d.assemble (Assembly.markInit ref)
    return { d with inits := d.inits ++ [(id, module, ref)] }
  else
    return d

/-- Declare what a module contains. -/
def declareContents (d : Declared) (listed : String × Module) : Except LoweringError Declared := do
  let (id, module) := listed
  let m ← d.moduleIndex id
  let d ← module.imports.foldlM (declareImport m) d
  let d ← module.globals.foldlM (declareGlobal id m) d
  let d ← module.functions.foldlM (declareFunction id m) d
  d.declareInit id module m

/-- Declare all modules of a list. -/
def ofModules (modules : List (String × Module)) : Except LoweringError Declared :=
  modules.foldlM declareContents (modules.foldl (fun d m => d.declareModule m.1) {})

end Declared

namespace Program

/-- Lower one function of a module into its place. -/
def lowerFunction (symbols : Symbols) (id : String) (a : Assembly) (f : FunctionDef) :
    Except LoweringError Assembly := do
  let ref ← symbols.function id f.name
  return a.putFunction ref (← f.lower symbols)

/-- Lower the functions of a module. -/
def lowerFunctions (symbols : Symbols) (a : Assembly) (listed : String × Module) :
    Except LoweringError Assembly :=
  listed.2.functions.foldlM (lowerFunction symbols listed.1) a

/-- Lower the initializer of a module into its place. -/
def lowerInit (symbols : Symbols) (a : Assembly) (init : String × Module × FunctionRef) :
    Except LoweringError Assembly := do
  let (id, module, ref) := init
  return a.putFunction ref (← module.lowerInit symbols id)

/-- The function evaluation starts from. -/
def entryRef (p : Program) (symbols : Symbols) (entry : String) :
    Except LoweringError FunctionRef :=
  match symbols.function p.root entry with
  | .ok f => .ok f
  | .error _ => .error (.missingEntry p.root entry)

/-- Finish an assembly. -/
def finish (a : Assembly) (entry : FunctionRef) : Except LoweringError BlockIR.Program :=
  match a.finish entry with
  | .ok p => .ok p
  | .error e => .error (.structure e)

/-- **Lower a program tree**, to be entered at a function of its root. -/
def lower (p : Program) (entry : String := "main") : Except LoweringError BlockIR.Program := do
  let modules ← p.reachable
  let d ← Declared.ofModules modules
  let a ← modules.foldlM (lowerFunctions d.symbols) d.assembly
  let a ← d.inits.foldlM (lowerInit d.symbols) a
  let ref ← p.entryRef d.symbols entry
  finish a ref

end Program

end Source

end BlockIR
