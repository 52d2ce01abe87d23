import BlockIR.Program.Basic
/-!
# Listings

The text of functions and programs, for people to read: modules, functions and
blocks in order, instructions in execution order.
-/

namespace BlockIR

namespace Listing

/-- The text of one line. -/
def line (s : String) : String := s ++ "\n"

/-- The edges at one end of a block, nothing if there are none. -/
def edges (label : String) (blocks : List BlockId) : String :=
  if blocks.isEmpty then ""
  else " ; " ++ label ++ ":" ++ String.join (blocks.map fun b => " " ++ BlockId.text b)

/-- The heading of a block. -/
def blockHeading (b : Block) : String :=
  let name := match b.name with
    | some name => " (" ++ name ++ ")"
    | none => ""
  "  " ++ BlockId.text b.id ++ name ++ ":" ++ edges "preds" b.preds ++ edges "succs" b.succs

/-- One instruction of a function, with its source location if asked for. -/
def instruction (f : Function) (names : Naming) (locations : Bool) (i : InstrId) : String :=
  match f.slots[i]? with
  | none => "    <missing " ++ InstrId.text i ++ ">"
  | some slot =>
    "    " ++ slot.instr.text names ++
      if locations then "  " ++ slot.location.annotation else ""

/-- One block of a function. -/
def block (f : Function) (names : Naming) (locations : Bool) (b : Block) : String :=
  line (blockHeading b) ++
    String.join (b.instrs.map fun i => line (instruction f names locations i))

/-- The parameters of a function, each with its local slot. -/
def parameters (params : List String) : String :=
  ", ".intercalate (params.mapIdx fun i param => LocalId.text i ++ " " ++ param)

/-- **A function.** -/
def function (names : Naming) (locations : Bool) (f : Function) : String :=
  line ("  fun " ++ f.name ++ "(" ++ parameters f.params ++ ") [locals: " ++
    Nat.repr f.numLocals ++ "] \x7b") ++
    String.join (f.blocks.toList.map (block f names locations)) ++
    line "  \x7d"

/-- The naming by which a program's own listing is written. -/
def naming (p : Program) : Naming where
  function := p.describe
  global g := "@" ++ p.describeGlobal g

/-- The imports of a module, one a line. -/
def imports (p : Program) (m : Module) : String :=
  String.join <| m.imports.map fun i =>
    match p.modules[i]? with
    | some imported => line ("  import " ++ imported.id)
    | none => ""

/-- A function of a module, behind a line that sets it off. -/
def moduleFunction (p : Program) (locations : Bool) (init : Option Nat) (index : Nat)
    (f : Function) : String :=
  (if init = some index then "\n  // module initializer\n" else "\n") ++
    function (naming p) locations f

/-- One module of a program. -/
def module (p : Program) (locations : Bool) (m : Module) : String :=
  line ("\nmodule " ++ m.id) ++ imports p m ++
    String.join (m.globals.map fun g => line ("  global " ++ p.describeGlobal g)) ++
    String.join (m.functions.toList.mapIdx (moduleFunction p locations m.init))

/-- **A program.** -/
def program (locations : Bool) (p : Program) : String :=
  line ("// entry: " ++ p.describe p.entry) ++
    String.join (p.modules.toList.map (module p locations))

end Listing

end BlockIR
