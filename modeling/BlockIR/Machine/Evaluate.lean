import BlockIR.Builtin.Standard
import BlockIR.Machine.Step
/-!
# Evaluation

An evaluation initializes the modules of a program, dependencies first, and then
calls its entry function. A program may run forever, so an evaluation is given
a number of steps for each call it makes; a run that needs more is unfinished
and has no outcome. More steps never change an outcome that is there.

The world goes on from one evaluation to the next; frames and globals are each
evaluation's own.
-/

namespace BlockIR

/-- The limits of an evaluation. -/
structure Limits where
  /-- The number of calls that may be in progress at once. -/
  maxCallDepth : Nat := 1000
  deriving DecidableEq

/-- What a finished evaluation leaves: the value returned and the globals. -/
structure Outcome where
  value : Value
  globals : Array Value

namespace Outcome

/-- The final value of a global. -/
def global? (o : Outcome) (g : GlobalId) : Option Value :=
  o.globals[g]?

/-- The final value of a global, by the id of its module and its name. -/
def globalByName? (o : Outcome) (p : Program) (module name : String) : Option Value :=
  (p.globalId? module name).bind o.global?

end Outcome

namespace Machine

/-- What an action on the memory comes to, if it finishes. -/
abbrev Finish (α : Type) := Option (Except RuntimeError α × Memory)

/-- Run until the call that the run is of returns, within a number of steps. -/
def run (s : Setting) : Nat → Memory → Finish Value
  | 0, _ => none
  | fuel + 1, m =>
    match (step s).apply m with
    | (.ok none, m) => run s fuel m
    | (.ok (some v), m) => some (.ok v, m)
    | (.error e, m) => some (.error e, m)

/-- **Call a function.** Its frame is gone when the call is over, whether it returns
or fails, and so are those of the calls it has made. -/
def invoke (s : Setting) (fuel : Nat) (ref : FunctionRef) (args : List Value) (m : Memory) :
    Finish Value :=
  match (enter s ref args .halt).apply m with
  | (.error e, m) => some (.error e, m)
  | (.ok _, inner) => (run s fuel inner).map fun (result, after) => (result, after.settle result)

/-- The function that initializes a module. -/
def initializer? (p : Program) (m : ModuleIndex) : Option FunctionRef :=
  ((p.modules[m]?).bind (·.init)).map fun index => ⟨m, index⟩

/-- Initialize modules in order, up to the first failure. -/
def initModules (s : Setting) (fuel : Nat) : List ModuleIndex → Memory → Finish Unit
  | [], m => some (.ok (), m)
  | i :: rest, m =>
    match initializer? s.program i with
    | none => initModules s fuel rest m
    | some ref =>
      match invoke s fuel ref [] m with
      | none => none
      | some (.error e, m) => some (.error e, m)
      | some (.ok _, m) => initModules s fuel rest m

/-- The memory an evaluation starts with: no calls, and null in every global. -/
def startMemory (p : Program) (w : World) : Memory where
  stack := {}
  globals := Array.replicate p.globals.size .null
  world := w

/-- Call the entry function, and keep the globals. -/
def runEntry (s : Setting) (fuel : Nat) (args : List Value) (m : Memory) : Finish Outcome :=
  (invoke s fuel s.program.entry args m).map fun (result, m) =>
    (result.map fun v => ⟨v, m.globals⟩, m)

/-- The entry function must exist and take that many arguments. -/
def checkEntry (p : Program) (args : List Value) : Except RuntimeError Unit :=
  match p.function? p.entry with
  | none => .error (.unknownFunction (p.describe p.entry))
  | some f =>
    if args.length = f.arity then .ok ()
    else .error (.arity (p.describe p.entry) f.arity args.length)

/-- **Evaluate a program** on some arguments, in a world. There is no outcome
if a call needs more steps than are given. -/
def evaluate (s : Setting) (fuel : Nat) (args : List Value) (w : World) :
    Option (Except RuntimeError Outcome × World) :=
  match checkEntry s.program args with
  | .error e => some (.error e, w)
  | .ok _ =>
    match initModules s fuel s.program.initOrder (startMemory s.program w) with
    | none => none
    | some (.error e, m) => some (.error e, m.world)
    | some (.ok _, m) =>
      (runEntry s fuel args m).map fun (result, m) => (result, m.world)

/-- Evaluate a program with the standard builtin operations. -/
def evaluateStandard (p : Program) (limits : Limits) (fuel : Nat) (args : List Value)
    (w : World) : Option (Except RuntimeError Outcome × World) :=
  match Table.standard with
  | .error e => some (.error (.linkage e), w)
  | .ok table => evaluate ⟨p, table, limits.maxCallDepth⟩ fuel args w

/-- A number of steps that no run completes in practice. -/
def ampleFuel : Nat := 1 <<< 62

end Machine

end BlockIR
