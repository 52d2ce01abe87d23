import BlockIR.Builtin.Registry
import BlockIR.Proofs.Operation
import BlockIR.Proofs.Source.Scoping
/-!
# The meaning of program trees

A program tree is evaluated by recursion over its syntax: expressions strictly
from left to right, statements with the locals in scope as a list of names and
values. Nothing here mentions blocks, slots or frames.

Two things are bounded. Calls are bounded by the limit on their depth, which is
part of the meaning. Loops are bounded by a number of rounds, which is not: an
evaluation in which a loop goes on for longer has no result, so a program that
runs forever has none under any bound. A reference to something undeclared has
no meaning, and so no result either.
-/

namespace BlockIR

namespace Source

/-- The locals in scope and their values, the latest declared first. -/
abbrev Locals := List (String × Value)

namespace Locals

/-- Give the latest local of a name another value. -/
def set (name : String) (v : Value) : Locals → Locals
  | [] => []
  | (other, w) :: rest => if other = name then (other, v) :: rest else (other, w) :: set name v rest

/-- The locals after a block: of those at its end, the ones that were in scope
when it began. -/
def leave (outer inner : Locals) : Locals :=
  inner.drop (inner.length - outer.length)

end Locals

/-- The values of the globals by module and name, of those that are declared. -/
abbrev Globals := String → String → Option Value

/-- The globals with another value for one that is declared. -/
def Globals.set (g : Globals) (module name : String) (v : Value) : Globals :=
  fun module' name' =>
    if module' = module ∧ name' = name then (g module' name').map fun _ => v else g module' name'

/-- What an evaluation acts on besides locals. -/
structure Store where
  globals : Globals
  world : World

/-- **An evaluation**: it acts on the store, and may fail or have no result. -/
abbrev Eval := ExceptT RuntimeError (StateT Store Option)

namespace Eval

variable {α β : Type}

/-- What an evaluation comes to in a store. -/
def apply (x : Eval α) (σ : Store) : Option (Except RuntimeError α × Store) :=
  x.run.run σ

/-- No result. -/
def unfinished : Eval α :=
  ExceptT.mk fun _ => none

/-- What a name denotes, which must be declared. -/
def declared : Option α → Eval α
  | some a => return a
  | none => unfinished

/-- Act on the world. -/
def effect (e : Effect α) : Eval α :=
  ExceptT.mk fun σ =>
    match e.apply σ.world with
    | (result, world) => some (result, { σ with world := world })

/-- The value of a global. -/
def readGlobal (module name : String) : Eval Value := do
  declared ((← get).globals module name)

/-- Give a global another value. -/
def writeGlobal (module name : String) (v : Value) : Eval Unit := do
  let _ ← readGlobal module name
  modify fun σ => { σ with globals := σ.globals.set module name v }

/-- What a condition says: zero is false, and every other integer true. -/
def truth : Value → Eval Bool
  | .int i => return i ≠ 0
  | v => throw (.conditionKind v.kind)

end Eval

/-! ## Expressions -/

/-- **What syntax is evaluated in**: the builtin operations, what a call of a
function does, and the rounds that a loop may take. -/
structure Context where
  table : Table
  call : (module name : String) → List Value → Eval Value
  rounds : Nat

mutual

/-- **The value of an expression**, its parts evaluated from left to right. -/
def Expr.eval (ctx : Context) (env : Locals) : Expr → Eval Value
  | .int i => return .int i
  | .str s => return .str s
  | .null => return .null
  | .var (.named name) => Eval.declared (env.lookup name)
  | .var (.global module name) => Eval.readGlobal module name
  | .call (.function module name) args => do
    let vs ← Expr.evalAll ctx env args
    ctx.call module name vs
  | .call (.builtin name) args => do
    let vs ← Expr.evalAll ctx env args
    Eval.effect (ctx.table.call name vs)
  | .binary op lhs rhs => do
    let a ← lhs.eval ctx env
    let b ← rhs.eval ctx env
    Eval.effect (ctx.table.call op.builtin [a, b])
  | .arrayLit elements => do
    let array ← Eval.effect (Operation.newArray (.int (Int64.ofNat elements.length)))
    Expr.fill ctx env array 0 elements
    return array
  | .newArray size => do
    let n ← size.eval ctx env
    Eval.effect (Operation.newArray n)
  | .index array i => do
    let a ← array.eval ctx env
    let i ← i.eval ctx env
    Eval.effect (Operation.load a i)

/-- The values of expressions, from left to right. -/
def Expr.evalAll (ctx : Context) (env : Locals) : List Expr → Eval (List Value)
  | [] => return []
  | e :: es => do
    let v ← e.eval ctx env
    return v :: (← Expr.evalAll ctx env es)

/-- Fill an array from an index on with the values of expressions. -/
def Expr.fill (ctx : Context) (env : Locals) (array : Value) : Nat → List Expr → Eval Unit
  | _, [] => return ()
  | i, e :: es => do
    let v ← e.eval ctx env
    Eval.effect (Operation.store array (.int (Int64.ofNat i)) v)
    Expr.fill ctx env array (i + 1) es

end

/-- The value of an expression that may be absent, and is null then. -/
def Expr.evalOrNull (ctx : Context) (env : Locals) : Option Expr → Eval Value
  | some e => e.eval ctx env
  | none => return .null

/-! ## Statements -/

/-- How statements end: control goes on with some locals, or a value is
returned. -/
inductive Completion where
  | next (env : Locals)
  | ret (v : Value)

/-- What statements in a block of their own leave to those after the block. -/
def Completion.leave (outer : Locals) : Completion → Completion
  | next inner => next (outer.leave inner)
  | ret v => ret v

/-- Go around as long as a test says so and nothing is returned, for a number of
rounds at most. -/
def Eval.loop (test : Locals → Eval Bool) (round : Locals → Eval Completion) :
    Nat → Locals → Eval Completion
  | 0, _ => unfinished
  | n + 1, env => do
    if ← test env then
      match ← round env with
      | .next env => Eval.loop test round n env
      | .ret v => return .ret v
    else
      return .next env

/-- Assign a value to a variable. -/
def Variable.assign (env : Locals) (v : Value) : Variable → Eval Locals
  | .named name => do
    let _ ← Eval.declared (env.lookup name)
    return env.set name v
  | .global module name => do
    Eval.writeGlobal module name v
    return env

mutual

/-- **What a statement does.** A declaration gives its variable a value each time
it is executed, and hides what had its name before. -/
def Stmt.exec (ctx : Context) : Stmt → Locals → Eval Completion
  | .declare name init, env => do
    let v ← Expr.evalOrNull ctx env init
    return .next ((name, v) :: env)
  | .assign target value, env => do
    let v ← value.eval ctx env
    return .next (← target.assign env v)
  | .assignIndex array index value, env => do
    let a ← array.eval ctx env
    let i ← index.eval ctx env
    let v ← value.eval ctx env
    Eval.effect (Operation.store a i v)
    return .next env
  | .ite cond thenBody elseBody, env => do
    let holds ← Eval.truth (← cond.eval ctx env)
    if holds then
      return (← Stmt.execAll ctx thenBody env).leave env
    else
      return (← Stmt.execAll ctx elseBody env).leave env
  | .loop cond body, env =>
    Eval.loop (fun env => do Eval.truth (← cond.eval ctx env))
      (fun env => do return (← Stmt.execAll ctx body env).leave env) ctx.rounds env
  | .ret value, env => do
    return .ret (← Expr.evalOrNull ctx env value)
  | .expr e, env => do
    let _ ← e.eval ctx env
    return .next env
  | .located _ stmt, env => stmt.exec ctx env

/-- What statements do in order, up to the first return. -/
def Stmt.execAll (ctx : Context) : List Stmt → Locals → Eval Completion
  | [], env => return .next env
  | s :: rest, env => do
    match ← s.exec ctx env with
    | .next env => Stmt.execAll ctx rest env
    | .ret v => return .ret v

end

/-! ## Programs -/

/-- **Run the body of a function** on as many arguments as it has parameters. A
body that returns nothing returns null. -/
def FunctionDef.run (ctx : Context) (f : FunctionDef) (args : List Value) : Eval Value := do
  match ← Stmt.execAll ctx f.body (f.params.zip args).reverse with
  | .next _ => return .null
  | .ret v => return v

/-- Give a global of a module its initial value, if it has one. -/
def GlobalDef.assignInit (ctx : Context) (module : String) (g : GlobalDef) : Eval Unit :=
  match g.init with
  | none => return ()
  | some init => do
    let v ← init.eval ctx []
    Eval.writeGlobal module g.name v

namespace Program

/-- The function with a name in a module. -/
def function? (p : Program) (module name : String) : Option FunctionDef :=
  (p.module? module).bind fun m => m.functions.find? fun f => f.name == name

/-- The function that a call runs, which must take that many arguments. -/
def callee (p : Program) (module name : String) (args : List Value) : Eval FunctionDef := do
  let f ← Eval.declared (p.function? module name)
  if args.length ≠ f.params.length then
    throw (.arity (module ++ "::" ++ name) f.params.length args.length)
  return f

/-- **Call a function**, given the limit on the depth of calls and how many calls
there is still room for. -/
def call (p : Program) (table : Table) (rounds limit : Nat) :
    Nat → (module name : String) → List Value → Eval Value
  | 0, module, name, args => do
    let _ ← p.callee module name args
    throw (.stackOverflow limit)
  | room + 1, module, name, args => do
    let f ← p.callee module name args
    f.run ⟨table, p.call table rounds limit room, rounds⟩ args

/-- **Initialize a module**: its globals in the order of their declaration. This
takes the place of a call, if there is anything to do. -/
def initModule (p : Program) (table : Table) (rounds limit : Nat) (listed : String × Module) :
    Eval Unit :=
  if listed.2.HasInit then
    match limit with
    | 0 => throw (.stackOverflow limit)
    | room + 1 => listed.2.globals.forM
        (GlobalDef.assignInit ⟨table, p.call table rounds limit room, rounds⟩ listed.1)
  else return ()

/-- A walk over imports: the ids it has met, and the modules that are done, in
order. -/
structure ImportWalk where
  met : List String := []
  order : List (String × Module) := []

/-- Walk a module and its imports. The first argument bounds the number of
modules open at once. -/
def walk (p : Program) : Nat → String → ImportWalk → ImportWalk
  | 0, _, w => w
  | n + 1, id, w =>
    if id ∈ w.met then w
    else
      match p.module? id with
      | none => w
      | some m =>
        let inner := m.imports.foldl (fun w i => p.walk n i w) { w with met := id :: w.met }
        { inner with order := inner.order ++ [(id, m)] }

/-- **The modules of a program, dependencies first.** Of modules that import each
other, the one that is met first comes last. -/
def dependencyOrder (p : Program) : List (String × Module) :=
  (p.walk p.modules.length p.root {}).order

/-- Null in every declared global. -/
def nullGlobals (p : Program) : Globals := fun module name =>
  if p.dependencyOrder.any fun listed =>
      listed.1 == module && listed.2.globals.any fun g => g.name == name then
    some .null
  else none

/-- **Evaluate a program tree**: the arguments must fit the entry function, then
the modules are initialized, and then the entry function is called. There is no
result if a loop takes more rounds than are given. -/
def evaluate (p : Program) (entry : String) (table : Table) (limit rounds : Nat)
    (args : List Value) (w : World) : Option (Except RuntimeError (Value × Globals) × World) :=
  let run : Eval Value := do
    let _ ← p.callee p.root entry args
    p.dependencyOrder.forM (p.initModule table rounds limit)
    p.call table rounds limit limit p.root entry args
  (run.apply ⟨p.nullGlobals, w⟩).map fun (result, σ) =>
    (result.map fun v => (v, σ.globals), σ.world)

end Program

end Source

end BlockIR
