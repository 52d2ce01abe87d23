import BlockIR.Function.Cursor
import BlockIR.Source.Tree
/-!
# Lowering of bodies

A function body becomes blocks: expressions become instructions that write
fresh local slots, in the order of their evaluation, and statements direct the
control flow. Every declared variable has a local slot of its own; a scope maps
the names declared in one statement list to their slots. Code behind a return
is kept in a block of its own that nothing leads to.
-/

namespace BlockIR

namespace Source

/-- The functions and globals that names denote, by module and name. The latest
entry counts. -/
structure Symbols where
  functions : List ((String × String) × FunctionRef) := []
  globals : List ((String × String) × GlobalId) := []

namespace Symbols

/-- The function with a name in a module. -/
def function (s : Symbols) (module name : String) : Except LoweringError FunctionRef :=
  match s.functions.lookup (module, name) with
  | some f => .ok f
  | none => .error (.unknownFunction module name)

/-- The global with a name in a module. -/
def global (s : Symbols) (module name : String) : Except LoweringError GlobalId :=
  match s.globals.lookup (module, name) with
  | some g => .ok g
  | none => .error (.unknownGlobal module name)

end Symbols

/-- The names declared in one statement list, the latest first. -/
abbrev Scope := List (String × LocalId)

/-- **A body under construction**: the code so far, and the scopes in force,
innermost first. -/
structure Draft where
  cursor : Cursor
  scopes : List Scope

/-- A step of lowering. -/
abbrev Lower := StateT Draft (Except LoweringError)

namespace Lower

/-- Emit code. -/
def emit {α : Type} (e : Emit α) : Lower α :=
  fun ⟨cursor, scopes⟩ =>
    match e.apply cursor with
    | (.ok a, cursor') => .ok (a, ⟨cursor', scopes⟩)
    | (.error err, _) => .error (.structure err)

/-- Act on the cursor. -/
def onCursor {α : Type} (x : StateM Cursor α) : Lower α :=
  fun ⟨cursor, scopes⟩ =>
    match x.run cursor with
    | (a, cursor') => .ok (a, ⟨cursor', scopes⟩)

/-- The local slot of a name, in the innermost scope that has it. -/
def lookup (name : String) : Lower LocalId := do
  let d ← get
  match d.scopes.findSome? (List.lookup name) with
  | some l => return l
  | none => throw (.unknownLocal d.cursor.function.name name)

/-- Declare a name in the innermost scope. -/
def bind (name : String) (l : LocalId) : Lower Unit :=
  modify fun d =>
    match d.scopes with
    | [] => d
    | scope :: outer => { d with scopes := ((name, l) :: scope) :: outer }

/-- Lower something in a scope of its own. -/
def inScope (x : Lower Unit) : Lower Unit := do
  modify fun d => { d with scopes := [] :: d.scopes }
  x
  modify fun d => { d with scopes := d.scopes.tail }

/-- The current block ends with a terminator. -/
def isClosed : Lower Bool := do
  return (← get).cursor.isClosed

/-- Go on in a block. -/
def moveTo (b : BlockId) : Lower Unit :=
  onCursor (Emit.moveTo b)

/-- Add a block. -/
def newBlock (name : String) : Lower BlockId :=
  onCursor (Emit.newBlock name)

/-- Leave a closed block for a new one that nothing leads to. -/
def reopen : Lower Unit := do
  if ← isClosed then
    moveTo (← newBlock "unreachable")

/-- Jump to a block, unless the current one is closed. -/
def jumpIfOpen (target : BlockId) : Lower Unit := do
  unless ← isClosed do
    emit (Emit.jump target)

/-- Return null at the end of a body, unless it ended already. -/
def closeBody : Lower Unit := do
  unless ← isClosed do
    let _ ← onCursor (Emit.locate .builtin)
    emit (Emit.ret .null)

/-- What a call runs. -/
def callee (symbols : Symbols) : Target → Except LoweringError Callee
  | .function module name => return .function (← symbols.function module name)
  | .builtin name => return .builtin name

mutual

/-- **Lower an expression**: the code that evaluates it, and the operand that
then holds its value. -/
def expr (symbols : Symbols) : Expr → Lower Operand
  | .int i => return .int i
  | .str s => return .str s
  | .null => return .null
  | .var (.named name) => return .var (← lookup name)
  | .var (.global module name) => do
    let g ← symbols.global module name
    return .var (← emit (Emit.loadGlobal g))
  | .call target args => do
    let callee ← callee symbols target
    let operands ← exprs symbols args
    return .var (← emit (Emit.call callee operands))
  | .binary op lhs rhs => do
    let a ← expr symbols lhs
    let b ← expr symbols rhs
    return .var (← emit (Emit.binary op a b))
  | .arrayLit elems => do
    let array ← emit (Emit.newArray (.int (Int64.ofNat elems.length)))
    elements symbols array 0 elems
    return .var array
  | .newArray size => do
    let n ← expr symbols size
    return .var (← emit (Emit.newArray n))
  | .index array index => do
    let a ← expr symbols array
    let i ← expr symbols index
    return .var (← emit (Emit.loadArray a i))

/-- Lower expressions from left to right. -/
def exprs (symbols : Symbols) : List Expr → Lower (List Operand)
  | [] => return []
  | e :: es => do
    let o ← expr symbols e
    return o :: (← exprs symbols es)

/-- Lower the elements of an array from an index on, each stored once it is
evaluated. -/
def elements (symbols : Symbols) (array : LocalId) : Nat → List Expr → Lower Unit
  | _, [] => return ()
  | i, e :: es => do
    let v ← expr symbols e
    emit (Emit.storeArray (.var array) (.int (Int64.ofNat i)) v)
    elements symbols array (i + 1) es

end

/-- Lower an expression that may be absent, and is null then. -/
def exprOrNull (symbols : Symbols) : Option Expr → Lower Operand
  | some e => expr symbols e
  | none => return .null

/-- Lower an assignment of an operand. -/
def assign (symbols : Symbols) (value : Operand) : Variable → Lower Unit
  | .named name => do
    let l ← lookup name
    emit (Emit.copy l value)
  | .global module name => do
    let g ← symbols.global module name
    emit (Emit.storeGlobal g value)

mutual

/-- **Lower a statement.** -/
def stmt (symbols : Symbols) : Stmt → Lower Unit
  | .declare name init => do
    reopen
    let value ← exprOrNull symbols init
    let l ← onCursor Emit.freshLocal
    emit (Emit.copy l value)
    bind name l
  | .assign v value => do
    reopen
    let o ← expr symbols value
    assign symbols o v
  | .assignIndex array index value => do
    reopen
    let a ← expr symbols array
    let i ← expr symbols index
    let v ← expr symbols value
    emit (Emit.storeArray a i v)
  | .ite cond thenBody elseBody => do
    reopen
    let c ← expr symbols cond
    let thenBlock ← newBlock "if.then"
    let elseBlock ← newBlock "if.else"
    let join ← newBlock "if.end"
    emit (Emit.branch c thenBlock elseBlock)
    moveTo thenBlock
    inScope (body symbols thenBody)
    jumpIfOpen join
    moveTo elseBlock
    inScope (body symbols elseBody)
    jumpIfOpen join
    moveTo join
  | .loop cond loopBody => do
    reopen
    let test ← newBlock "while.cond"
    let inside ← newBlock "while.body"
    let exit ← newBlock "while.end"
    emit (Emit.jump test)
    moveTo test
    let c ← expr symbols cond
    emit (Emit.branch c inside exit)
    moveTo inside
    inScope (body symbols loopBody)
    jumpIfOpen test
    moveTo exit
  | .ret value => do
    reopen
    let v ← exprOrNull symbols value
    emit (Emit.ret v)
  | .expr e => do
    reopen
    let _ ← expr symbols e
  | .located location inner => do
    reopen
    let previous ← onCursor (Emit.locate location)
    stmt symbols inner
    let _ ← onCursor (Emit.locate previous)

/-- Lower statements in order. -/
def body (symbols : Symbols) : List Stmt → Lower Unit
  | [] => return ()
  | s :: rest => do
    stmt symbols s
    body symbols rest

end

/-- Lower into a function that begins empty, with some names in scope. -/
def intoFunction (name : String) (params : List String) (scope : Scope) (x : Lower Unit) :
    Except LoweringError Function := do
  let start : Draft := ⟨Cursor.atEntry (Function.empty name params), [scope]⟩
  let (_, d) ← StateT.run (do x; closeBody) start
  return d.cursor.function

/-- The scope of a function's parameters. Of parameters with one name the last
counts. -/
def paramScope (params : List String) : Scope :=
  (params.mapIdx fun i name => (name, i)).reverse

end Lower

/-- **Lower a function.** -/
def FunctionDef.lower (symbols : Symbols) (f : FunctionDef) : Except LoweringError Function :=
  Lower.intoFunction f.name f.params (Lower.paramScope f.params) (Lower.body symbols f.body)

/-- The name of the function that initializes a module. -/
def initName : String := "<init>"

/-- Lower the initial value of a global of a module, if it has one. -/
def GlobalDef.lowerInit (symbols : Symbols) (module : String) (g : GlobalDef) : Lower Unit :=
  match g.init with
  | none => return ()
  | some init => do
    let _ ← Lower.onCursor (Emit.locate g.location)
    let value ← Lower.expr symbols init
    let id ← symbols.global module g.name
    Lower.emit (Emit.storeGlobal id value)

/-- **Lower the initializer of a module**: its globals in the order of their
declaration. -/
def Module.lowerInit (symbols : Symbols) (id : String) (m : Module) :
    Except LoweringError Function :=
  Lower.intoFunction initName [] [] (m.globals.forM (GlobalDef.lowerInit symbols id))

end Source

end BlockIR
