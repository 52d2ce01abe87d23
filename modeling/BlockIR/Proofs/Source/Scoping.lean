import BlockIR.Source.Lowering
/-!
# Well-scoped program trees

What it means that every name of a program tree is declared where it is used.
References to functions and globals are read against an `Environment`; a local
is in scope from the statement after its declaration to the end of the
statement list that declares it, inner lists included. Nothing here mentions
code or slots.

The same is said by listing the references of a tree, in the order in which
lowering comes to them (`FunctionDef.scoped_iff`): an error of lowering names
the first of them that is not declared.
-/

namespace BlockIR

namespace Source

/-- The functions and globals that may be referred to, by module and name. -/
structure Environment where
  function : String → String → Prop
  global : String → String → Prop

/-- A variable is declared, given the locals in scope. -/
def Variable.Scoped (env : Environment) (names : List String) : Variable → Prop
  | .named name => name ∈ names
  | .global module name => env.global module name

/-- What a call runs is declared. Builtin operations are bound when the call
executes. -/
def Target.Scoped (env : Environment) : Target → Prop
  | .function module name => env.function module name
  | .builtin _ => True

mutual

/-- **Every reference of an expression is declared**, given the locals in
scope. -/
def Expr.Scoped (env : Environment) (names : List String) : Expr → Prop
  | .int _ | .str _ | .null => True
  | .var v => v.Scoped env names
  | .call target args => target.Scoped env ∧ Expr.AllScoped env names args
  | .binary _ lhs rhs => lhs.Scoped env names ∧ rhs.Scoped env names
  | .arrayLit elements => Expr.AllScoped env names elements
  | .newArray size => size.Scoped env names
  | .index array i => array.Scoped env names ∧ i.Scoped env names

/-- Every reference of some expressions is declared. -/
def Expr.AllScoped (env : Environment) (names : List String) : List Expr → Prop
  | [] => True
  | e :: es => e.Scoped env names ∧ Expr.AllScoped env names es

end

/-- An expression that may be absent. -/
def Expr.OptScoped (env : Environment) (names : List String) : Option Expr → Prop
  | none => True
  | some e => e.Scoped env names

/-- The local that a statement declares for those that follow it. -/
def Stmt.declared? : Stmt → Option String
  | .declare name _ => some name
  | .located _ stmt => stmt.declared?
  | _ => none

/-- **A statement that closes the block it ends in**: a return. Behind any other,
control may go on. -/
def Stmt.closes : Stmt → Bool
  | .ret _ => true
  | .located _ stmt => stmt.closes
  | _ => false

mutual

/-- **Every reference of a statement is declared**, given the locals in scope,
the latest first. A declaration is not in scope in its own initial value. -/
def Stmt.Scoped (env : Environment) (names : List String) : Stmt → Prop
  | .declare _ init => Expr.OptScoped env names init
  | .assign v value => value.Scoped env names ∧ v.Scoped env names
  | .assignIndex array index value =>
    array.Scoped env names ∧ index.Scoped env names ∧ value.Scoped env names
  | .ite cond thenBody elseBody =>
    cond.Scoped env names ∧ Stmt.AllScoped env names thenBody ∧ Stmt.AllScoped env names elseBody
  | .loop cond body => cond.Scoped env names ∧ Stmt.AllScoped env names body
  | .ret value => Expr.OptScoped env names value
  | .expr e => e.Scoped env names
  | .located _ stmt => stmt.Scoped env names

/-- Every reference of a statement list is declared: what a statement declares
is in scope in the rest of its list. -/
def Stmt.AllScoped (env : Environment) (names : List String) : List Stmt → Prop
  | [] => True
  | s :: rest => s.Scoped env names ∧ Stmt.AllScoped env (s.declared?.toList ++ names) rest

end

/-- Every reference of a function is declared. Its parameters are in scope in
its body. -/
def FunctionDef.Scoped (env : Environment) (f : FunctionDef) : Prop :=
  Stmt.AllScoped env f.params.reverse f.body

/-! ## References -/

/-- **A reference of a program tree**: to a variable by its name, with the locals
in scope there, or to a global or a function of a module. -/
inductive Reference where
  | named (name : String) (names : List String)
  | global (module name : String)
  | function (module name : String)

/-- What is referred to is declared. -/
def Reference.Declared (env : Environment) : Reference → Prop
  | .named name names => name ∈ names
  | .global module name => env.global module name
  | .function module name => env.function module name

/-- The error that names a reference, in a function. -/
def Reference.error (function : String) : Reference → LoweringError
  | .named name _ => .unknownLocal function name
  | .global module name => .unknownGlobal module name
  | .function module name => .unknownFunction module name

/-- The reference that a variable is, given the locals in scope. -/
def Variable.reference (names : List String) : Variable → Reference
  | .named name => .named name names
  | .global module name => .global module name

/-- The reference that the target of a call is, if any. -/
def Target.reference? : Target → Option Reference
  | .function module name => some (.function module name)
  | .builtin _ => none

mutual

/-- The references of an expression, given the locals in scope. -/
def Expr.references (names : List String) : Expr → List Reference
  | .int _ | .str _ | .null => []
  | .var v => [v.reference names]
  | .call target args => target.reference?.toList ++ Expr.allReferences names args
  | .binary _ lhs rhs => lhs.references names ++ rhs.references names
  | .arrayLit elements => Expr.allReferences names elements
  | .newArray size => size.references names
  | .index array i => array.references names ++ i.references names

/-- The references of some expressions. -/
def Expr.allReferences (names : List String) : List Expr → List Reference
  | [] => []
  | e :: es => e.references names ++ Expr.allReferences names es

end

/-- The references of an expression that may be absent. -/
def Expr.optReferences (names : List String) : Option Expr → List Reference
  | none => []
  | some e => e.references names

mutual

/-- The references of a statement, given the locals in scope. What is assigned to
is referred to after the value. -/
def Stmt.references (names : List String) : Stmt → List Reference
  | .declare _ init => Expr.optReferences names init
  | .assign v value => value.references names ++ [v.reference names]
  | .assignIndex array index value =>
    array.references names ++ (index.references names ++ value.references names)
  | .ite cond thenBody elseBody =>
    cond.references names ++
      (Stmt.allReferences names thenBody ++ Stmt.allReferences names elseBody)
  | .loop cond body => cond.references names ++ Stmt.allReferences names body
  | .ret value => Expr.optReferences names value
  | .expr e => e.references names
  | .located _ stmt => stmt.references names

/-- The references of a statement list. -/
def Stmt.allReferences (names : List String) : List Stmt → List Reference
  | [] => []
  | s :: rest => s.references names ++ Stmt.allReferences (s.declared?.toList ++ names) rest

end

/-- The references of a function, from its parameters on. -/
def FunctionDef.references (f : FunctionDef) : List Reference :=
  Stmt.allReferences f.params.reverse f.body

/-- The references of the initial values of a module, which see no locals. -/
def Module.initReferences (m : Module) : List Reference :=
  m.globals.flatMap fun g => Expr.optReferences [] g.init

/-- **The error names the first undeclared of some references**, in a function. -/
def Blames (env : Environment) (function : String) (refs : List Reference) (e : LoweringError) :
    Prop :=
  ∃ before r after, refs = before ++ r :: after ∧ (∀ r' ∈ before, r'.Declared env) ∧
    ¬ r.Declared env ∧ e = r.error function

section

variable {env : Environment}

/-- A variable is in scope when it is declared as a reference. -/
theorem Variable.scoped_iff (names : List String) (v : Variable) :
    v.Scoped env names ↔ (v.reference names).Declared env := by
  cases v <;> rfl

/-- The target of a call is in scope when it is declared, if it is a reference. -/
theorem Target.scoped_iff (target : Target) :
    target.Scoped env ↔ ∀ r ∈ target.reference?.toList, r.Declared env := by
  cases target with
  | function module name =>
    simp [Target.Scoped, Target.reference?, Reference.Declared]
  | builtin name => simp [Target.Scoped, Target.reference?]

mutual

/-- **An expression is well scoped when all its references are declared.** -/
theorem Expr.scoped_iff (names : List String) : ∀ e : Expr,
    e.Scoped env names ↔ ∀ r ∈ e.references names, r.Declared env
  | .int _ | .str _ | .null => by simp [Expr.Scoped, Expr.references]
  | .var v => by simp [Expr.Scoped, Expr.references, v.scoped_iff]
  | .call target args => by
    rw [Expr.Scoped, Expr.references, List.forall_mem_append, target.scoped_iff,
      Expr.allScoped_iff names args]
  | .binary _ lhs rhs => by
    rw [Expr.Scoped, Expr.references, List.forall_mem_append, lhs.scoped_iff, rhs.scoped_iff]
  | .arrayLit elements => by rw [Expr.Scoped, Expr.references, Expr.allScoped_iff names elements]
  | .newArray size => by rw [Expr.Scoped, Expr.references, size.scoped_iff]
  | .index array i => by
    rw [Expr.Scoped, Expr.references, List.forall_mem_append, array.scoped_iff, i.scoped_iff]

/-- Expressions are well scoped when all their references are declared. -/
theorem Expr.allScoped_iff (names : List String) : ∀ es : List Expr,
    Expr.AllScoped env names es ↔ ∀ r ∈ Expr.allReferences names es, r.Declared env
  | [] => by simp [Expr.AllScoped, Expr.allReferences]
  | e :: es => by
    rw [Expr.AllScoped, Expr.allReferences, List.forall_mem_append, e.scoped_iff,
      Expr.allScoped_iff names es]

end

/-- An absent expression has no references. -/
theorem Expr.optScoped_iff (names : List String) (e : Option Expr) :
    Expr.OptScoped env names e ↔ ∀ r ∈ Expr.optReferences names e, r.Declared env := by
  cases e with
  | none => simp [Expr.OptScoped, Expr.optReferences]
  | some e => exact e.scoped_iff names

mutual

/-- **A statement is well scoped when all its references are declared.** -/
theorem Stmt.scoped_iff (names : List String) : ∀ s : Stmt,
    s.Scoped env names ↔ ∀ r ∈ s.references names, r.Declared env
  | .declare _ init => by rw [Stmt.Scoped, Stmt.references, Expr.optScoped_iff]
  | .assign v value => by
    rw [Stmt.Scoped, Stmt.references, List.forall_mem_append, value.scoped_iff,
      List.forall_mem_singleton, v.scoped_iff]
  | .assignIndex array index value => by
    rw [Stmt.Scoped, Stmt.references, List.forall_mem_append, List.forall_mem_append,
      array.scoped_iff, index.scoped_iff, value.scoped_iff]
  | .ite cond thenBody elseBody => by
    rw [Stmt.Scoped, Stmt.references, List.forall_mem_append, List.forall_mem_append,
      cond.scoped_iff, Stmt.allScoped_iff names thenBody, Stmt.allScoped_iff names elseBody]
  | .loop cond body => by
    rw [Stmt.Scoped, Stmt.references, List.forall_mem_append, cond.scoped_iff,
      Stmt.allScoped_iff names body]
  | .ret value => by rw [Stmt.Scoped, Stmt.references, Expr.optScoped_iff]
  | .expr e => by rw [Stmt.Scoped, Stmt.references, e.scoped_iff]
  | .located _ stmt => by rw [Stmt.Scoped, Stmt.references, stmt.scoped_iff names]

/-- Statements are well scoped when all their references are declared. -/
theorem Stmt.allScoped_iff (names : List String) : ∀ ss : List Stmt,
    Stmt.AllScoped env names ss ↔ ∀ r ∈ Stmt.allReferences names ss, r.Declared env
  | [] => by simp [Stmt.AllScoped, Stmt.allReferences]
  | s :: rest => by
    rw [Stmt.AllScoped, Stmt.allReferences, List.forall_mem_append, s.scoped_iff names,
      Stmt.allScoped_iff _ rest]

end

/-- **A function is well scoped when all its references are declared.** -/
theorem FunctionDef.scoped_iff (f : FunctionDef) :
    f.Scoped env ↔ ∀ r ∈ f.references, r.Declared env :=
  Stmt.allScoped_iff _ f.body

/-- The initial values of a module are well scoped when all their references are
declared. -/
theorem Module.initScoped_iff (m : Module) :
    (∀ g ∈ m.globals, Expr.OptScoped env [] g.init) ↔ ∀ r ∈ m.initReferences, r.Declared env := by
  simp only [initReferences, List.forall_mem_flatMap, Expr.optScoped_iff]

end

/-! ## Programs -/

/-- Some global of the module has an initial value. -/
def Module.HasInit (m : Module) : Prop :=
  ∃ g ∈ m.globals, g.init.isSome = true

instance (m : Module) : Decidable m.HasInit :=
  inferInstanceAs (Decidable (∃ g ∈ m.globals, g.init.isSome = true))

/-- The names of the functions of a module, its initializer included. -/
def Module.names (m : Module) : List String :=
  m.functions.map (·.name) ++ if m.HasInit then [initName] else []

namespace Program

/-- **A module id that the program needs**: the root's, and those that needed
modules import. -/
inductive Needs (p : Program) : String → Prop
  | root : Needs p p.root
  | imported {id imported : String} {m : Module} :
      Needs p id → p.module? id = some m → imported ∈ m.imports → Needs p imported

/-- A module that the program consists of. -/
def Includes (p : Program) (id : String) (m : Module) : Prop :=
  p.Needs id ∧ p.module? id = some m

/-- What the modules of a program declare. -/
def environment (p : Program) : Environment where
  function module name := ∃ m, p.Includes module m ∧ ∃ f ∈ m.functions, f.name = name
  global module name := ∃ m, p.Includes module m ∧ ∃ g ∈ m.globals, g.name = name

/-- **A well-scoped program tree**, to be entered at a function of its root. -/
structure WellScoped (p : Program) (entry : String) : Prop where
  provided : ∀ id, p.Needs id → ∃ m, p.module? id = some m
  distinct : ∀ id m, p.Includes id m → (m.functions.map (·.name)).Nodup
  initFree : ∀ id m, p.Includes id m → m.HasInit → initName ∉ m.functions.map (·.name)
  bodies : ∀ id m, p.Includes id m → ∀ f ∈ m.functions, f.Scoped p.environment
  inits : ∀ id m, p.Includes id m → ∀ g ∈ m.globals, Expr.OptScoped p.environment [] g.init
  entry : p.environment.function p.root entry

/-- **The error names an undeclared reference of the program**: the first one of a
function, or of the initial values of a module. -/
def Unresolved (p : Program) (e : LoweringError) : Prop :=
  ∃ id m, p.Includes id m ∧ ((∃ f ∈ m.functions, Blames p.environment f.name f.references e) ∨
    Blames p.environment initName m.initReferences e)

/-- **What an error says of a program tree.** Lowering fails with no other errors
than those that say something. -/
def Reports (p : Program) (entry : String) : LoweringError → Prop
  | .unknownModule id => p.Needs id ∧ p.module? id = none
  | .unknownFunction module name =>
      ¬ p.environment.function module name ∧ p.Unresolved (.unknownFunction module name)
  | .unknownGlobal module name =>
      ¬ p.environment.global module name ∧ p.Unresolved (.unknownGlobal module name)
  | .unknownLocal function name => p.Unresolved (.unknownLocal function name)
  | .missingEntry module name =>
      module = p.root ∧ name = entry ∧ ¬ p.environment.function module name
  | .structure (.duplicateFunction id name) => ∃ m, p.Includes id m ∧ 1 < m.names.count name
  | .structure _ => False

end Program

end Source

end BlockIR
