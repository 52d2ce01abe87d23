import BlockIR.Function.Error
import BlockIR.Instruction
import BlockIR.Location
/-!
# Program trees

The form in which a program is handed over: names are resolved, so a variable
says whether it is a local or which module's global it is, and a call says
which function or builtin operation it runs. Locals are still known by name
and are scoped by the statement lists that declare them.

Lowering trusts the resolution of names and fails only on references to what
does not exist; its errors are listed at the end.
-/

namespace BlockIR

namespace Source

/-- A variable. -/
inductive Variable where
  | named (name : String)
  | global (module name : String)
  deriving DecidableEq

/-- What a call runs. -/
inductive Target where
  | function (module name : String)
  | builtin (name : String)
  deriving DecidableEq

/-- **An expression.** -/
inductive Expr where
  | int (i : Int64)
  | str (s : String)
  | null
  | var (v : Variable)
  | call (target : Target) (args : List Expr)
  | binary (op : Operator) (lhs rhs : Expr)
  | arrayLit (elements : List Expr)
  | newArray (size : Expr)
  | index (array index : Expr)

/-- **A statement.** A declaration without initial value gives its variable
null. -/
inductive Stmt where
  | declare (name : String) (init : Option Expr)
  | assign (v : Variable) (value : Expr)
  | assignIndex (array index value : Expr)
  | ite (cond : Expr) (thenBody elseBody : List Stmt)
  | loop (cond : Expr) (body : List Stmt)
  | ret (value : Option Expr)
  | expr (e : Expr)
  | located (location : Location) (stmt : Stmt)

/-- The declaration of a global. -/
structure GlobalDef where
  name : String
  init : Option Expr := none
  location : Location := .unknown

/-- The definition of a function. -/
structure FunctionDef where
  name : String
  params : List String
  body : List Stmt

/-- The contents of a module. -/
structure Module where
  imports : List String := []
  globals : List GlobalDef := []
  functions : List FunctionDef := []

/-- **A program tree**: modules by id, and the id of the root. -/
structure Program where
  modules : List (String × Module)
  root : String

/-- The module with an id. -/
def Program.module? (p : Program) (id : String) : Option Module :=
  p.modules.lookup id

end Source

/-- **Why a program tree cannot be lowered.** -/
inductive LoweringError where
  | unknownModule (module : String)
  | unknownFunction (module name : String)
  | unknownGlobal (module name : String)
  | unknownLocal (function name : String)
  | missingEntry (module name : String)
  | structure (e : StructureError)
  deriving DecidableEq

/-- The error in words. -/
def LoweringError.message : LoweringError → String
  | unknownModule module => "module '" ++ module ++ "' is imported but was never provided"
  | unknownFunction module name => "module '" ++ module ++ "' has no function '" ++ name ++ "'"
  | unknownGlobal module name => "module '" ++ module ++ "' has no global '" ++ name ++ "'"
  | unknownLocal function name =>
    "in function '" ++ function ++ "': no local variable '" ++ name ++ "' is in scope"
  | missingEntry module name =>
    "module '" ++ module ++ "' has no entry function '" ++ name ++ "'"
  | .structure e => e.message

end BlockIR
