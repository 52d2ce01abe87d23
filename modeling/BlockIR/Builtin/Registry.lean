import BlockIR.World
/-!
# The registry of builtin operations

Operations are declared and implemented apart. Linking checks that every
declaration has an implementation and every implementation a declaration, and
makes the table through which operations are called. A call is checked against
the declaration: the number of arguments, the kind of each, and in the end the
kind of the result.
-/

namespace BlockIR

/-- The implementation of a builtin operation. -/
abbrev Primitive := List Value → Effect Value

/-- **Declarations and implementations of builtin operations**, before they
are linked. -/
structure Registry where
  signatures : List Signature := []
  primitives : List (String × Primitive) := []

/-- An action on a registry that may fail. -/
abbrev Registration := Transform Registry LinkError

/-- A declared operation with its implementation. -/
structure Entry where
  signature : Signature
  run : Primitive

/-- **A linked table of builtin operations.** -/
structure Table where
  entries : List Entry

/-- Names in ascending order. -/
def ascending (names : List String) : List String :=
  names.mergeSort fun a b => decide (a ≤ b)

namespace Registry

/-- Declare an operation. A name is declared once. -/
def declare (s : Signature) : Registration Unit := do
  if (← get).signatures.any fun t => t.name == s.name then
    throw (.duplicateDeclaration s.name)
  modify fun r => { r with signatures := r.signatures ++ [s] }

/-- Declare operations in order, up to the first name declared twice. -/
def declareAll (signatures : List Signature) : Registration Unit :=
  signatures.forM declare

/-- Implement an operation. The last implementation under a name counts. -/
def implement (name : String) (run : Primitive) : StateM Registry Unit :=
  modify fun r =>
    { r with primitives := (name, run) :: r.primitives.filter fun p => p.1 != name }

/-- Drop the implementation under a name. False if there is none. -/
def withdraw (name : String) : StateM Registry Bool :=
  modifyGet fun r =>
    (r.primitives.any fun p => p.1 == name,
      { r with primitives := r.primitives.filter fun p => p.1 != name })

/-- The implementation under a name. -/
def primitive? (r : Registry) (name : String) : Option Primitive :=
  r.primitives.lookup name

/-- The declared names without implementation, in declaration order. -/
def missing (r : Registry) : List String :=
  (r.signatures.filter fun s => (r.primitive? s.name).isNone).map (·.name)

/-- The implemented names without declaration. -/
def undeclared (r : Registry) : List String :=
  (r.primitives.map (·.1)).filter fun name => !r.signatures.any fun s => s.name == name

/-- **Link a registry** into a table with one entry for each declaration. Gaps
are reported in declaration order, stray implementations in ascending order. -/
def link (r : Registry) : Except LinkError Table :=
  if r.missing.isEmpty && r.undeclared.isEmpty then
    .ok ⟨r.signatures.filterMap fun s => (r.primitive? s.name).map fun run => ⟨s, run⟩⟩
  else .error (.incomplete r.missing (ascending r.undeclared))

end Registry

namespace Table

/-- The entry under a name. -/
def entry? (t : Table) (name : String) : Option Entry :=
  t.entries.find? fun e => e.signature.name == name

/-- The declaration under a name. -/
def signature? (t : Table) (name : String) : Option Signature :=
  (t.entry? name).map (·.signature)

/-- The number of operations. -/
def size (t : Table) : Nat := t.entries.length

/-- The names in a table, in ascending order. -/
def names (t : Table) : List String :=
  ascending (t.entries.map (·.signature.name))

/-- The structural form of a table: the names it holds. -/
def structural (t : Table) : String :=
  Structural.record "Builtins" [("entries", Structural.list (t.names.map Text.quote))]

/-- The first argument whose kind its parameter does not accept, from an index
on, with the type that was expected. -/
def mismatch? : Nat → List ParamType → List Value → Option (Nat × ParamType × Kind)
  | i, t :: ts, v :: vs => if t.accepts v.kind then mismatch? (i + 1) ts vs else some (i, t, v.kind)
  | _, _, _ => none

/-- **Call an operation.** Arguments that do not fit the declaration are
refused before it runs, and a result that does not fit it after. -/
def call (t : Table) (name : String) (args : List Value) : Effect Value := do
  match t.entry? name with
  | none => throw (.unknownBuiltin name)
  | some e =>
    let s := e.signature
    if args.length ≠ s.arity then
      throw (.arity ("built-in operation " ++ name) s.arity args.length)
    match mismatch? 0 s.params args with
    | some (index, expected, actual) => throw (.argumentKind name index expected actual)
    | none =>
      let result ← e.run args
      if s.result.accepts result.kind then
        return result
      else
        throw (.brokenPromise name s.result result.kind)

end Table

end BlockIR
