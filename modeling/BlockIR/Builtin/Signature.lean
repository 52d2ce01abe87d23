import BlockIR.Value
/-!
# Signatures of builtin operations

A builtin operation declares the types of its parameters and of its result.
-/

namespace BlockIR

/-- A declared type: a kind of value, or any value. -/
inductive ParamType where
  | int
  | string
  | array
  | any
  deriving DecidableEq

namespace ParamType

/-- The type takes values of a kind. -/
def accepts : ParamType → Kind → Bool
  | any, _ => true
  | int, k => k == .int
  | string, k => k == .string
  | array, k => k == .array

/-- The type in messages. -/
def text : ParamType → String
  | int => "int"
  | string => "string"
  | array => "array"
  | any => "any"

end ParamType

/-- **The declaration of a builtin operation.** -/
structure Signature where
  name : String
  result : ParamType
  params : List ParamType
  deriving DecidableEq

namespace Signature

/-- The number of parameters. -/
def arity (s : Signature) : Nat := s.params.length

/-- The declaration as text: `name(type, type) -> type`. -/
def text (s : Signature) : String :=
  s.name ++ "(" ++ ", ".intercalate (s.params.map ParamType.text) ++ ") -> " ++ s.result.text

end Signature

/-- **Why declarations and implementations do not go together.** -/
inductive LinkError where
  /-- Declared operations without an implementation, and implementations
  without a declaration. -/
  | incomplete (missing undeclared : List String)
  | duplicateDeclaration (name : String)
  deriving DecidableEq

namespace LinkError

/-- A counted list of names, nothing if there are none. -/
def gap (names : List String) (what : String) : List String :=
  if names.isEmpty then [] else [Nat.repr names.length ++ what ++ ", ".intercalate names]

/-- The error in words. -/
def message : LinkError → String
  | incomplete missing undeclared =>
    "builtin registry is incomplete: " ++ "; ".intercalate
      (gap missing " operation(s) lack an implementation: " ++
        gap undeclared " implementation(s) have no declaration: ")
  | duplicateDeclaration name => "builtin operation '" ++ name ++ "' is declared twice"

end LinkError

end BlockIR
