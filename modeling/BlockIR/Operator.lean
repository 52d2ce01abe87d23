/-!
# Binary operators

Each operator is carried out by the builtin operation it names, so it is
checked exactly as a call of that operation is.
-/

namespace BlockIR

/-! ## The names of the standard builtin operations -/

namespace Builtin.Name

def intAdd : String := "__builtin_int_add"
def intSub : String := "__builtin_int_sub"
def intMul : String := "__builtin_int_mul"
def intDiv : String := "__builtin_int_div"
def intMod : String := "__builtin_int_mod"
def anyEq : String := "__builtin_any_eq"
def anyNeq : String := "__builtin_any_neq"
def intLeq : String := "__builtin_int_leq"
def intGeq : String := "__builtin_int_geq"
def intLt : String := "__builtin_int_lt"
def intGt : String := "__builtin_int_gt"
def intAnd : String := "__builtin_int_logical_and"
def intOr : String := "__builtin_int_logical_or"
def concat : String := "concat"
def print : String := "print"
def read : String := "read"
def stringToInt : String := "string_to_int"
def intToString : String := "int_to_string"
def canConvertToInt : String := "can_convert_to_int"
def arrayLength : String := "array_length"
def time : String := "time"

end Builtin.Name

/-! ## Operators -/

/-- A binary operator. -/
inductive Operator where
  | add
  | sub
  | mul
  | div
  | mod
  | eq
  | neq
  | lt
  | leq
  | gt
  | geq
  | and
  | or
  | concat
  deriving DecidableEq

namespace Operator

/-- Every operator, in the order of their declaration. -/
def all : List Operator :=
  [add, sub, mul, div, mod, eq, neq, lt, leq, gt, geq, and, or, concat]

open Builtin in
/-- The builtin operation that carries the operator out. -/
def builtin : Operator → String
  | add => Name.intAdd
  | sub => Name.intSub
  | mul => Name.intMul
  | div => Name.intDiv
  | mod => Name.intMod
  | eq => Name.anyEq
  | neq => Name.anyNeq
  | lt => Name.intLt
  | leq => Name.intLeq
  | gt => Name.intGt
  | geq => Name.intGeq
  | and => Name.intAnd
  | or => Name.intOr
  | concat => Name.concat

/-- The operator as it stands between its operands. -/
def symbol : Operator → String
  | add => "+"
  | sub => "-"
  | mul => "*"
  | div => "/"
  | mod => "%"
  | eq => "=="
  | neq => "!="
  | lt => "<"
  | leq => "<="
  | gt => ">"
  | geq => ">="
  | and => "and"
  | or => "or"
  | concat => "++"

/-- The operator's name in the structural form of an instruction. -/
def name : Operator → String
  | add => "Add"
  | sub => "Sub"
  | mul => "Mul"
  | div => "Div"
  | mod => "Mod"
  | eq => "Eq"
  | neq => "Neq"
  | lt => "Lt"
  | leq => "Leq"
  | gt => "Gt"
  | geq => "Geq"
  | and => "And"
  | or => "Or"
  | concat => "Concat"

/-- The operator with a given symbol. -/
def ofSymbol? (s : String) : Option Operator :=
  all.find? fun op => op.symbol == s

end Operator

end BlockIR
