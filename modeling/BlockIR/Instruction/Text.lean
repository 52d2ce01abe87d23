import BlockIR.Instruction
import BlockIR.Text.Decimal
import BlockIR.Text.Quoted
/-!
# The text of instructions

An instruction has two texts. In a listing it reads like an assignment, with
functions and globals named by a `Naming` and text quoted. Its structural form spells out
the constructor and its fields, and stands in messages about instructions that
cannot be placed.
-/

namespace BlockIR

namespace LocalId

/-- A local slot in listings: `%n`. -/
def text (l : LocalId) : String := "%" ++ Nat.repr l

end LocalId

namespace InstrId

/-- An instruction's number in messages: `in`. -/
def text (i : InstrId) : String := "i" ++ Nat.repr i

end InstrId

namespace BlockId

/-- A block's number in listings: `bbn`. -/
def text (b : BlockId) : String := "bb" ++ Nat.repr b

end BlockId

namespace GlobalId

/-- A global's number in listings: `@n`. -/
def text (g : GlobalId) : String := "@" ++ Nat.repr g

end GlobalId

/-- A constant in listings. Text is quoted. -/
def Constant.textBy (hidden : Char → Bool) : Constant → String
  | int i => Decimal.ofInt64 i
  | str s => Text.quoteBy hidden s
  | null => "null"

/-- An operand in listings. -/
def Operand.textBy (hidden : Char → Bool) : Operand → String
  | var l => LocalId.text l
  | const c => c.textBy hidden

/-- An operand, with the usual choice of hidden characters. -/
def Operand.text (o : Operand) : String := o.textBy Text.isHidden

/-- **Names for functions and globals in a listing.** -/
structure Naming where
  function : FunctionRef → String
  global : GlobalId → String

/-- The naming that knows positions only. -/
def Naming.byPosition : Naming where
  function f := "fn" ++ Nat.repr f.module ++ "." ++ Nat.repr f.index
  global g := GlobalId.text g

namespace Instruction

/-- Operands in parentheses, separated by commas. -/
def argumentsText (hidden : Char → Bool) (args : List Operand) : String :=
  "(" ++ ", ".intercalate (args.map (Operand.textBy hidden)) ++ ")"

/-- What a call runs, in a listing. -/
def calleeText (names : Naming) : Callee → String
  | .function f => names.function f
  | .builtin name => "builtin " ++ name

/-- The assignment in front of a call whose result is kept. -/
def targetText : Option LocalId → String
  | some dst => LocalId.text dst ++ " = "
  | none => ""

/-- **An instruction in a listing.** -/
def textBy (hidden : Char → Bool) (names : Naming) : Instruction → String
  | copy dst src => LocalId.text dst ++ " = " ++ src.textBy hidden
  | newArray dst size => LocalId.text dst ++ " = newarray " ++ size.textBy hidden
  | loadArray dst array index =>
    LocalId.text dst ++ " = " ++ array.textBy hidden ++ "[" ++ index.textBy hidden ++ "]"
  | storeArray array index value =>
    array.textBy hidden ++ "[" ++ index.textBy hidden ++ "] = " ++ value.textBy hidden
  | loadGlobal dst g => LocalId.text dst ++ " = load " ++ names.global g
  | storeGlobal g src => "store " ++ names.global g ++ ", " ++ src.textBy hidden
  | call dst callee args =>
    targetText dst ++ "call " ++ calleeText names callee ++ argumentsText hidden args
  | binary dst op lhs rhs =>
    LocalId.text dst ++ " = " ++ lhs.textBy hidden ++ " " ++ op.symbol ++ " " ++ rhs.textBy hidden
  | jump target => "jump " ++ BlockId.text target
  | branch cond t e =>
    "branch " ++ cond.textBy hidden ++ ", " ++ BlockId.text t ++ ", " ++ BlockId.text e
  | ret value => "return " ++ value.textBy hidden

/-- An instruction, with the usual choice of hidden characters. -/
def text (names : Naming) (x : Instruction) : String := x.textBy Text.isHidden names

end Instruction

/-! ## The structural form -/

namespace Structural

/-- A constructor applied to one argument. -/
def applied (name arg : String) : String := name ++ "(" ++ arg ++ ")"

/-- A constructor with named fields. -/
def record (name : String) (fields : List (String × String)) : String :=
  name ++ " \x7b " ++ ", ".intercalate (fields.map fun f => f.1 ++ ": " ++ f.2) ++ " \x7d"

/-- Items in brackets. -/
def list (items : List String) : String := "[" ++ ", ".intercalate items ++ "]"

/-- A local slot. -/
def localId (l : LocalId) : String := applied "Local" (Nat.repr l)

/-- A block. -/
def blockId (b : BlockId) : String := applied "BlockId" (Nat.repr b)

/-- A global. -/
def globalId (g : GlobalId) : String := applied "GlobalId" (Nat.repr g)

/-- An optional item. -/
def optional : Option String → String
  | some s => applied "Some" s
  | none => "None"

/-- A constant. -/
def constant : Constant → String
  | .int i => applied "Int" (Decimal.ofInt64 i)
  | .str s => applied "Str" (Text.quote s)
  | .null => "Null"

/-- An operand. -/
def operand : Operand → String
  | .var l => applied "Local" (localId l)
  | .const c => applied "Const" (constant c)

/-- What a call runs. -/
def callee : Callee → String
  | .function f =>
    applied "Function" <| record "FuncRef"
      [("module", applied "ModuleIdx" (Nat.repr f.module)), ("index", Nat.repr f.index)]
  | .builtin name => applied "Builtin" (Text.quote name)

/-- **The structural form of an instruction.** -/
def instruction : Instruction → String
  | .copy dst src => record "Copy" [("dst", localId dst), ("src", operand src)]
  | .newArray dst size => record "NewArray" [("dst", localId dst), ("size", operand size)]
  | .loadArray dst array index =>
    record "LoadArray" [("dst", localId dst), ("array", operand array), ("index", operand index)]
  | .storeArray array index value =>
    record "StoreArray"
      [("array", operand array), ("index", operand index), ("value", operand value)]
  | .loadGlobal dst g => record "LoadGlobal" [("dst", localId dst), ("global", globalId g)]
  | .storeGlobal g src => record "StoreGlobal" [("global", globalId g), ("src", operand src)]
  | .call dst target args =>
    record "Call"
      [("dst", optional (dst.map localId)), ("callee", callee target),
        ("args", list (args.map operand))]
  | .binary dst op lhs rhs =>
    record "BinOp"
      [("dst", localId dst), ("op", op.name), ("lhs", operand lhs), ("rhs", operand rhs)]
  | .jump target => record "Jump" [("target", blockId target)]
  | .branch cond t e =>
    record "Branch"
      [("cond", operand cond), ("then_target", blockId t), ("else_target", blockId e)]
  | .ret value => record "Return" [("value", operand value)]

end Structural

end BlockIR
