import BlockIR.Instruction.Text
/-!
# Structure errors

What can be wrong with an edit of a function or of a program under assembly,
and with the structure of a finished one.
-/

namespace BlockIR

/-- What is wrong with one block. -/
inductive BlockFlaw where
  /-- An instruction was emitted behind the block's terminator. -/
  | closed (instr : Instruction)
  /-- The block owns an instruction that it does not list. -/
  | unlisted (instr : InstrId)
  | empty
  /-- The block lists an instruction that it does not own. -/
  | foreign (instr : InstrId) (owner : Option BlockId)
  | unterminated
  | earlyTerminator (instr : InstrId)
  | localOutOfRange (slot : LocalId) (count : Nat)
  | missingEdge (target : BlockId)
  | untakenEdge (succ : BlockId)
  | missingBackEdge (succ : BlockId)
  | strayBackEdge (pred : BlockId)
  deriving DecidableEq

/-- The flaw in words, as a predicate of its block. -/
def BlockFlaw.message : BlockFlaw → String
  | closed instr => "is sealed; cannot emit " ++ Structural.instruction instr
  | unlisted instr => "does not list its instruction " ++ InstrId.text instr
  | empty => "is empty"
  | foreign instr owner =>
    "lists instruction " ++ InstrId.text instr ++ " owned by " ++
      Structural.optional (owner.map Structural.blockId)
  | unterminated => "does not end with a terminator"
  | earlyTerminator instr => "has terminator " ++ InstrId.text instr ++ " before its end"
  | localOutOfRange slot count =>
    "uses " ++ LocalId.text slot ++ " but the function has " ++ Nat.repr count ++ " locals"
  | missingEdge target => "jumps to " ++ BlockId.text target ++ " without an edge"
  | untakenEdge succ => "has an edge to " ++ BlockId.text succ ++ " its terminator never takes"
  | missingBackEdge succ => "edge to " ++ BlockId.text succ ++ " lacks its back-edge"
  | strayBackEdge pred => "back-edge from " ++ BlockId.text pred ++ " has no edge"

/-- **Why an edit, or a check, of a function or a program fails.** -/
inductive StructureError where
  | alreadyOwned (instr : InstrId) (block : BlockId)
  | detached (instr : InstrId)
  | indexOutOfRange (block : BlockId) (index length : Nat)
  | unknownBlock (block : BlockId)
  | unknownInstr (instr : InstrId)
  | unknownModule (module : ModuleIndex)
  | malformed (function : String) (block : BlockId) (flaw : BlockFlaw)
  | duplicateFunction (module name : String)
  | missingEntry (entry : FunctionRef)
  deriving DecidableEq

/-- The error in words. -/
def StructureError.message : StructureError → String
  | alreadyOwned instr block =>
    "instruction " ++ InstrId.text instr ++ " is already owned by block " ++ BlockId.text block ++
      "; detach it first"
  | detached instr => "instruction " ++ InstrId.text instr ++ " is not attached to any block"
  | indexOutOfRange block index length =>
    "index " ++ Nat.repr index ++ " out of range for block " ++ BlockId.text block ++ " with " ++
      Nat.repr length ++ " instructions"
  | unknownBlock block => "unknown block " ++ BlockId.text block
  | unknownInstr instr => "unknown instruction " ++ InstrId.text instr
  | unknownModule module => "unknown module #" ++ Nat.repr module
  | malformed function block flaw =>
    "in function '" ++ function ++ "': block " ++ BlockId.text block ++ " " ++ flaw.message
  | duplicateFunction module name =>
    "function '" ++ name ++ "' is declared twice in module '" ++ module ++ "'"
  | missingEntry entry =>
    "entry function " ++ Nat.repr entry.module ++ "." ++ Nat.repr entry.index ++ " does not exist"

end BlockIR
