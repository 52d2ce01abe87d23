import BlockIR.World
/-!
# Operations on values

What the array forms of the language do once their operands are values: the
kinds are checked from left to right, and the bounds last. Nothing here knows
where the operands came from.
-/

namespace BlockIR

namespace Operation

/-- The integer a value must be. -/
def int (role : OperandRole) : Value → Effect Int64
  | .int i => pure i
  | v => throw (.operandKind role .int v.kind)

/-- The array a value must be. -/
def array (role : OperandRole) : Value → Effect Address
  | .array a => pure a
  | v => throw (.operandKind role .array v.kind)

/-- **A new array of nulls** of a given size. -/
def newArray (size : Value) : Effect Value := do
  let n ← int .arraySize size
  if n < 0 then
    throw (.negativeSize n)
  return .array (← Effect.allocateNulls n.toInt.toNat)

/-- **An element of an array.** -/
def load (a i : Value) : Effect Value := do
  let address ← array .arrayLoad a
  let index ← int .arrayIndex i
  Effect.load address index

/-- **The store of an element.** -/
def store (a i v : Value) : Effect Unit := do
  let address ← array .arrayStore a
  let index ← int .arrayIndex i
  Effect.store address index v

end Operation

end BlockIR
