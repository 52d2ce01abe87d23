import BlockIR.RuntimeError
/-!
# The heap

Arrays live in a heap and are known by their address, so every holder of an
address shares one array: a store through one is seen through all. An array
keeps its length, and arrays are never freed.
-/

namespace BlockIR

/-- **The arrays of a run**, by address. -/
structure Heap where
  arrays : Array (Array Value) := #[]
  deriving DecidableEq

namespace Heap

/-- Allocate an array that holds some values. -/
def allocate (elements : Array Value) : Heap → Address × Heap
  | ⟨arrays⟩ => (arrays.size, ⟨arrays.push elements⟩)

/-- Allocate an array of nulls. -/
def allocateNulls (length : Nat) (h : Heap) : Address × Heap :=
  h.allocate (Array.replicate length .null)

/-- The elements of an array. -/
def elements (h : Heap) (a : Address) : Array Value :=
  h.arrays.getD a #[]

/-- The length of an array. -/
def length (h : Heap) (a : Address) : Nat :=
  (h.elements a).size

/-- The position an integer denotes in an array of some length. -/
def position? (length : Nat) (index : Int64) : Option Nat :=
  if 0 ≤ index.toInt ∧ index.toInt < length then some index.toInt.toNat else none

/-- Load an element. -/
def load (h : Heap) (a : Address) (index : Int64) : Except RuntimeError Value :=
  let elements := h.elements a
  match (position? elements.size index).bind fun i => elements[i]? with
  | some v => .ok v
  | none => .error (.indexOutOfBounds index elements.size)

/-- Change the elements of one array in place. -/
def modify (g : Array Value → Array Value) (a : Address) : Heap → Heap
  | ⟨arrays⟩ => ⟨arrays.modify a g⟩

/-- Store an element. The heap is unchanged if the index is out of bounds. -/
def store (a : Address) (index : Int64) (v : Value) (h : Heap) :
    Except RuntimeError Unit × Heap :=
  let length := h.length a
  match position? length index with
  | some i => (.ok (), h.modify (·.setIfInBounds i v) a)
  | none => (.error (.indexOutOfBounds index length), h)

end Heap

end BlockIR
