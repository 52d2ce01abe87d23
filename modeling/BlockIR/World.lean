import BlockIR.Heap.Text
import BlockIR.Transform
/-!
# The world of a run

What builtin operations act on: the heap, the console and a clock. The clock is
a source of readings, of which each is taken once.
-/

namespace BlockIR

/-- A clock: the readings it gives, and how many were taken. A reading counts
nanoseconds from the epoch on; it is negative if the clock is set before that. -/
structure Clock where
  reading : Nat → Int
  taken : Nat := 0

namespace Clock

/-- The clock that gains a nanosecond with every reading. -/
def steady (start : Nat) : Clock where
  reading n := start + n

/-- Take a reading. -/
def read (c : Clock) : Int × Clock :=
  (c.reading c.taken, { c with taken := c.taken + 1 })

end Clock

/-- **What a run acts on.** -/
structure World where
  heap : Heap
  console : Console
  clock : Clock

/-- An action on the world that may fail. -/
abbrev Effect := Transform World RuntimeError

namespace Effect

/-- Allocate an array of nulls. -/
def allocateNulls (length : Nat) : StateM World Address :=
  fun ⟨heap, console, clock⟩ =>
    match heap.allocateNulls length with
    | (a, heap') => (a, ⟨heap', console, clock⟩)

/-- Load an element of an array. -/
def load (a : Address) (index : Int64) : Effect Value :=
  Transform.query fun w => w.heap.load a index

/-- Store an element of an array. -/
def store (a : Address) (index : Int64) (v : Value) : Effect Unit :=
  ExceptT.mk fun (⟨heap, console, clock⟩ : World) =>
    match heap.store a index v with
    | (result, heap') => (result, ⟨heap', console, clock⟩)

/-- Print a line on behalf of an operation. -/
def printLine (op text : String) : Effect Unit :=
  ExceptT.mk fun (⟨heap, console, clock⟩ : World) =>
    match console.printLine text with
    | (result, console') => (result.mapError (.io op), ⟨heap, console', clock⟩)

/-- Read a line on behalf of an operation. The end of the input is a failure. -/
def readLine (op : String) : Effect String :=
  ExceptT.mk fun (⟨heap, console, clock⟩ : World) =>
    match console.readLine with
    | (.ok (some line), console') => (.ok line, ⟨heap, console', clock⟩)
    | (.ok none, console') => (.error (.io op .endOfInput), ⟨heap, console', clock⟩)
    | (.error fault, console') => (.error (.io op fault), ⟨heap, console', clock⟩)

/-- Take a reading of the clock. -/
def readClock : StateM World Int :=
  fun ⟨heap, console, clock⟩ =>
    match clock.read with
    | (n, clock') => (n, ⟨heap, console, clock'⟩)

end Effect

end BlockIR
