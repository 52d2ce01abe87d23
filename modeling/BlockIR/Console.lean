import BlockIR.Text.Utf8
/-!
# The console

A running program reads lines from its console and prints lines to it. The
console is a value: the bytes not read yet, the bytes printed so far, and how
many more bytes its output takes, if there is a limit. Both streams may fail: the
input after its last byte, where it would end otherwise, and the output once no
room is left. Every operation returns the console it leaves behind, also when it
fails: a line that is not text is consumed, and so is one that the input breaks
off in, and a line that does not fit is printed as far as it fits.
-/

namespace BlockIR

/-- What can go wrong with input and output. -/
inductive IoFault where
  | invalidText
  | outputFull
  | endOfInput
  | clockBeforeEpoch
  /-- A failure that an operation reports in its own words. -/
  | reported (text : String)
  deriving DecidableEq

/-- The fault in words. -/
def IoFault.message : IoFault → String
  | invalidText => "stream did not contain valid UTF-8"
  | outputFull => "output full"
  | endOfInput => "end of input"
  | clockBeforeEpoch => "second time provided was later than self"
  | reported text => text

/-- **A console**: the input left, the output so far, and the room left for
more output, unlimited if absent. -/
structure Console where
  input : List UInt8 := []
  output : Array UInt8 := #[]
  room : Option Nat := none
  /-- What reading fails with after the last byte, unless the input ends there. -/
  inputFault : Option IoFault := none
  /-- What writing fails with once no room is left. -/
  outputFault : IoFault := .outputFull
  deriving DecidableEq

namespace Console

/-- The byte that ends a line. -/
def newline : UInt8 := 10

/-- Cut the first line off some bytes: the bytes through the first newline, or
all of them if there is none, and the rest. -/
def cutLine (bytes : List UInt8) : List UInt8 × List UInt8 :=
  let (line, rest) := bytes.span (· != newline)
  (line ++ rest.take 1, rest.drop 1)

/-- Drop a newline at the end of a line, and one carriage return before it. -/
def dropLineEnd (line : List Char) : List Char :=
  match line.reverse with
  | '\n' :: '\r' :: rest => rest.reverse
  | '\n' :: rest => rest.reverse
  | _ => line

/-- The line that some bytes are read as, without its end. No bytes are no line,
and a fault of the input shows where a line has no end. -/
def lineOf (fault : Option IoFault) (bytes : List UInt8) : Except IoFault (Option String) :=
  match if newline ∈ bytes then none else fault with
  | some fault => .error fault
  | none =>
    if bytes.isEmpty then .ok none
    else
      match Utf8.decode? bytes with
      | none => .error .invalidText
      | some text => .ok (some (String.ofList (dropLineEnd text.toList)))

/-- **Read one line**, without its end. There is none once the input is used
up. -/
def readLine (c : Console) : Except IoFault (Option String) × Console :=
  let (line, rest) := cutLine c.input
  (lineOf c.inputFault line, { c with input := rest })

/-- Write bytes, as far as there is room for them. -/
def write (bytes : List UInt8) : Console → Except IoFault Unit × Console
  | ⟨input, output, none, inputFault, outputFault⟩ =>
    (.ok (), ⟨input, output ++ bytes, none, inputFault, outputFault⟩)
  | ⟨input, output, some room, inputFault, outputFault⟩ =>
    if bytes.length ≤ room then
      (.ok (), ⟨input, output ++ bytes, some (room - bytes.length), inputFault, outputFault⟩)
    else
      (.error outputFault, ⟨input, output ++ bytes.take room, some 0, inputFault, outputFault⟩)

/-- **Print one line.** -/
def printLine (text : String) (c : Console) : Except IoFault Unit × Console :=
  c.write (Utf8.encode (text ++ "\n"))

/-- Everything printed so far, as text. -/
def printed (c : Console) : String :=
  Utf8.decodeLossy c.output.toList

end Console

end BlockIR
