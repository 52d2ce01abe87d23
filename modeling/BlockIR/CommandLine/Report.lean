import BlockIR.CommandLine.Arguments
import BlockIR.Machine.Evaluate
import BlockIR.Program.Listing
import BlockIR.Sample
/-!
# What the command line does

A command prints to the console and may run into a problem, which is reported
apart from the output. The exit code is zero for success, one for a problem and
two for words that ask for nothing.
-/

namespace BlockIR

namespace CommandLine

/-- The name of the program. -/
def programName : String := "teal-ir"

/-- The line that tells the version. -/
def versionLine : String := programName ++ " 0.1.0\n"

/-- How the program is used. -/
def usage : String :=
  "Usage: " ++ programName ++ " <COMMAND>\n\n" ++
  "Commands:\n" ++
  "  list                 List the available demo programs\n" ++
  "  run <DEMO> [ARGS]... Evaluate a demo with the given program arguments\n" ++
  "  dump [-s] <DEMO>     Print the IR of a demo\n"

/-- **Why a command fails.** -/
inductive Problem where
  | unknownSample (name : String)
  | argumentCount (sample : String) (params : List String) (given : Nat)
  | lowering (sample : String) (e : LoweringError)
  | runtime (e : RuntimeError)
  deriving DecidableEq

/-- The problem in words. -/
def Problem.message : Problem → String
  | unknownSample name => "Unknown demo '" ++ name ++ "'; try `" ++ programName ++ " list`"
  | argumentCount sample params given =>
    "Demo '" ++ sample ++ "' takes " ++ Nat.repr params.length ++ " argument(s) (" ++
      ", ".intercalate params ++ "), got " ++ Nat.repr given
  | lowering sample e => "Failed to lower demo '" ++ sample ++ "': " ++ e.message
  | runtime e => e.message

/-- **What a command line came to**: the exit code, the console it leaves behind
and the problem it ran into. -/
structure Report where
  code : Nat
  console : Console
  problem : Option Problem := none

namespace Report

/-- A success that prints some text. -/
def success (console : Console) (text : String) : Report where
  code := 0
  console := (console.write (Utf8.encode text)).2

/-- A failure. -/
def failure (console : Console) (problem : Problem) : Report where
  code := 1
  console := console
  problem := some problem

/-- The run stopped because the input ended. -/
def stoppedAtInput (r : Report) : Bool :=
  match r.problem with
  | some (.runtime (.io _ .endOfInput)) => true
  | _ => false

end Report

/-- A name in a column of 18 characters. -/
def padded (name : String) : String :=
  name ++ String.ofList (List.replicate (18 - name.length) ' ')

/-- The catalogue, one sample a line. -/
def catalogue : String :=
  String.join <| Sample.all.map fun s =>
    padded s.name ++ " (" ++ ", ".intercalate s.params ++ ") " ++ s.description ++ "\n"

/-- The sample with a name, lowered. -/
def lowered (name : String) : Except Problem (Sample × Program) :=
  match Sample.find? name with
  | none => .error (.unknownSample name)
  | some s =>
    match s.program.lower with
    | .error e => .error (.lowering s.name e)
    | .ok p => .ok (s, p)

/-- Print the listing of a sample. -/
def dump (console : Console) (name : String) (locations : Bool) : Report :=
  match lowered name with
  | .error problem => .failure console problem
  | .ok (_, p) => .success console (Listing.program locations p)

/-- Evaluate a sample and print what it returns. -/
def runSample (limits : Limits) (fuel : Nat) (w : World) (name : String) (args : List String) :
    Option Report :=
  match Sample.find? name with
  | none => some (.failure w.console (.unknownSample name))
  | some s =>
    if args.length ≠ s.params.length then
      some (.failure w.console (.argumentCount s.name s.params args.length))
    else
      match lowered name with
      | .error problem => some (.failure w.console problem)
      | .ok (_, p) =>
        (Machine.evaluateStandard p limits fuel (args.map argument) w).map fun (result, w) =>
          match result with
          | .error e => .failure w.console (.runtime e)
          | .ok outcome => .success w.console (w.heap.text outcome.value ++ "\n")

/-- Carry a command out. -/
def execute (limits : Limits) (fuel : Nat) (w : World) : Command → Option Report
  | .list => some (.success w.console catalogue)
  | .dump sample locations => some (dump w.console sample locations)
  | .run sample args => runSample limits fuel w sample args

/-- **Do what the words of a command line ask for.** There is no report if an
evaluation needs more steps than are given. -/
def run (limits : Limits) (fuel : Nat) (w : World) (words : List String) : Option Report :=
  match parse words with
  | .command c => execute limits fuel w c
  | .version => some (.success w.console versionLine)
  | .help => some (.success w.console usage)
  | .misuse => some { code := 2, console := w.console }

end CommandLine

end BlockIR
