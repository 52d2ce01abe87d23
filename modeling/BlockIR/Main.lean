import BlockIR.CommandLine.Report
import BlockIR.Source.Run
/-!
# The program

The input is read as far as the program asks for it. Evaluation does not depend
on anything but the world it is given, so a run that stops at the end of the
input read so far is repeated with more, and only what is new of its output is
printed.
-/

namespace BlockIR

namespace CommandLine

/-- Read bytes up to the end of a line or of the input. -/
partial def readLines (stdin : IO.FS.Stream) (read : ByteArray) : IO ByteArray := do
  let chunk ← stdin.read 4096
  let bytes := read ++ chunk
  if chunk.isEmpty || bytes.data.back? == some Console.newline then
    return bytes
  else
    readLines stdin bytes

/-- Print the problem of a report, and how the program is used if it was not
used so. -/
def complain (r : Report) : IO Unit := do
  match r.problem with
  | some problem => IO.eprintln problem.message
  | none => if r.code == 2 then IO.eprint usage

/-- Run on the input read so far, and again with more as long as it is not
enough. The second argument counts the bytes printed already. -/
partial def interact (limits : Limits) (start : Nat) (words : List String)
    (input : List UInt8) (shown : Nat) : IO UInt32 := do
  let world : World := ⟨{}, { input := input }, Clock.steady start⟩
  match run limits Machine.ampleFuel world words with
  | none => return 1
  | some report =>
    let stdout ← IO.getStdout
    stdout.write ⟨report.console.output.extract shown report.console.output.size⟩
    stdout.flush
    let more ← if report.stoppedAtInput then readLines (← IO.getStdin) .empty else pure .empty
    if more.isEmpty then
      complain report
      return report.code.toUInt32
    else
      interact limits start words (input ++ more.data.toList) report.console.output.size

end CommandLine

end BlockIR

/-- The entry of the program. -/
def main (words : List String) : IO UInt32 := do
  let limits := BlockIR.Limits.ofEnvironment (← IO.getEnv BlockIR.Limits.depthVariable)
  let start ← IO.monoNanosNow
  BlockIR.CommandLine.interact limits start words [] 0
