import BlockIR.Text.Decimal
import BlockIR.Value
/-!
# Command-line arguments

The program takes a command: `list`, `run` with a sample and the arguments of
its entry function, or `dump` with a sample. Words that begin with a hyphen are
flags, alone or in a cluster of one-letter flags, up to a word `--` behind
which no word is a flag. Behind the sample of `run` a word is an argument of
the program, unless it is the first and asks for help.
-/

namespace BlockIR

namespace CommandLine

/-- A command. -/
inductive Command where
  | list
  | run (sample : String) (args : List String)
  | dump (sample : String) (locations : Bool)
  deriving DecidableEq

/-- **What a list of words asks for.** -/
inductive Invocation where
  | command (c : Command)
  | version
  | help
  | misuse
  deriving DecidableEq

/-- The form of a word. -/
inductive Word where
  /-- The word `--`. -/
  | escape
  /-- A long flag, and whether a value is attached to it. -/
  | long (name : String) (hasValue : Bool)
  /-- A cluster of one-letter flags. -/
  | cluster (flags : List Char)
  | plain

/-- The form of a word. A hyphen alone is a plain word. -/
def Word.of (word : String) : Word :=
  match word.toList with
  | ['-', '-'] => .escape
  | '-' :: '-' :: rest =>
    .long (String.ofList (rest.takeWhile (· != '='))) (rest.contains '=')
  | '-' :: flag :: flags => .cluster (flag :: flags)
  | _ => .plain

/-- A word that can only be a flag, where help is the only flag. -/
def helpOnly : Word → Invocation
  | .long "help" false => .help
  | .cluster ('h' :: _) => .help
  | _ => .misuse

/-- The words behind `list`. -/
def parseList : List String → Invocation
  | [] => .command .list
  | ["--"] => .command .list
  | word :: _ => helpOnly (Word.of word)

/-- The flags of a cluster behind `dump`: whether locations are asked for by
then, or what the cluster comes to otherwise. -/
def dumpFlags : Bool → List Char → Except Invocation Bool
  | locations, [] => .ok locations
  | false, 's' :: flags => dumpFlags true flags
  | _, 'h' :: _ => .error .help
  | _, _ => .error .misuse

/-- The sample of `dump`, once the flags are known. -/
def dumpOf (locations : Bool) : List String → Invocation
  | [sample] => .command (.dump sample locations)
  | _ => .misuse

/-- The words behind `dump`, given whether locations are asked for and the
sample if it was there. -/
def parseDump : Bool → Option String → List String → Invocation
  | locations, sample, [] => dumpOf locations sample.toList
  | locations, sample, word :: words =>
    match Word.of word with
    | .escape => dumpOf locations (sample.toList ++ words)
    | .long "source-locations" false =>
      if locations then .misuse else parseDump true sample words
    | .cluster flags =>
      match dumpFlags locations flags with
      | .ok locations => parseDump locations sample words
      | .error i => i
    | .plain =>
      match sample with
      | none => parseDump locations (some word) words
      | some _ => .misuse
    | flag => helpOnly flag

/-- The words behind the sample of `run`. -/
def parseArguments (sample : String) : List String → Invocation
  | [] => .command (.run sample [])
  | word :: words =>
    match Word.of word with
    | .escape => .command (.run sample words)
    | .long "help" hasValue => if hasValue then .misuse else .help
    | .cluster flags =>
      if flags.all (· == 'h') then .help else .command (.run sample (word :: words))
    | _ => .command (.run sample (word :: words))

/-- The words behind `run`. -/
def parseRun : List String → Invocation
  | [] => .misuse
  | word :: words =>
    match Word.of word with
    | .escape =>
      match words with
      | [] => .misuse
      | sample :: args => .command (.run sample args)
    | .plain => parseArguments word words
    | flag => helpOnly flag

/-- The words behind `help`: at most one command. -/
def parseHelp : List String → Invocation
  | [] => .help
  | [word] => if word ∈ ["list", "run", "dump", "help"] then .help else .misuse
  | _ => .misuse

/-- **What the words of a command line ask for.** -/
def parse : List String → Invocation
  | [] => .misuse
  | "list" :: words => parseList words
  | "run" :: words => parseRun words
  | "dump" :: words => parseDump false none words
  | "help" :: words => parseHelp words
  | word :: _ =>
    match Word.of word with
    | .long "version" false => .version
    | .cluster ('V' :: _) => .version
    | flag => helpOnly flag

/-- **The value of a program argument**: an integer if it reads as one, and the
text itself otherwise. -/
def argument (word : String) : Value :=
  match Decimal.int64? word with
  | some i => .int i
  | none => .str word

end CommandLine

end BlockIR
