/-!
# Source locations

The source range an instruction comes from. Two markers stand for code without
a recorded range and for code that no source text corresponds to; both sort
before every range.
-/

namespace BlockIR

/-- A range of lines and columns in a file. -/
structure Span where
  file : String
  startLine : Nat
  startColumn : Nat
  endLine : Nat
  endColumn : Nat
  deriving DecidableEq

/-- **Where an instruction comes from.** `unknown` marks code with no recorded
range and `builtin` code that was synthesized. -/
inductive Location where
  | unknown
  | builtin
  | span (s : Span)
  deriving DecidableEq, Inhabited

namespace Location

/-- A location is real when it is a range of some file. -/
def isReal : Location → Bool
  | span _ => true
  | _ => false

/-- The line a range starts at. -/
def startLine? : Location → Option Nat
  | span s => some s.startLine
  | _ => none

/-- The location in messages: `file[line:column-line:column]`. -/
def text : Location → String
  | unknown => "UNKNOWN"
  | builtin => "BUILTIN"
  | span s =>
    s.file ++ "[" ++ Nat.repr s.startLine ++ ":" ++ Nat.repr s.startColumn ++ "-" ++
      Nat.repr s.endLine ++ ":" ++ Nat.repr s.endColumn ++ "]"

/-- The location beside an instruction in a listing: `!file,line:column,line:column`. -/
def annotation : Location → String
  | span s =>
    "!" ++ s.file ++ "," ++ Nat.repr s.startLine ++ ":" ++ Nat.repr s.startColumn ++ "," ++
      Nat.repr s.endLine ++ ":" ++ Nat.repr s.endColumn
  | l => "!" ++ l.text

/-- The rank of the three forms of location. -/
def rank : Location → Nat
  | unknown => 0
  | builtin => 1
  | span _ => 2

/-- Ranges are ordered by file, then start, then end. -/
def compareSpans (s t : Span) : Ordering :=
  (compare s.file t.file).then <|
    (compare s.startLine t.startLine).then <|
      (compare s.startColumn t.startColumn).then <|
        (compare s.endLine t.endLine).then (compare s.endColumn t.endColumn)

/-- Markers come first, `unknown` before `builtin`; ranges follow in their
order. -/
def order : Location → Location → Ordering
  | span s, span t => compareSpans s t
  | l, m => compare l.rank m.rank

/-- The locations in ascending order, equal ones keeping their places. -/
def sort (ls : List Location) : List Location :=
  ls.mergeSort fun l m => order l m != .gt

end Location

end BlockIR
