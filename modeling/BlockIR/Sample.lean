import BlockIR.Source.Lowering
/-!
# Sample programs

A catalogue of small programs, each the tree a front end would hand over.
-/

namespace BlockIR

/-- **A sample program**, with the parameters of its entry function. -/
structure Sample where
  name : String
  description : String
  params : List String
  program : Source.Program

namespace Sample

open Source

/-! ## Ways to write trees down -/

/-- A local variable. -/
def v (name : String) : Expr := .var (.named name)

/-- A global variable. -/
def g (module name : String) : Expr := .var (.global module name)

/-- A call of a function. -/
def call (module name : String) (args : List Expr) : Expr := .call (.function module name) args

/-- A call of a builtin operation. -/
def builtin (name : String) (args : List Expr) : Expr := .call (.builtin name) args

/-- A declaration with an initial value. -/
def var (name : String) (init : Expr) : Stmt := .declare name (some init)

/-- An assignment to a local variable. -/
def set (name : String) (value : Expr) : Stmt := .assign (.named name) value

/-- A return of a value. -/
def ret (value : Expr) : Stmt := .ret (some value)

/-- A print of a value. -/
def print (value : Expr) : Stmt := .expr (builtin Builtin.Name.print [value])

/-- The program whose only module is the root. -/
def single (m : Source.Module) : Source.Program where
  modules := [("main", m)]
  root := "main"

/-- A statement on one line of a file. -/
def atLine (file : String) (line : Nat) (s : Stmt) : Stmt :=
  .located (.span ⟨file, line, 5, line, 40⟩) s

/-! ## The programs -/

/-- Add the numbers up to `n` by recursion. -/
def sumRec : Source.Program :=
  let line := atLine "sum_rec.teal"
  single {
    functions := [
      { name := "sum"
        params := ["n"]
        body := [
          line 2 (.ite (.binary .leq (v "n") (.int 0)) [line 3 (ret (.int 0))] []),
          line 5 (ret (.binary .add (v "n")
            (call "main" "sum" [.binary .sub (v "n") (.int 1)])))] },
      { name := "main"
        params := ["n"]
        body := [line 9 (ret (call "main" "sum" [v "n"]))] }] }

/-- Add the numbers up to `n` in a loop. -/
def sumLoop : Source.Program :=
  single {
    functions := [
      { name := "main"
        params := ["n"]
        body := [
          var "acc" (.int 0),
          var "i" (.int 1),
          .loop (.binary .leq (v "i") (v "n")) [
            set "acc" (.binary .add (v "acc") (v "i")),
            set "i" (.binary .add (v "i") (.int 1))],
          ret (v "acc")] }] }

/-- Multiply the numbers up to `n` by recursion. -/
def fact : Source.Program :=
  single {
    functions := [
      { name := "main"
        params := ["n"]
        body := [
          .ite (.binary .eq (v "n") (.int 0)) [ret (.int 1)] [],
          ret (.binary .mul (v "n") (call "main" "main" [.binary .sub (v "n") (.int 1)]))] }] }

/-- Fill an array and add its elements up. -/
def array : Source.Program :=
  let length := builtin Builtin.Name.arrayLength [v "a"]
  single {
    functions := [
      { name := "main"
        params := ["n"]
        body := [
          var "a" (.newArray (v "n")),
          var "i" (.int 0),
          .loop (.binary .lt (v "i") (v "n")) [
            .assignIndex (v "a") (v "i") (v "i"),
            set "i" (.binary .add (v "i") (.int 1))],
          print length,
          var "sum" (.int 0),
          set "i" (.int 0),
          .loop (.binary .lt (v "i") length) [
            set "sum" (.binary .add (v "sum") (.index (v "a") (v "i"))),
            set "i" (.binary .add (v "i") (.int 1))],
          ret (v "sum")] }] }

/-- Write to one array through two names. -/
def aliasing : Source.Program :=
  single {
    globals := [{ name := "shared" }]
    functions := [
      { name := "fill"
        params := ["xs"]
        body := [
          .assignIndex (v "xs") (.int 0) (.int 4),
          .assignIndex (g "main" "shared") (.int 1) (.int 5),
          ret (.int 0)] },
      { name := "main"
        params := []
        body := [
          var "a" (.newArray (.int 2)),
          .assign (.global "main" "shared") (v "a"),
          .expr (call "main" "fill" [v "a"]),
          ret (.binary .add (.index (v "a") (.int 0)) (.index (v "a") (.int 1)))] }] }

/-- Store to and load from an array in a callee. -/
def index : Source.Program :=
  single {
    functions := [
      { name := "poke"
        params := ["xs", "i"]
        body := [
          .assignIndex (v "xs") (v "i") (.int 7),
          ret (.index (v "xs") (v "i"))] },
      { name := "main"
        params := ["i"]
        body := [
          var "a" (.newArray (.int 3)),
          var "v" (call "main" "poke" [v "a", v "i"]),
          print (v "a"),
          ret (v "v")] }] }

/-- One side of the diamond: count a call in the base module and pass on. -/
def side (name : String) : Source.Module where
  imports := ["base"]
  functions := [
    { name := "pass"
      params := ["x"]
      body := [
        .assign (.global "base" "calls") (.binary .add (g "base" "calls") (.int 1)),
        print (.str name),
        ret (call "base" "ident" [v "x"])] }]

/-- Import one module along two paths. -/
def diamond : Source.Program where
  root := "main"
  modules := [
    ("main", {
      imports := ["left", "right"]
      functions := [
        { name := "main"
          params := ["n"]
          body := [
            ret (.binary .add (call "left" "pass" [v "n"]) (call "right" "pass" [v "n"]))] }] }),
    ("left", side "left"),
    ("right", side "right"),
    ("base", {
      globals := [
        { name := "calls", init := some (.int 0) },
        { name := "banner",
          init := some (builtin Builtin.Name.print [.str "base initialized"]) }]
      functions := [{ name := "ident", params := ["x"], body := [ret (v "x")] }] })]

/-- Initialize globals from earlier ones. -/
def globalInit : Source.Program :=
  single {
    globals := [
      { name := "a", init := some (.int 1) },
      { name := "b", init := some (.binary .add (g "main" "a") (.int 2)) },
      { name := "c", init := some (.binary .mul (g "main" "b") (.int 2)) }]
    functions := [{ name := "main", params := [], body := [ret (g "main" "c")] }] }

/-- Read a global before it is assigned. -/
def unassignedGlobal : Source.Program :=
  single {
    globals := [{ name := "g" }]
    functions := [
      { name := "main"
        params := []
        body := [
          var "before" (g "main" "g"),
          .assign (.global "main" "g") (.int 5),
          ret (v "before")] }] }

/-- Join texts. -/
def stringConcat : Source.Program :=
  single {
    functions := [
      { name := "main"
        params := []
        body := [
          var "s" (.binary .concat (.binary .concat (.str "Hello") (.str " ")) (.str "World")),
          print (v "s"),
          ret (v "s")] }] }

/-- Add an integer to a text. -/
def invalidPlus : Source.Program :=
  single {
    functions := [
      { name := "main", params := [], body := [ret (.binary .add (.int 1) (.str "one"))] }] }

/-- Compare two values. -/
def eq : Source.Program :=
  single {
    functions := [
      { name := "main", params := ["a", "b"], body := [ret (.binary .eq (v "a") (v "b"))] }] }

/-- Read a line and double it or print it. -/
def readEcho : Source.Program :=
  single {
    functions := [
      { name := "main"
        params := []
        body := [
          var "line" (builtin Builtin.Name.read []),
          .ite (builtin Builtin.Name.canConvertToInt [v "line"])
            [ret (.binary .mul (builtin Builtin.Name.stringToInt [v "line"]) (.int 2))]
            [print (v "line")],
          ret (v "line")] }] }

/-! ## The catalogue -/

/-- **Every sample**, in order. -/
def all : List Sample := [
  ⟨"sum_rec", "recursive sum of 1..n", ["n"], sumRec⟩,
  ⟨"sum_loop", "sum of 1..n with a while loop", ["n"], sumLoop⟩,
  ⟨"fact", "recursive factorial", ["n"], fact⟩,
  ⟨"array", "fill an array with 0..n, print its length and return its sum", ["n"], array⟩,
  ⟨"alias", "a callee writes to an array through a parameter and a global", [], aliasing⟩,
  ⟨"index", "store to and load from slot i of a three-element array in a callee", ["i"], index⟩,
  ⟨"diamond", "two modules importing the same base module", ["n"], diamond⟩,
  ⟨"global_init", "globals initialized from earlier globals", [], globalInit⟩,
  ⟨"unassigned_global", "read a global before anything assigns it", [], unassignedGlobal⟩,
  ⟨"string_concat", "concatenate and print a greeting", [], stringConcat⟩,
  ⟨"invalid_plus", "add an int to a string, which fails at runtime", [], invalidPlus⟩,
  ⟨"eq", "compare two values with ==", ["a", "b"], eq⟩,
  ⟨"read_echo", "read a line; double it if numeric, else print it back", [], readEcho⟩]

/-- The sample with a name. -/
def find? (name : String) : Option Sample :=
  all.find? fun s => s.name == name

end Sample

end BlockIR
