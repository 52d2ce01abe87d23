import BlockIR.Proofs.Machine.DeadWrite
import BlockIR.Proofs.Machine.Operators
import BlockIR.Proofs.Source.Blur
import BlockIR.Sample
/-!
# Operators recast in program trees

In a program tree some operators may be written as calls of the builtin operations
that carry them out (`Program.Recast`). Writing all of them so is a change of the
tree that the code is not told apart by (`viaBuiltins`), and a tree in which some
are recast has the same calls for all of them. So the lowered programs have the
same blocks, local slots and edges, and evaluate alike.
-/

namespace BlockIR

open Success

namespace Source

/-! ## All operators recast -/

mutual

/-- **The expression with calls for all its operators.** -/
def Expr.viaBuiltins : Expr → Expr
  | .int i => .int i
  | .str s => .str s
  | .null => .null
  | .var v => .var v
  | .call target args => .call target (Expr.allViaBuiltins args)
  | .binary op lhs rhs => .call (.builtin op.builtin) [lhs.viaBuiltins, rhs.viaBuiltins]
  | .arrayLit elements => .arrayLit (Expr.allViaBuiltins elements)
  | .newArray size => .newArray size.viaBuiltins
  | .index array i => .index array.viaBuiltins i.viaBuiltins

/-- Expressions with calls for all their operators. -/
def Expr.allViaBuiltins : List Expr → List Expr
  | [] => []
  | e :: es => e.viaBuiltins :: Expr.allViaBuiltins es

end

mutual

/-- **The statement with calls for all its operators.** -/
def Stmt.viaBuiltins : Stmt → Stmt
  | .declare name init => .declare name (init.map Expr.viaBuiltins)
  | .assign v value => .assign v value.viaBuiltins
  | .assignIndex array i value => .assignIndex array.viaBuiltins i.viaBuiltins value.viaBuiltins
  | .ite cond thenBody elseBody =>
    .ite cond.viaBuiltins (Stmt.allViaBuiltins thenBody) (Stmt.allViaBuiltins elseBody)
  | .loop cond body => .loop cond.viaBuiltins (Stmt.allViaBuiltins body)
  | .ret value => .ret (value.map Expr.viaBuiltins)
  | .expr e => .expr e.viaBuiltins
  | .located location stmt => .located location stmt.viaBuiltins

/-- Statements with calls for all their operators. -/
def Stmt.allViaBuiltins : List Stmt → List Stmt
  | [] => []
  | s :: rest => s.viaBuiltins :: Stmt.allViaBuiltins rest

end

open Blur

variable {symbols : Symbols}

mutual

/-- The code of an expression is the code with calls, but for operators. -/
theorem Expr.lowers_viaBuiltins :
    ∀ e : Expr, Blur.operators.LowersExpr symbols e e.viaBuiltins
  | .int i => by
    rw [LowersExpr, Expr.viaBuiltins, Lower.expr]
    exact lowers_pure _
  | .str s => by
    rw [LowersExpr, Expr.viaBuiltins, Lower.expr]
    exact lowers_pure _
  | .null => by
    rw [LowersExpr, Expr.viaBuiltins, Lower.expr]
    exact lowers_pure _
  | .var v => by
    rw [Expr.viaBuiltins]
    exact lowers_var v
  | .call target args => by
    rw [Expr.viaBuiltins]
    exact lowers_call target (Expr.lowers_allViaBuiltins args)
  | .binary op lhs rhs => by
    have hlhs := Expr.lowers_viaBuiltins lhs
    have hrhs := Expr.lowers_viaBuiltins rhs
    -- the operands are lowered in the same order, and the slot of the result is the same
    rw [LowersExpr, Expr.viaBuiltins, Lower.expr, Lower.expr, Lower.callee]
    simp only [Lower.exprs, bind_assoc, pure_bind]
    exact hlhs.bind fun a => hrhs.bind fun b => lowers_appendTo fun _ => rfl
  | .arrayLit elements => by
    rw [Expr.viaBuiltins]
    exact lowers_arrayLit (Expr.lowers_allViaBuiltins elements)
  | .newArray size => by
    rw [Expr.viaBuiltins]
    exact lowers_newArray (Expr.lowers_viaBuiltins size)
  | .index array i => by
    rw [Expr.viaBuiltins]
    exact lowers_index (Expr.lowers_viaBuiltins array) (Expr.lowers_viaBuiltins i)

/-- Expressions come to the same code up to how operators are called. -/
theorem Expr.lowers_allViaBuiltins :
    ∀ es : List Expr, Blur.operators.LowersExprs symbols es (Expr.allViaBuiltins es)
  | [] => lowersExprs_nil
  | e :: es => lowersExprs_cons (Expr.lowers_viaBuiltins e) (Expr.lowers_allViaBuiltins es)

end

/-- So does an expression that may be absent. -/
theorem Expr.lowers_option (init : Option Expr) :
    Blur.operators.LowersOption symbols init (init.map Expr.viaBuiltins) := by
  cases init with
  | none => exact lowersOption_none
  | some e => exact lowersOption_some e.lowers_viaBuiltins

mutual

/-- The code of a statement is the code with calls, but for operators. -/
theorem Stmt.lowers_viaBuiltins :
    ∀ s : Stmt, Blur.operators.LowersStmt symbols s s.viaBuiltins
  | .declare name init => by
    rw [Stmt.viaBuiltins]
    exact lowers_declare name (Expr.lowers_option init)
  | .assign v value => by
    rw [Stmt.viaBuiltins]
    exact lowers_assign v value.lowers_viaBuiltins
  | .assignIndex array i value => by
    rw [Stmt.viaBuiltins]
    exact lowers_assignIndex array.lowers_viaBuiltins i.lowers_viaBuiltins value.lowers_viaBuiltins
  | .ite cond thenBody elseBody => by
    rw [Stmt.viaBuiltins]
    exact lowers_ite cond.lowers_viaBuiltins (Stmt.lowers_allViaBuiltins thenBody)
      (Stmt.lowers_allViaBuiltins elseBody)
  | .loop cond body => by
    rw [Stmt.viaBuiltins]
    exact lowers_loop cond.lowers_viaBuiltins (Stmt.lowers_allViaBuiltins body)
  | .ret value => by
    rw [Stmt.viaBuiltins]
    exact lowers_ret (Expr.lowers_option value)
  | .expr e => by
    rw [Stmt.viaBuiltins]
    exact lowers_exprStmt e.lowers_viaBuiltins
  | .located location stmt => by
    rw [LowersStmt, Stmt.viaBuiltins, Lower.stmt, Lower.stmt]
    have hlocate : ∀ l, Blur.operators.Lowers (Lower.onCursor (Emit.locate l))
        (Lower.onCursor (Emit.locate l)) := fun _ => Lowers.onCursor fun _ => rfl
    exact lowers_reopen.bind fun _ => (hlocate location).bind fun previous =>
      (Stmt.lowers_viaBuiltins stmt).bind fun _ => (hlocate previous).bind fun _ => lowers_pure ()

/-- Statements come to the same code up to how operators are called. -/
theorem Stmt.lowers_allViaBuiltins :
    ∀ body : List Stmt, Blur.operators.LowersBody symbols body (Stmt.allViaBuiltins body)
  | [] => lowersBody_nil
  | s :: rest => lowersBody_cons (Stmt.lowers_viaBuiltins s) (Stmt.lowers_allViaBuiltins rest)

end

/-- **Writing calls for all operators** is not told from leaving them. -/
def viaBuiltins : Retouch Blur.operators where
  function f := { f with body := Stmt.allViaBuiltins f.body }
  global g := { g with init := g.init.map Expr.viaBuiltins }
  function_name _ := rfl
  function_params _ := rfl
  global_name _ := rfl
  isSome_global_init g := Option.isSome_map
  lowers_body _ f := Stmt.lowers_allViaBuiltins f.body
  lowers_init symbols id g := by
    unfold GlobalDef.lowerInit
    cases g.init with
    | none => exact lowers_pure _
    | some init =>
      exact (Lowers.onCursor fun _ => rfl).bind fun _ => init.lowers_viaBuiltins.bind fun value =>
        (lowers_lift (symbols_global_stays symbols id g.name)).bind fun _ =>
          .emit (Blur.operators.emits_of_stays rfl)

/-! ## Some operators recast -/

mutual

/-- **An expression with some of its operators recast** as calls of their builtin
operations. -/
inductive Expr.Recast : Expr → Expr → Prop
  | int (i : Int64) : Expr.Recast (.int i) (.int i)
  | str (s : String) : Expr.Recast (.str s) (.str s)
  | null : Expr.Recast .null .null
  | var (v : Variable) : Expr.Recast (.var v) (.var v)
  | call (target : Target) {args args' : List Expr} : Expr.RecastAll args args' →
      Expr.Recast (.call target args) (.call target args')
  | keep (op : Operator) {lhs lhs' rhs rhs' : Expr} : Expr.Recast lhs lhs' →
      Expr.Recast rhs rhs' → Expr.Recast (.binary op lhs rhs) (.binary op lhs' rhs')
  | viaBuiltin (op : Operator) {lhs lhs' rhs rhs' : Expr} : Expr.Recast lhs lhs' →
      Expr.Recast rhs rhs' →
      Expr.Recast (.binary op lhs rhs) (.call (.builtin op.builtin) [lhs', rhs'])
  | arrayLit {elements elements' : List Expr} : Expr.RecastAll elements elements' →
      Expr.Recast (.arrayLit elements) (.arrayLit elements')
  | newArray {size size' : Expr} : Expr.Recast size size' →
      Expr.Recast (.newArray size) (.newArray size')
  | index {array array' i i' : Expr} : Expr.Recast array array' → Expr.Recast i i' →
      Expr.Recast (.index array i) (.index array' i')

/-- Expressions with some of their operators recast. -/
inductive Expr.RecastAll : List Expr → List Expr → Prop
  | nil : Expr.RecastAll [] []
  | cons {e e' : Expr} {es es' : List Expr} : Expr.Recast e e' → Expr.RecastAll es es' →
      Expr.RecastAll (e :: es) (e' :: es')

end

/-- An expression that may be absent, with some of its operators recast. -/
inductive Expr.RecastOption : Option Expr → Option Expr → Prop
  | none : Expr.RecastOption none none
  | some {e e' : Expr} : e.Recast e' → Expr.RecastOption (some e) (some e')

mutual

/-- **A statement with some of its operators recast** as calls. -/
inductive Stmt.Recast : Stmt → Stmt → Prop
  | declare (name : String) {init init' : Option Expr} : Expr.RecastOption init init' →
      Stmt.Recast (.declare name init) (.declare name init')
  | assign (v : Variable) {value value' : Expr} : value.Recast value' →
      Stmt.Recast (.assign v value) (.assign v value')
  | assignIndex {array array' i i' value value' : Expr} : array.Recast array' → i.Recast i' →
      value.Recast value' → Stmt.Recast (.assignIndex array i value) (.assignIndex array' i' value')
  | ite {cond cond' : Expr} {thenBody thenBody' elseBody elseBody' : List Stmt} :
      cond.Recast cond' → Stmt.RecastAll thenBody thenBody' → Stmt.RecastAll elseBody elseBody' →
      Stmt.Recast (.ite cond thenBody elseBody) (.ite cond' thenBody' elseBody')
  | loop {cond cond' : Expr} {body body' : List Stmt} : cond.Recast cond' →
      Stmt.RecastAll body body' → Stmt.Recast (.loop cond body) (.loop cond' body')
  | ret {value value' : Option Expr} : Expr.RecastOption value value' →
      Stmt.Recast (.ret value) (.ret value')
  | expr {e e' : Expr} : e.Recast e' → Stmt.Recast (.expr e) (.expr e')
  | located (location : Location) {stmt stmt' : Stmt} : Stmt.Recast stmt stmt' →
      Stmt.Recast (.located location stmt) (.located location stmt')

/-- Statements with some of their operators recast. -/
inductive Stmt.RecastAll : List Stmt → List Stmt → Prop
  | nil : Stmt.RecastAll [] []
  | cons {s s' : Stmt} {body body' : List Stmt} : Stmt.Recast s s' → Stmt.RecastAll body body' →
      Stmt.RecastAll (s :: body) (s' :: body')

end

/-- A global with some operators of its initial value recast. -/
structure GlobalDef.Recast (g g' : GlobalDef) : Prop where
  name : g'.name = g.name
  init : Expr.RecastOption g.init g'.init
  location : g'.location = g.location

/-- A function with some of its operators recast. -/
structure FunctionDef.Recast (f f' : FunctionDef) : Prop where
  name : f'.name = f.name
  params : f'.params = f.params
  body : Stmt.RecastAll f.body f'.body

/-- A module with some of its operators recast. -/
structure Module.Recast (m m' : Module) : Prop where
  imports : m'.imports = m.imports
  globals : List.Forall₂ GlobalDef.Recast m.globals m'.globals
  functions : List.Forall₂ FunctionDef.Recast m.functions m'.functions

/-- **A program tree with some of its operators recast** as calls of their builtin
operations. -/
structure Program.Recast (t t' : Program) : Prop where
  root : t'.root = t.root
  modules : List.Forall₂ (fun listed listed' => listed'.1 = listed.1 ∧ listed.2.Recast listed'.2)
    t.modules t'.modules

mutual

/-- Recast expressions have one form with operations only. -/
theorem Expr.Recast.viaBuiltins_eq {e e' : Expr} (h : e.Recast e') :
    e'.viaBuiltins = e.viaBuiltins := by
  cases h with
  | int i => rfl
  | str s => rfl
  | null => rfl
  | var v => rfl
  | call target hargs => rw [Expr.viaBuiltins, Expr.viaBuiltins, hargs.allViaBuiltins_eq]
  | keep op hlhs hrhs =>
    rw [Expr.viaBuiltins, Expr.viaBuiltins, hlhs.viaBuiltins_eq, hrhs.viaBuiltins_eq]
  | viaBuiltin op hlhs hrhs =>
    rw [Expr.viaBuiltins, Expr.viaBuiltins, Expr.allViaBuiltins, Expr.allViaBuiltins,
      Expr.allViaBuiltins, hlhs.viaBuiltins_eq, hrhs.viaBuiltins_eq]
  | arrayLit helements =>
    rw [Expr.viaBuiltins, Expr.viaBuiltins, helements.allViaBuiltins_eq]
  | newArray hsize => rw [Expr.viaBuiltins, Expr.viaBuiltins, hsize.viaBuiltins_eq]
  | index harray hi =>
    rw [Expr.viaBuiltins, Expr.viaBuiltins, harray.viaBuiltins_eq, hi.viaBuiltins_eq]

/-- So have lists of them. -/
theorem Expr.RecastAll.allViaBuiltins_eq {es es' : List Expr} (h : Expr.RecastAll es es') :
    Expr.allViaBuiltins es' = Expr.allViaBuiltins es := by
  cases h with
  | nil => rfl
  | cons he hes =>
    rw [Expr.allViaBuiltins, Expr.allViaBuiltins, he.viaBuiltins_eq, hes.allViaBuiltins_eq]

end

/-- So have those that may be absent. -/
theorem Expr.RecastOption.map_eq {init init' : Option Expr} (h : Expr.RecastOption init init') :
    init'.map Expr.viaBuiltins = init.map Expr.viaBuiltins := by
  cases h with
  | none => rfl
  | some he => exact congrArg Option.some he.viaBuiltins_eq

mutual

/-- Recast statements have one form with operations only. -/
theorem Stmt.Recast.viaBuiltins_eq {s s' : Stmt} (h : s.Recast s') :
    s'.viaBuiltins = s.viaBuiltins := by
  cases h with
  | declare name hinit => rw [Stmt.viaBuiltins, Stmt.viaBuiltins, hinit.map_eq]
  | assign v hvalue => rw [Stmt.viaBuiltins, Stmt.viaBuiltins, hvalue.viaBuiltins_eq]
  | assignIndex harray hi hvalue =>
    rw [Stmt.viaBuiltins, Stmt.viaBuiltins, harray.viaBuiltins_eq, hi.viaBuiltins_eq,
      hvalue.viaBuiltins_eq]
  | ite hcond hthen helse =>
    rw [Stmt.viaBuiltins, Stmt.viaBuiltins, hcond.viaBuiltins_eq, hthen.allViaBuiltins_eq,
      helse.allViaBuiltins_eq]
  | loop hcond hbody =>
    rw [Stmt.viaBuiltins, Stmt.viaBuiltins, hcond.viaBuiltins_eq, hbody.allViaBuiltins_eq]
  | ret hvalue => rw [Stmt.viaBuiltins, Stmt.viaBuiltins, hvalue.map_eq]
  | expr he => rw [Stmt.viaBuiltins, Stmt.viaBuiltins, he.viaBuiltins_eq]
  | located location hstmt => rw [Stmt.viaBuiltins, Stmt.viaBuiltins, hstmt.viaBuiltins_eq]

/-- So have lists of them. -/
theorem Stmt.RecastAll.allViaBuiltins_eq {body body' : List Stmt} (h : Stmt.RecastAll body body') :
    Stmt.allViaBuiltins body' = Stmt.allViaBuiltins body := by
  cases h with
  | nil => rfl
  | cons hs hrest =>
    rw [Stmt.allViaBuiltins, Stmt.allViaBuiltins, hs.viaBuiltins_eq, hrest.allViaBuiltins_eq]

end

/-- Lists that are related member by member have the same image. -/
theorem map_eq_of_forall₂ {α β : Type} {R : α → α → Prop} {g : α → β} {xs ys : List α}
    (h : List.Forall₂ R xs ys) (hg : ∀ x y, R x y → g y = g x) : ys.map g = xs.map g := by
  induction h with
  | nil => rfl
  | cons hxy _ ih => rw [List.map_cons, List.map_cons, hg _ _ hxy, ih]

/-- **Trees that differ in recast operators have the same calls for all of them.** -/
theorem Program.Recast.viaBuiltins_eq {t t' : Program} (h : t.Recast t') :
    viaBuiltins.program t' = viaBuiltins.program t := by
  have hglobal : ∀ g g' : GlobalDef, g.Recast g' →
      viaBuiltins.global g' = viaBuiltins.global g := by
    intro g g' hg
    simp only [viaBuiltins, hg.name, hg.location, hg.init.map_eq]
  have hfunction : ∀ f f' : FunctionDef, f.Recast f' →
      viaBuiltins.function f' = viaBuiltins.function f := by
    intro f f' hf
    simp only [viaBuiltins, hf.name, hf.params, hf.body.allViaBuiltins_eq]
  have hmodule : ∀ listed listed' : String × Module,
      listed'.1 = listed.1 ∧ listed.2.Recast listed'.2 →
      Program.revised (fun _ => viaBuiltins.module) listed' =
        Program.revised (fun _ => viaBuiltins.module) listed := by
    rintro ⟨id, m⟩ ⟨id', m'⟩ ⟨hid, hm⟩
    obtain rfl : id = id' := hid.symm
    have himports : m'.imports = m.imports := hm.imports
    simp only [Program.revised, Retouch.module, himports, map_eq_of_forall₂ hm.globals hglobal,
      map_eq_of_forall₂ hm.functions hfunction]
  simp only [Retouch.program, h.root, map_eq_of_forall₂ h.modules hmodule]

/-- Trees that differ in recast operators lower to programs that are not told
apart, or fail with the same error. -/
theorem Program.Recast.lower_eq {t t' : Program} (h : t.Recast t') (entry : String) :
    (t'.lower entry).map Blur.operators.program = (t.lower entry).map Blur.operators.program := by
  rw [← viaBuiltins.lower_program t' entry, h.viaBuiltins_eq, viaBuiltins.lower_program]

end Source

/-- Programs that are not told apart but for operators have the same blocks, with
the same edges, and the same local slots in every function. -/
theorem exists_function_of_recast {p p' : Program} {ref : FunctionRef} {f : Function}
    (h : Blur.operators.program p' = Blur.operators.program p) (hf : p.function? ref = some f) :
    ∃ f', p'.function? ref = some f' ∧ f'.blocks = f.blocks ∧ f'.numLocals = f.numLocals := by
  have hblurred : (p'.function? ref).map Blur.operators.function =
      some (Blur.operators.function f) := by
    rw [← Blur.function?_program, h, Blur.function?_program, hf, Option.map_some]
  obtain ⟨f', hf', hsame⟩ := Option.map_eq_some_iff.mp hblurred
  -- the blur changes the arena only
  have hblocks : (Blur.operators.function f').blocks = (Blur.operators.function f).blocks :=
    congrArg Function.blocks hsame
  have hlocals : (Blur.operators.function f').numLocals = (Blur.operators.function f).numLocals :=
    congrArg Function.numLocals hsame
  exact ⟨f', hf', hblocks, hlocals⟩

/-- **Operators are the calls that carry them out.** In a finished program any of
the operators may be replaced by calls of their builtin operations, in place: the
program still passes every check, and evaluates to the same, whatever the
arguments, the world, the limit and the operations. Replacing them one after the
other is such a replacement. In a program tree any of the operators may be
written as calls too: lowering fails as before, or gives a program with the same
blocks, edges and local slots, the same but for operators, which evaluates to the
same. -/
theorem operators_are_builtin_calls :
    (∀ (a : Assembly) (entry : FunctionRef) (p : Program), a.finish entry = .ok p → ∀ chosen,
      (a.recast chosen).finish entry = .ok (p.recast chosen) ∧
      ∀ table limit fuel args w,
        Machine.evaluate ⟨p.recast chosen, table, limit⟩ fuel args w =
          Machine.evaluate ⟨p, table, limit⟩ fuel args w) ∧
    (∀ (f : Function) (ids : List InstrId), (∀ id ∈ ids, id < f.slots.size) →
      (Function.recastEach ids).apply f = (.ok (), f.recast ids.contains)) ∧
    ∀ (t t' : Source.Program) (entry : String), t.Recast t' →
      (∀ e, t.lower entry = .error e → t'.lower entry = .error e) ∧
      ∀ p, t.lower entry = .ok p → ∃ p', t'.lower entry = .ok p' ∧
        (∀ ref f, p.function? ref = some f → ∃ f', p'.function? ref = some f' ∧
          f'.blocks = f.blocks ∧ f'.numLocals = f.numLocals) ∧
        p'.recast (fun _ _ => true) = p.recast (fun _ _ => true) ∧
        ∀ table limit fuel args w,
          Machine.evaluate ⟨p', table, limit⟩ fuel args w =
            Machine.evaluate ⟨p, table, limit⟩ fuel args w := by
  refine ⟨fun a entry p hp chosen => ⟨Assembly.finish_recast hp chosen,
    Machine.evaluate_recast chosen p⟩, fun f ids => Function.apply_recastEach,
    fun t t' entry h => ?_⟩
  have hlower := h.lower_eq entry
  constructor
  · intro e he
    rw [he] at hlower
    cases hlower' : t'.lower entry with
    | error e' =>
      rw [hlower'] at hlower
      exact congrArg Except.error (Except.error.inj hlower)
    | ok p' =>
      rw [hlower'] at hlower
      cases hlower
  · intro p hp
    rw [hp] at hlower
    cases hlower' : t'.lower entry with
    | error e' =>
      rw [hlower'] at hlower
      cases hlower
    | ok p' =>
      rw [hlower'] at hlower
      have hsame : Blur.operators.program p' = Blur.operators.program p := Except.ok.inj hlower
      refine ⟨p', rfl, fun ref f => exists_function_of_recast hsame, ?_, fun table limit => ?_⟩
      · rw [← Blur.operators_program, ← Blur.operators_program, hsame]
      · intro fuel args w
        rw [← Machine.evaluate_operators, Machine.recastSetting, hsame]
        exact Machine.evaluate_operators p table limit fuel args w

/-- A function of one expression, with two operators. -/
def affineTree : Source.Program :=
  Sample.single { functions := [⟨"main", ["n"], [Sample.ret (.binary .add (Sample.v "n")
    (.binary .mul (.int 2) (Sample.v "n")))]⟩] }

/-- The same with the inner operator recast. -/
def affineRecast : Source.Program :=
  Sample.single { functions := [⟨"main", ["n"], [Sample.ret (.binary .add (Sample.v "n")
    (Sample.builtin Builtin.Name.intMul [.int 2, Sample.v "n"]))]⟩] }

/-- The second tree is the first with some operators recast. -/
theorem recast_affine : affineTree.Recast affineRecast := by
  have hbody : Source.Expr.Recast
      (.binary .add (Sample.v "n") (.binary .mul (.int 2) (Sample.v "n")))
      (.binary .add (Sample.v "n")
        (.call (.builtin Operator.mul.builtin) [.int 2, Sample.v "n"])) :=
    .keep .add (.var _) (.viaBuiltin .mul (.int 2) (.var _))
  exact ⟨rfl, .cons ⟨rfl, rfl, .nil, .cons ⟨rfl, rfl, .cons (.ret (.some hbody)) .nil⟩ .nil⟩ .nil⟩

/-- Counting down from two prints the same with the subtraction recast, and the
tree with one of its operators recast lowers to a program that evaluates to the
same. -/
theorem operators_are_builtin_calls_recast :
    (countdownAssembly.recast fun _ _ => true).finish ⟨0, 0⟩ =
        .ok (Machine.countdownProgram.recast fun _ _ => true) ∧
      Machine.countdownProgram.recast (fun _ _ => true) ≠ Machine.countdownProgram ∧
      affineTree.Recast affineRecast ∧
      ∃ p p', affineTree.lower "main" = .ok p ∧ affineRecast.lower "main" = .ok p' ∧ p' ≠ p ∧
        ∀ table limit fuel args w,
          Machine.evaluate ⟨p', table, limit⟩ fuel args w =
            Machine.evaluate ⟨p, table, limit⟩ fuel args w := by
  have hp : countdownAssembly.finish ⟨0, 0⟩ = .ok Machine.countdownProgram := by decide +kernel
  obtain ⟨hcode, -, htrees⟩ := operators_are_builtin_calls
  refine ⟨(hcode _ _ _ hp _).1, by decide +kernel, recast_affine, ?_⟩
  have hok : (affineTree.lower "main").isOk = true := by decide +kernel
  have hne : affineRecast.lower "main" ≠ affineTree.lower "main" := by decide +kernel
  cases hlower : affineTree.lower "main" with
  | error e =>
    rw [hlower] at hok
    cases hok
  | ok p =>
    obtain ⟨p', hp', -, -, heval⟩ := (htrees _ _ "main" recast_affine).2 p hlower
    refine ⟨p, p', rfl, hp', fun heq => hne ?_, heval⟩
    rw [hlower, hp', heq]

end BlockIR
