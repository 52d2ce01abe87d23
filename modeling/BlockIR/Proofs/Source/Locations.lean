import BlockIR.Proofs.Source.Blur
/-!
# Program trees without locations

Erasing the locations of a program tree leaves its statements and the initial
values of its globals (`Program.erase`). Locations direct nothing: the erased tree
lowers to the same program but for the locations of instructions, or fails with
the same error (`Program.lower_erase`). What a located statement adds to lowering
is a second look at whether the current block is closed, and that changes nothing
(`Lower.reopen_stmt`).
-/

namespace BlockIR

/-! ## Code without locations -/

/-- The function with no location for any instruction. -/
def Function.unlocated (f : Function) : Function :=
  { f with slots := f.slots.map fun s => { s with location := .unknown } }

/-- The module with no location for any instruction. -/
def Module.unlocated (m : Module) : Module :=
  { m with functions := m.functions.map Function.unlocated }

/-- **The program with no location for any instruction.** All else stays: modules,
globals, functions, local slots, blocks, edges, and instructions with their
numbers. -/
def Program.unlocated (p : Program) : Program :=
  { p with modules := p.modules.map Module.unlocated }

/-- **Locations are not told apart.** -/
def Blur.locations : Blur where
  operator := .binary
  location _ := .unknown
  isTerminator_operator _ _ _ _ := rfl
  locals_operator _ _ _ _ := rfl
  operator_stays _ _ _ _ _ _ _ _ h := h.symm
  location_location _ := rfl
  location_unknown := rfl

namespace Blur

/-- This blur leaves instructions alone. -/
theorem locations_instr (i : Instruction) : locations.instr i = i := by
  cases i with
  | _ => rfl

/-- This blur takes the locations off a function. -/
theorem locations_function (f : Function) : locations.function f = f.unlocated := by
  have hslot : locations.slot = fun s => { s with location := .unknown } := by
    funext s
    rw [slot, locations_instr]
    rfl
  rw [function, Function.unlocated, hslot]

/-- This blur takes the locations off a program. -/
theorem locations_program (p : Program) : locations.program p = p.unlocated := by
  have hfunction : locations.function = Function.unlocated := funext locations_function
  have hmodule : locations.module = Module.unlocated := by
    funext m
    rw [module, Module.unlocated, hfunction]
  rw [program, Program.unlocated, hmodule]

end Blur

namespace Source

/-! ## Erasing locations -/

mutual

/-- **The statement without locations**: a located one is the statement inside. -/
def Stmt.erase : Stmt → Stmt
  | .declare name init => .declare name init
  | .assign v value => .assign v value
  | .assignIndex array i value => .assignIndex array i value
  | .ite cond thenBody elseBody => .ite cond (Stmt.eraseAll thenBody) (Stmt.eraseAll elseBody)
  | .loop cond body => .loop cond (Stmt.eraseAll body)
  | .ret value => .ret value
  | .expr e => .expr e
  | .located _ stmt => stmt.erase

/-- Statements without locations. -/
def Stmt.eraseAll : List Stmt → List Stmt
  | [] => []
  | s :: rest => s.erase :: Stmt.eraseAll rest

end

/-- The module with the locations of its statements and globals erased. -/
def Module.erase (m : Module) : Module :=
  { m with
    globals := m.globals.map fun g => { g with location := .unknown }
    functions := m.functions.map fun f => { f with body := Stmt.eraseAll f.body } }

/-- **The program tree with its locations erased.** -/
def Program.erase (p : Program) : Program :=
  { p with modules := p.modules.map fun entry => (entry.1, entry.2.erase) }

namespace Lower

variable {α : Type} {symbols : Symbols}

/-- Once lowering has looked for an open block, it finds one. -/
theorem reopen_settles (d : Draft) : ∃ d', reopen d = .ok ((), d') ∧ reopen d' = .ok ((), d') := by
  cases hclosed : d.cursor.isClosed with
  | false => exact ⟨d, reopen_eq_ok hclosed, reopen_eq_ok hclosed⟩
  | true =>
    -- the block that a closed one is left for has no instruction yet
    let d' := d.on ((d.cursor.extend "unreachable").moveTo d.cursor.function.blocks.size)
    have hfresh : d'.cursor.function.IsFresh d'.cursor.block := Function.isFresh_extend_new _ _
    have hrun : reopen d = .ok ((), d') := by
      change (if d.cursor.isClosed = true then _ else _ : Lower Unit) d = _
      rw [hclosed]
      rfl
    exact ⟨d', hrun, reopen_eq_ok (isClosed_of_isOpen hfresh.isOpen)⟩

/-- Looking for an open block twice is looking for it once. -/
theorem reopen_reopen (x : Lower α) : (do reopen; reopen; x) = (do reopen; x) := by
  funext d
  obtain ⟨d', hrun, hagain⟩ := reopen_settles d
  change (reopen d >>= fun r => reopen r.2 >>= fun r' => x r'.2) = (reopen d >>= fun r => x r.2)
  rw [hrun]
  change (reopen d' >>= fun r => x r.2) = x d'
  rw [hagain]
  rfl

/-- Every statement begins with a look at whether the current block is closed. -/
theorem reopen_stmt (s : Stmt) : (do reopen; stmt symbols s) = stmt symbols s := by
  cases s with
  | _ => rw [stmt, reopen_reopen]

end Lower

open Blur

variable {symbols : Symbols}

mutual

/-- The code of an expression has no other form without locations. -/
theorem Expr.lowers_unlocated : ∀ e : Expr, Blur.locations.LowersExpr symbols e e
  | .int i => by
    rw [LowersExpr, Lower.expr]
    exact lowers_pure _
  | .str s => by
    rw [LowersExpr, Lower.expr]
    exact lowers_pure _
  | .null => by
    rw [LowersExpr, Lower.expr]
    exact lowers_pure _
  | .var v => lowers_var v
  | .call target args => lowers_call target (Expr.lowersAll_unlocated args)
  | .binary op lhs rhs => by
    rw [LowersExpr, Lower.expr]
    exact (Expr.lowers_unlocated lhs).bind fun a => (Expr.lowers_unlocated rhs).bind fun b =>
      lowers_appendTo fun _ => rfl
  | .arrayLit elements => lowers_arrayLit (Expr.lowersAll_unlocated elements)
  | .newArray size => lowers_newArray (Expr.lowers_unlocated size)
  | .index array i => lowers_index (Expr.lowers_unlocated array) (Expr.lowers_unlocated i)

/-- Expressions come to the same code wherever they are. -/
theorem Expr.lowersAll_unlocated : ∀ es : List Expr, Blur.locations.LowersExprs symbols es es
  | [] => lowersExprs_nil
  | e :: es => lowersExprs_cons (Expr.lowers_unlocated e) (Expr.lowersAll_unlocated es)

end

theorem Expr.lowersOption_unlocated (init : Option Expr) :
    Blur.locations.LowersOption symbols init init := by
  cases init with
  | none => exact lowersOption_none
  | some e => exact lowersOption_some e.lowers_unlocated

mutual

/-- The code of a statement is that of the erased statement, but for locations. -/
theorem Stmt.lowers_erase : ∀ s : Stmt, Blur.locations.LowersStmt symbols s s.erase
  | .declare name init => by
    rw [Stmt.erase]
    exact lowers_declare name (Expr.lowersOption_unlocated init)
  | .assign v value => by
    rw [Stmt.erase]
    exact lowers_assign v value.lowers_unlocated
  | .assignIndex array i value => by
    rw [Stmt.erase]
    exact lowers_assignIndex array.lowers_unlocated i.lowers_unlocated value.lowers_unlocated
  | .ite cond thenBody elseBody => by
    rw [Stmt.erase]
    exact lowers_ite cond.lowers_unlocated (Stmt.lowers_eraseAll thenBody)
      (Stmt.lowers_eraseAll elseBody)
  | .loop cond body => by
    rw [Stmt.erase]
    exact lowers_loop cond.lowers_unlocated (Stmt.lowers_eraseAll body)
  | .ret value => by
    rw [Stmt.erase]
    exact lowers_ret (Expr.lowersOption_unlocated value)
  | .expr e => by
    rw [Stmt.erase]
    exact lowers_exprStmt e.lowers_unlocated
  | .located location stmt => by
    rw [LowersStmt, Stmt.erase, Lower.stmt, ← Lower.reopen_stmt stmt.erase]
    refine lowers_reopen.bind fun _ => fun d => ?_
    -- the statement inside begins at another location, and the blur shows neither
    have hinner := Stmt.lowers_erase stmt (d.on (d.cursor.locate location))
    rw [show Blur.locations.draft (d.on (d.cursor.locate location)) = Blur.locations.draft d from
      rfl] at hinner
    rw [hinner]
    change _ = Blur.locations.lowered (Lower.stmt symbols stmt (d.on (d.cursor.locate location)) >>=
      fun r => .ok ((), r.2.on (r.2.cursor.locate d.cursor.location)))
    rcases Lower.stmt symbols stmt (d.on (d.cursor.locate location)) with err | ⟨-, d'⟩
    · rfl
    · rfl

/-- Statements come to the same code without their locations, up to these. -/
theorem Stmt.lowers_eraseAll :
    ∀ body : List Stmt, Blur.locations.LowersBody symbols body (Stmt.eraseAll body)
  | [] => lowersBody_nil
  | s :: rest => lowersBody_cons (Stmt.lowers_erase s) (Stmt.lowers_eraseAll rest)

end

/-- **Erasing locations** is not told from leaving them. -/
def erasure : Retouch Blur.locations where
  function f := { f with body := Stmt.eraseAll f.body }
  global g := { g with location := .unknown }
  function_name _ := rfl
  function_params _ := rfl
  global_name _ := rfl
  isSome_global_init _ := rfl
  lowers_body _ f := Stmt.lowers_eraseAll f.body
  lowers_init symbols id g := by
    unfold GlobalDef.lowerInit
    cases g.init with
    | none => exact lowers_pure _
    | some init =>
      refine lowers_locate (init.lowers_unlocated.bind fun value => ?_) g.location
      exact (lowers_lift (symbols_global_stays symbols id g.name)).bind fun _ =>
        .emit (Blur.locations.emits_of_stays rfl)

/-- **The erased tree lowers to the same program but for locations**, or fails with
the same error. -/
theorem Program.lower_erase (p : Program) (entry : String) :
    (p.erase.lower entry).map BlockIR.Program.unlocated =
      (p.lower entry).map BlockIR.Program.unlocated := by
  have hblur : Blur.locations.program = BlockIR.Program.unlocated := funext locations_program
  rw [← hblur]
  exact erasure.lower_program p entry

end Source

end BlockIR
