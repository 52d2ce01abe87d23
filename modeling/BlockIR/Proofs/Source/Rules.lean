import BlockIR.Proofs.Source.FollowsStmt
/-!
# Rules for evaluations of trees

What a piece of syntax comes to in a store, read off what its parts come to. An
expression that only reads has a value (`Expr.HasValue`). Statements go on with
other locals, or end the body with a value or an error. The rule for loops,
`Stmt.apply_exec_loop`, asks what holds after so many rounds and how many there
are, so it shows that the loop ends.
-/

namespace BlockIR

namespace Source

variable {α : Type} {ctx : Context} {env env' : Locals} {σ σ' : Store} {a b v : Value}
variable {r : Except RuntimeError Value}

/-- An effect on the world is one on the store. -/
theorem Eval.apply_effect {e : Effect α} {result : Except RuntimeError α} {w : World}
    (h : e.apply σ.world = (result, w)) :
    (Eval.effect e).apply σ = some (result, { σ with world := w }) := by
  have happly : (Eval.effect e).apply σ =
      some ((e.apply σ.world).1, { σ with world := (e.apply σ.world).2 }) := rfl
  rw [happly, h]

/-! ## Expressions -/

namespace Expr

variable {e lhs rhs array index : Expr} {op : Operator} {name : String}

/-- **An expression has a value**: it is evaluated to it, and the store stays as
it is. -/
def HasValue (ctx : Context) (env : Locals) (σ : Store) (e : Expr) (v : Value) : Prop :=
  (e.eval ctx env).apply σ = some (.ok v, σ)

/-- A literal has its value. -/
theorem hasValue_int (i : Int64) : HasValue ctx env σ (.int i) (.int i) := by
  rw [HasValue, eval]
  rfl

/-- A name has the value that it is bound to. -/
theorem hasValue_var (h : env.lookup name = some v) :
    HasValue ctx env σ (.var (.named name)) v := by
  rw [HasValue, eval, h]
  rfl

/-- An operator has the value that the operation gives for those of its operands. -/
theorem hasValue_binary (hlhs : lhs.HasValue ctx env σ a) (hrhs : rhs.HasValue ctx env σ b)
    (hcall : (ctx.table.call op.builtin [a, b]).apply σ.world = (.ok v, σ.world)) :
    HasValue ctx env σ (.binary op lhs rhs) v := by
  rw [HasValue, eval, Eval.apply_bind_ok hlhs, Eval.apply_bind_ok hrhs, Eval.apply_effect hcall]

/-- An operator fails where its second operand does. -/
theorem apply_eval_binary_error {err : RuntimeError} (hlhs : lhs.HasValue ctx env σ a)
    (hrhs : (rhs.eval ctx env).apply σ = some (.error err, σ')) :
    ((binary op lhs rhs).eval ctx env).apply σ = some (.error err, σ') := by
  rw [eval, Eval.apply_bind_ok hlhs, Eval.apply_bind, hrhs]

/-- A single argument is evaluated by itself. -/
theorem apply_evalAll_singleton (h : e.HasValue ctx env σ v) :
    (evalAll ctx env [e]).apply σ = some (.ok [v], σ) := by
  rw [evalAll, Eval.apply_bind_ok h, evalAll, pure_bind]
  rfl

/-- A call of a function is made with the value of its argument. -/
theorem apply_eval_call {module : String} (h : e.HasValue ctx env σ v) :
    ((call (.function module name) [e]).eval ctx env).apply σ =
      (ctx.call module name [v]).apply σ := by
  rw [eval, Eval.apply_bind_ok (apply_evalAll_singleton h)]

/-- A call of an operation is made with the value of its argument. -/
theorem apply_eval_builtin (h : e.HasValue ctx env σ v) :
    ((call (.builtin name) [e]).eval ctx env).apply σ =
      (Eval.effect (ctx.table.call name [v])).apply σ := by
  rw [eval, Eval.apply_bind_ok (apply_evalAll_singleton h)]

/-- A new array is made with the value of its size. -/
theorem apply_eval_newArray (h : e.HasValue ctx env σ v) :
    ((newArray e).eval ctx env).apply σ = (Eval.effect (Operation.newArray v)).apply σ := by
  rw [eval, Eval.apply_bind_ok h]

/-- An element has the value that the load gives. -/
theorem hasValue_index (harray : array.HasValue ctx env σ a) (hindex : index.HasValue ctx env σ b)
    (hload : (Operation.load a b).apply σ.world = (.ok v, σ.world)) :
    HasValue ctx env σ (.index array index) v := by
  rw [HasValue, eval, Eval.apply_bind_ok harray, Eval.apply_bind_ok hindex,
    Eval.apply_effect hload]

end Expr

/-! ## Statements -/

namespace Stmt

variable {e cond array index value : Expr} {name : String} {s : Stmt}
variable {rest body thenBody elseBody : List Stmt} {c : Completion}

/-- A declaration binds its name to the initial value. -/
theorem apply_exec_declare (h : (e.eval ctx env).apply σ = some (.ok v, σ')) :
    ((declare name (some e)).exec ctx env).apply σ = some (.ok (.next ((name, v) :: env)), σ') := by
  rw [exec, Expr.evalOrNull, Eval.apply_bind_ok h]
  rfl

/-- A declaration fails where its initial value does. -/
theorem apply_exec_declare_error {err : RuntimeError}
    (h : (e.eval ctx env).apply σ = some (.error err, σ')) :
    ((declare name (some e)).exec ctx env).apply σ = some (.error err, σ') := by
  rw [exec, Expr.evalOrNull, Eval.apply_bind, h]

/-- An assignment binds a declared name to its value. -/
theorem apply_exec_assign (h : e.HasValue ctx env σ v) (hdeclared : env.lookup name = some a) :
    ((assign (.named name) e).exec ctx env).apply σ = some (.ok (.next (env.set name v)), σ) := by
  rw [exec, Eval.apply_bind_ok h, Variable.assign, hdeclared]
  rfl

/-- A store changes the world as the operation does. -/
theorem apply_exec_assignIndex {i : Value} {w : World} (harray : array.HasValue ctx env σ a)
    (hindex : index.HasValue ctx env σ i) (hvalue : value.HasValue ctx env σ v)
    (hstore : (Operation.store a i v).apply σ.world = (.ok (), w)) :
    ((assignIndex array index value).exec ctx env).apply σ =
      some (.ok (.next env), { σ with world := w }) := by
  rw [exec, Eval.apply_bind_ok harray, Eval.apply_bind_ok hindex, Eval.apply_bind_ok hvalue,
    Eval.apply_bind_ok (Eval.apply_effect hstore)]
  rfl

/-- An expression for its effect goes on with the locals as they are. -/
theorem apply_exec_expr (h : (e.eval ctx env).apply σ = some (.ok v, σ')) :
    ((expr e).exec ctx env).apply σ = some (.ok (.next env), σ') := by
  rw [exec, Eval.apply_bind_ok h]
  rfl

/-- An expression for its effect fails where the expression does. -/
theorem apply_exec_expr_error {err : RuntimeError}
    (h : (e.eval ctx env).apply σ = some (.error err, σ')) :
    ((expr e).exec ctx env).apply σ = some (.error err, σ') := by
  rw [exec, Eval.apply_bind, h]

/-- A return comes to what its value comes to. -/
theorem apply_exec_ret (h : (e.eval ctx env).apply σ = some (r, σ')) :
    ((ret (some e)).exec ctx env).apply σ = some (r.map .ret, σ') := by
  rw [exec, Expr.evalOrNull, Eval.apply_bind, h]
  cases r <;> rfl

/-- **A branch runs the arm that its condition chooses.** -/
theorem apply_exec_ite {holds : Bool} (hcond : cond.HasValue ctx env σ (.ofBool holds))
    (h : (execAll ctx (if holds then thenBody else elseBody) env).apply σ = some (.ok c, σ')) :
    ((ite cond thenBody elseBody).exec ctx env).apply σ = some (.ok (c.leave env), σ') := by
  have htruth : (Eval.truth (.ofBool holds)).apply σ = some (.ok holds, σ) := by
    cases holds <;> rfl
  rw [exec, Eval.apply_bind_ok hcond, Eval.apply_bind_ok htruth]
  cases holds with
  | true => exact Eval.apply_bind_ok h
  | false => exact Eval.apply_bind_ok h

/-! ### Sequences -/

/-- Statements go on behind one that does not return. -/
theorem apply_execAll_next (h : (s.exec ctx env).apply σ = some (.ok (.next env'), σ')) :
    (execAll ctx (s :: rest) env).apply σ = (execAll ctx rest env').apply σ' := by
  rw [execAll, Eval.apply_bind_ok h]

/-- A return or an error ends a sequence. -/
theorem apply_execAll_ret (h : (s.exec ctx env).apply σ = some (r.map .ret, σ')) :
    (execAll ctx (s :: rest) env).apply σ = some (r.map .ret, σ') := by
  rw [execAll, Eval.apply_bind, h]
  cases r <;> rfl

/-! ### Loops -/

section Loops

variable {locals : Nat → Locals} {store : Nat → Store} {total : Nat}

/-- **Going around in a loop.** The locals and the store are given by the rounds that
are done. Until all are done the test holds, and a round leads to where one more is. -/
theorem apply_loop {test : Locals → Eval Bool} {round : Locals → Eval Completion}
    (htest : ∀ j ≤ total, (test (locals j)).apply (store j) = some (.ok (j < total), store j))
    (hround : ∀ j < total, (round (locals j)).apply (store j) =
      some (.ok (.next (locals (j + 1))), store (j + 1))) :
    ∀ k j rounds, j + k = total → k < rounds →
      (Eval.loop test round rounds (locals j)).apply (store j) =
        some (.ok (.next (locals total)), store total) := by
  intro k
  induction k with
  | zero =>
    intro j rounds hj hlt
    obtain ⟨rounds, rfl⟩ := Nat.exists_eq_succ_of_ne_zero (Nat.ne_of_gt hlt)
    obtain rfl : j = total := hj
    have hend := htest j (Nat.le_refl j)
    rw [decide_eq_false (Nat.lt_irrefl j)] at hend
    rw [Eval.loop, Eval.apply_bind_ok hend]
    rfl
  | succ k ih =>
    intro j rounds hj hlt
    obtain ⟨rounds, rfl⟩ := Nat.exists_eq_succ_of_ne_zero (Nat.ne_of_gt (Nat.zero_lt_of_lt hlt))
    have hgo := htest j (by omega)
    rw [decide_eq_true (by omega)] at hgo
    rw [Eval.loop, Eval.apply_bind_ok hgo]
    exact (Eval.apply_bind_ok (hround j (by omega))).trans (ih (j + 1) rounds (by omega) (by omega))

/-- **The rule for loops.** A body that declares nothing leaves its locals to the next
round. -/
theorem apply_exec_loop
    (htest : ∀ j ≤ total, cond.HasValue ctx (locals j) (store j) (.ofBool (j < total)))
    (hbody : ∀ j < total, (execAll ctx body (locals j)).apply (store j) =
      some (.ok (.next (locals (j + 1))), store (j + 1)))
    (hlength : ∀ j, (locals (j + 1)).length = (locals j).length) (hrounds : total < ctx.rounds) :
    ((loop cond body).exec ctx (locals 0)).apply (store 0) =
      some (.ok (.next (locals total)), store total) := by
  rw [exec]
  refine apply_loop (fun j hj => ?_) (fun j hj => ?_) total 0 ctx.rounds (Nat.zero_add total) hrounds
  · refine (Eval.apply_bind_ok (htest j hj)).trans ?_
    cases decide (j < total) <;> rfl
  · have hleave : (locals j).leave (locals (j + 1)) = locals (j + 1) := by
      rw [Locals.leave, hlength, Nat.sub_self, List.drop_zero]
    refine (Eval.apply_bind_ok (hbody j hj)).trans ?_
    rw [Completion.leave, hleave]
    rfl

end Loops

end Stmt

/-! ## Calls -/

/-- A function comes to what its body returns. -/
theorem FunctionDef.apply_run {f : FunctionDef} {args : List Value}
    (h : (Stmt.execAll ctx f.body (f.params.zip args).reverse).apply σ = some (r.map .ret, σ')) :
    (f.run ctx args).apply σ = some (r, σ') := by
  rw [FunctionDef.run, Eval.apply_bind, h]
  cases r <;> rfl

namespace Program

variable {p : Program} {module name : String} {f : FunctionDef} {args : List Value}
variable {table : Table} {rounds limit : Nat}

/-- A function is found that has the name and takes that many arguments. -/
theorem apply_callee (hf : p.function? module name = some f)
    (hlength : args.length = f.params.length) (σ : Store) :
    (p.callee module name args).apply σ = some (.ok f, σ) := by
  rw [callee, hf, Eval.declared, pure_bind, if_neg (not_not_intro hlength)]
  rfl

/-- Without room a call overflows the stack. -/
theorem apply_call_zero (hf : p.function? module name = some f)
    (hlength : args.length = f.params.length) (σ : Store) :
    (p.call table rounds limit 0 module name args).apply σ =
      some (.error (.stackOverflow limit), σ) := by
  rw [call, Eval.apply_bind_ok (apply_callee hf hlength σ)]
  rfl

/-- With room it runs the body, with room for one call less. -/
theorem apply_call_succ (hf : p.function? module name = some f)
    (hlength : args.length = f.params.length) (σ : Store) (room : Nat) :
    (p.call table rounds limit (room + 1) module name args).apply σ =
      (f.run ⟨table, p.call table rounds limit room, rounds⟩ args).apply σ := by
  rw [call, Eval.apply_bind_ok (apply_callee hf hlength σ)]

end Program

end Source

end BlockIR
