import BlockIR.Proofs.Source.Meaning
import BlockIR.Proofs.Source.Mentions
import BlockIR.Sample
/-!
# Programs without loops finish

An evaluation of a program tree goes down its syntax, and into a call with room
for one call less. So a well-scoped tree in which nothing that is called has a
loop is evaluated to a result, a value or an error, however its functions call
each other (`Finishes`). A lowered program finishes when its tree does, whatever
the order in which control passes its blocks.
-/

namespace BlockIR

namespace Source

variable {α β : Type} {decls : Environment} {ctx : Context} {env : Locals}

/-! ## Loops and calls of a tree -/

mutual

/-- A loop occurs in a statement. -/
def Stmt.hasLoop : Stmt → Bool
  | .loop _ _ => true
  | .ite _ thenBody elseBody => Stmt.anyLoop thenBody || Stmt.anyLoop elseBody
  | .located _ stmt => stmt.hasLoop
  | .declare _ _ | .assign _ _ | .assignIndex _ _ _ | .ret _ | .expr _ => false

/-- A loop occurs in some statements. -/
def Stmt.anyLoop : List Stmt → Bool
  | [] => false
  | s :: rest => s.hasLoop || Stmt.anyLoop rest

end

/-- A loop occurs in the body of a function. -/
def FunctionDef.hasLoop (f : FunctionDef) : Bool :=
  Stmt.anyLoop f.body

/-- **A function that an evaluation may come to call**: the entry function, what
the initial values of globals call, and what such functions call. -/
inductive Program.Invokes (p : Program) (entry : String) : String → String → Prop
  | entry : Invokes p entry p.root entry
  | init {id module name : String} {m : Module} : p.Includes id m →
      .call module name ∈ m.initMentions id → Invokes p entry module name
  | callee {module name module' name' : String} {f : FunctionDef} : Invokes p entry module name →
      p.function? module name = some f → .call module' name' ∈ f.mentions →
      Invokes p entry module' name'

/-! ## Evaluations that have a result -/

/-- Every declared global has a value. -/
def Store.Holds (decls : Environment) (σ : Store) : Prop :=
  ∀ module name, decls.global module name → ∃ v, σ.globals module name = some v

/-- Writing a global keeps all globals in the store. -/
theorem Store.Holds.set {σ : Store} (h : σ.Holds decls) (module name : String) (v : Value) :
    Store.Holds decls { σ with globals := σ.globals.set module name v } := by
  intro module' name' hdecl
  obtain ⟨w, hw⟩ := h module' name' hdecl
  simp only [Globals.set, hw]
  split
  · exact ⟨v, rfl⟩
  · exact ⟨w, rfl⟩

/-- **An evaluation has a result**, a value or an error, wherever the declared
globals have values, and they keep having values. Of a value something is
known. -/
def Finishes (decls : Environment) (x : Eval α) (post : α → Prop) : Prop :=
  ∀ σ, σ.Holds decls → ∃ r σ', x.apply σ = some (r, σ') ∧ σ'.Holds decls ∧ ∀ a, r = .ok a → post a

namespace Finishes

variable {x : Eval α} {f : α → Eval β} {post : α → Prop} {last : β → Prop}

/-- Less may be known of the value. -/
theorem imp {post' : α → Prop} (hx : Finishes decls x post) (h : ∀ a, post a → post' a) :
    Finishes decls x post' := by
  intro σ hσ
  obtain ⟨r, σ', happly, hσ', hpost⟩ := hx σ hσ
  exact ⟨r, σ', happly, hσ', fun a ha => h a (hpost a ha)⟩

/-- A value finishes. -/
theorem pure {a : α} (ha : post a) : Finishes decls (pure a) post := by
  intro σ hσ
  refine ⟨.ok a, σ, rfl, hσ, ?_⟩
  rintro _ ⟨⟩
  exact ha

/-- A failure finishes. -/
theorem throw (e : RuntimeError) : Finishes decls (throw e : Eval α) post :=
  fun σ hσ => ⟨.error e, σ, rfl, hσ, by rintro _ ⟨⟩⟩

/-- **A sequence has a result when its parts do.** -/
theorem bind (hx : Finishes decls x post) (hf : ∀ a, post a → Finishes decls (f a) last) :
    Finishes decls (x >>= f) last := by
  intro σ hσ
  obtain ⟨e | a, σ₁, happly, hσ₁, hpost⟩ := hx σ hσ
  · exact ⟨.error e, σ₁, by rw [Eval.apply_bind, happly], hσ₁, by rintro _ ⟨⟩⟩
  · rw [Eval.apply_bind_ok happly]
    exact hf a (hpost a rfl) σ₁ hσ₁

/-- An effect finishes. -/
theorem effect (e : Effect α) : Finishes decls (Eval.effect e) fun _ => True :=
  fun σ hσ => ⟨(e.apply σ.world).1, { σ with world := (e.apply σ.world).2 }, rfl, hσ,
    fun _ _ => trivial⟩

/-- What is declared finishes. -/
theorem declared {a : α} {o : Option α} (h : o = some a) (ha : post a) :
    Finishes decls (Eval.declared o) post := by
  subst h
  exact .pure ha

/-- Reading a declared global finishes. -/
theorem readGlobal {module name : String} (h : decls.global module name) :
    Finishes decls (Eval.readGlobal module name) fun _ => True := by
  intro σ hσ
  obtain ⟨v, hv⟩ := hσ module name h
  exact ⟨.ok v, σ, Eval.apply_readGlobal hv, hσ, fun _ _ => trivial⟩

/-- Writing a declared global finishes. -/
theorem writeGlobal {module name : String} (h : decls.global module name) (v : Value) :
    Finishes decls (Eval.writeGlobal module name v) fun _ => True := by
  intro σ hσ
  obtain ⟨w, hw⟩ := hσ module name h
  exact ⟨.ok (), _, Eval.apply_writeGlobal hw, hσ.set module name v, fun _ _ => trivial⟩

/-- The test of a condition finishes. -/
theorem truth (v : Value) : Finishes decls (Eval.truth v) fun _ => True := by
  cases v with
  | int i => exact .pure trivial
  | str s => exact .throw _
  | array a => exact .throw _
  | null => exact .throw _

/-- A loop over a list finishes when each of its rounds does. -/
theorem forM {γ : Type} {act : γ → Eval PUnit} {xs : List γ}
    (h : ∀ a ∈ xs, Finishes decls (act a) fun _ => True) :
    Finishes decls (xs.forM act) fun _ => True := by
  induction xs with
  | nil => exact .pure trivial
  | cons a rest ih =>
    rw [List.forall_mem_cons] at h
    rw [List.forM_eq_forM, List.forM_cons]
    exact h.1.bind fun _ _ => ih h.2

end Finishes

/-! ## Expressions -/

/-- **The calls among some references have results**, where they are of declared
functions. -/
def Context.Answers (ctx : Context) (decls : Environment) (names : List Mention) : Prop :=
  ∀ module name, .call module name ∈ names → decls.function module name →
    ∀ args, Finishes decls (ctx.call module name args) fun _ => True

/-- Calls of two lists of names finish when those of each list do. -/
theorem Context.answers_append {names names' : List Mention} :
    ctx.Answers decls (names ++ names') ↔ ctx.Answers decls names ∧ ctx.Answers decls names' := by
  simp only [Context.Answers, List.mem_append, or_imp, forall_and]

/-- A local in scope has a value. -/
theorem Locals.exists_lookup {name : String} (h : name ∈ env.map Prod.fst) :
    ∃ v, env.lookup name = some v :=
  Option.isSome_iff_exists.mp (Declared.isSome_lookup_iff.mpr h)

namespace Expr

mutual

/-- **A well-scoped expression has a result** if its calls have. -/
theorem eval_finishes : ∀ e : Expr, e.Scoped decls (env.map Prod.fst) →
    ctx.Answers decls e.mentions → Finishes decls (e.eval ctx env) fun _ => True
  | .int i, _, _ => .pure trivial
  | .str s, _, _ => .pure trivial
  | .null, _, _ => .pure trivial
  | .var (.named name), hscoped, _ => by
    obtain ⟨v, hv⟩ := Locals.exists_lookup hscoped
    exact .declared hv trivial
  | .var (.global module name), hscoped, _ => .readGlobal hscoped
  | .call (.function module name) args, hscoped, hcalls => by
    obtain ⟨hargs, hcall⟩ := Context.answers_append.mp hcalls
    refine .bind (evalAll_finishes args hscoped.2 hargs) fun vs _ => ?_
    exact hcall module name List.mem_cons_self hscoped.1 vs
  | .call (.builtin name) args, hscoped, hcalls => by
    obtain ⟨hargs, -⟩ := Context.answers_append.mp hcalls
    exact .bind (evalAll_finishes args hscoped.2 hargs) fun vs _ => .effect _
  | .binary op lhs rhs, hscoped, hcalls => by
    obtain ⟨hlhs, hrhs⟩ := Context.answers_append.mp hcalls
    exact .bind (eval_finishes lhs hscoped.1 hlhs) fun a _ =>
      .bind (eval_finishes rhs hscoped.2 hrhs) fun b _ => .effect _
  | .arrayLit elements, hscoped, hcalls =>
    .bind (.effect _) fun array _ =>
      .bind (fill_finishes array elements 0 hscoped hcalls) fun _ _ => .pure trivial
  | .newArray size, hscoped, hcalls =>
    .bind (eval_finishes size hscoped hcalls) fun n _ => .effect _
  | .index array i, hscoped, hcalls => by
    obtain ⟨harray, hi⟩ := Context.answers_append.mp hcalls
    exact .bind (eval_finishes array hscoped.1 harray) fun a _ =>
      .bind (eval_finishes i hscoped.2 hi) fun n _ => .effect _

/-- Well-scoped expressions finish when the calls in them do. -/
theorem evalAll_finishes : ∀ es : List Expr, Expr.AllScoped decls (env.map Prod.fst) es →
    ctx.Answers decls (Expr.allMentions es) → Finishes decls (Expr.evalAll ctx env es) fun _ => True
  | [], _, _ => .pure trivial
  | e :: es, hscoped, hcalls => by
    obtain ⟨he, hes⟩ := Context.answers_append.mp hcalls
    exact .bind (eval_finishes e hscoped.1 he) fun v _ =>
      .bind (evalAll_finishes es hscoped.2 hes) fun vs _ => .pure trivial

/-- Filling an array finishes when its elements do. -/
theorem fill_finishes (array : Value) : ∀ (es : List Expr) (i : Nat),
    Expr.AllScoped decls (env.map Prod.fst) es → ctx.Answers decls (Expr.allMentions es) →
    Finishes decls (Expr.fill ctx env array i es) fun _ => True
  | [], i, _, _ => .pure trivial
  | e :: es, i, hscoped, hcalls => by
    obtain ⟨he, hes⟩ := Context.answers_append.mp hcalls
    exact .bind (eval_finishes e hscoped.1 he) fun v _ =>
      .bind (.effect _) fun _ _ => fill_finishes array es (i + 1) hscoped.2 hes

end

/-- An expression that may be absent finishes. -/
theorem evalOrNull_finishes (e : Option Expr) (hscoped : Expr.OptScoped decls (env.map Prod.fst) e)
    (hcalls : ctx.Answers decls (Expr.optMentions e)) :
    Finishes decls (Expr.evalOrNull ctx env e) fun _ => True := by
  cases e with
  | none => exact .pure trivial
  | some e => exact e.eval_finishes hscoped hcalls

end Expr

/-! ## Statements -/

/-- Assigning a local leaves the names in scope. -/
theorem Locals.map_fst_set (env : Locals) (name : String) (v : Value) :
    (env.set name v).map Prod.fst = env.map Prod.fst := by
  induction env with
  | nil => rfl
  | cons entry rest ih =>
    obtain ⟨other, w⟩ := entry
    rw [Locals.set]
    split
    · rfl
    · rw [List.map_cons, List.map_cons, ih]

/-- Control goes on with locals of some names, if it does. -/
def Completion.Keeps (names : List String) : Completion → Prop
  | .next env => env.map Prod.fst = names
  | .ret _ => True

/-- Behind a block the names are those before it. -/
theorem Completion.Keeps.leave {more : List String} {c : Completion}
    (h : c.Keeps (more ++ env.map Prod.fst)) : (c.leave env).Keeps (env.map Prod.fst) := by
  cases c with
  | ret v => trivial
  | next inner =>
    have hnames : inner.map Prod.fst = more ++ env.map Prod.fst := h
    have hlength : inner.length = more.length + env.length := by
      simpa using congrArg List.length hnames
    rw [Completion.leave, Completion.Keeps, Locals.leave, hlength, Nat.add_sub_cancel,
      List.map_drop, hnames, List.drop_left]

/-- An assignment to what is declared finishes, and leaves the names in scope. -/
theorem Variable.assign_finishes (v : Value) (target : Variable)
    (hscoped : target.Scoped decls (env.map Prod.fst)) :
    Finishes decls (target.assign env v) fun env' => env'.map Prod.fst = env.map Prod.fst := by
  cases target with
  | named name =>
    obtain ⟨w, hw⟩ := Locals.exists_lookup hscoped
    exact .bind (.declared hw trivial) fun _ (_ : True) => .pure (env.map_fst_set name v)
  | global module name => exact .bind (.writeGlobal hscoped v) fun _ _ => .pure rfl

namespace Stmt

mutual

/-- **A well-scoped statement without loops has a result** if its calls have. -/
theorem exec_finishes : ∀ (s : Stmt) {env : Locals}, s.Scoped decls (env.map Prod.fst) →
    s.hasLoop = false → ctx.Answers decls s.mentions →
    Finishes decls (s.exec ctx env) (·.Keeps (s.declared?.toList ++ env.map Prod.fst))
  | .declare name init, env, hscoped, _, hcalls =>
    .bind (Expr.evalOrNull_finishes init hscoped hcalls) fun v _ => .pure rfl
  | .assign target value, env, hscoped, _, hcalls => by
    obtain ⟨hvalue, -⟩ := Context.answers_append.mp hcalls
    exact .bind (value.eval_finishes hscoped.1 hvalue) fun v _ =>
      .bind (target.assign_finishes v hscoped.2) fun env' hnames => .pure hnames
  | .assignIndex array index value, env, hscoped, _, hcalls => by
    obtain ⟨harray, hrest⟩ := Context.answers_append.mp hcalls
    obtain ⟨hindex, hvalue⟩ := Context.answers_append.mp hrest
    exact .bind (array.eval_finishes hscoped.1 harray) fun a _ =>
      .bind (index.eval_finishes hscoped.2.1 hindex) fun i _ =>
      .bind (value.eval_finishes hscoped.2.2 hvalue) fun v _ =>
      .bind (.effect _) fun _ _ => .pure rfl
  | .ite cond thenBody elseBody, env, hscoped, hfree, hcalls => by
    obtain ⟨hcond, hrest⟩ := Context.answers_append.mp hcalls
    obtain ⟨hthen, helse⟩ := Context.answers_append.mp hrest
    obtain ⟨hthenFree, helseFree⟩ := Bool.or_eq_false_iff.mp hfree
    refine .bind (cond.eval_finishes hscoped.1 hcond) fun v _ => .bind (.truth v) fun holds _ => ?_
    cases holds with
    | true =>
      refine .bind (execAll_finishes thenBody hscoped.2.1 hthenFree hthen) ?_
      exact fun c hc => .pure (hc.elim fun _ => Completion.Keeps.leave)
    | false =>
      refine .bind (execAll_finishes elseBody hscoped.2.2 helseFree helse) ?_
      exact fun c hc => .pure (hc.elim fun _ => Completion.Keeps.leave)
  | .loop cond body, env, _, hfree, _ => by cases hfree
  | .ret value, env, hscoped, _, hcalls =>
    .bind (Expr.evalOrNull_finishes value hscoped hcalls) fun v _ => .pure trivial
  | .expr e, env, hscoped, _, hcalls =>
    .bind (e.eval_finishes hscoped hcalls) fun _ _ => .pure rfl
  | .located _ stmt, env, hscoped, hfree, hcalls => exec_finishes stmt hscoped hfree hcalls

/-- Well-scoped statements without loops finish when the calls in them do. -/
theorem execAll_finishes : ∀ (ss : List Stmt) {env : Locals},
    Stmt.AllScoped decls (env.map Prod.fst) ss → Stmt.anyLoop ss = false →
    ctx.Answers decls (Stmt.allMentions ss) →
    Finishes decls (Stmt.execAll ctx ss env) fun c => ∃ more, c.Keeps (more ++ env.map Prod.fst)
  | [], env, _, _, _ => .pure ⟨[], rfl⟩
  | s :: rest, env, hscoped, hfree, hcalls => by
    obtain ⟨hfirst, hrest⟩ := Context.answers_append.mp hcalls
    obtain ⟨hfirstFree, hrestFree⟩ := Bool.or_eq_false_iff.mp hfree
    refine .bind (exec_finishes s hscoped.1 hfirstFree hfirst) fun c hc => ?_
    cases c with
    | ret v => exact .pure ⟨[], trivial⟩
    | next env' =>
      -- the rest is read in the locals that the statement leaves, not in those before it
      have hnames : env'.map Prod.fst = s.declared?.toList ++ env.map Prod.fst := hc
      have hscoped' := hscoped.2
      rw [← hnames] at hscoped'
      have hfinishes := execAll_finishes rest hscoped' hrestFree hrest
      refine hfinishes.imp fun c hc' => ?_
      obtain ⟨more, hmore⟩ := hc'
      rw [hnames, ← List.append_assoc] at hmore
      exact ⟨_, hmore⟩

end

end Stmt

/-! ## Programs -/

/-- **A well-scoped function without loops has a result** if its calls have. -/
theorem FunctionDef.run_finishes {f : FunctionDef} {args : List Value} (hscoped : f.Scoped decls)
    (hlength : args.length = f.params.length) (hfree : f.hasLoop = false)
    (hcalls : ctx.Answers decls f.mentions) :
    Finishes decls (f.run ctx args) fun _ => True := by
  have hnames : (f.params.zip args).reverse.map Prod.fst = f.params.reverse := by
    rw [List.map_reverse, List.map_fst_zip (Nat.le_of_eq hlength.symm)]
  have hbody : Stmt.AllScoped decls ((f.params.zip args).reverse.map Prod.fst) f.body := by
    rw [hnames]
    exact hscoped
  refine .bind (Stmt.execAll_finishes f.body hbody hfree hcalls) fun c _ => ?_
  cases c with
  | next _ => exact .pure trivial
  | ret v => exact .pure trivial

/-- Giving a global its initial value finishes. -/
theorem GlobalDef.assignInit_finishes {module : String} {g : GlobalDef}
    (hscoped : Expr.OptScoped decls [] g.init) (hglobal : decls.global module g.name)
    (hcalls : ctx.Answers decls (g.mentions module)) :
    Finishes decls (g.assignInit ctx module) fun _ => True := by
  unfold GlobalDef.assignInit
  unfold GlobalDef.mentions at hcalls
  cases hinit : g.init with
  | none => exact .pure trivial
  | some init =>
    rw [hinit] at hscoped hcalls
    exact .bind (init.eval_finishes hscoped (Context.answers_append.mp hcalls).1) fun v _ =>
      .writeGlobal hglobal v

namespace Program

variable {p : Program} {entry module name : String}

/-- A declared function is there and well-scoped. -/
theorem WellScoped.exists_function (h : p.WellScoped entry)
    (hdecl : p.environment.function module name) :
    ∃ f, p.function? module name = some f ∧ f.Scoped p.environment := by
  obtain ⟨m, hm, f, hf, hname⟩ := hdecl
  have hfind : (m.functions.find? fun f => f.name == name).isSome = true :=
    List.find?_isSome.mpr ⟨f, hf, beq_iff_eq.mpr hname⟩
  obtain ⟨f', hf'⟩ := Option.isSome_iff_exists.mp hfind
  refine ⟨f', ?_, h.bodies module m hm f' (List.mem_of_find?_eq_some hf')⟩
  rw [function?, hm.2, Option.bind_some, hf']

/-- **No function that an evaluation may come to call has a loop.** -/
def LoopFree (p : Program) (entry : String) : Prop :=
  ∀ module name f, p.Invokes entry module name → p.function? module name = some f →
    f.hasLoop = false

section Calls

variable (hwell : p.WellScoped entry) (hfree : p.LoopFree entry)
variable (table : Table) (rounds limit : Nat)

/-- The look for a declared function finishes, and finds a well-scoped one. -/
theorem WellScoped.callee_finishes (hwell : p.WellScoped entry)
    (hdecl : p.environment.function module name) (args : List Value) :
    Finishes p.environment (p.callee module name args) fun f =>
      p.function? module name = some f ∧ f.Scoped p.environment ∧
        args.length = f.params.length := by
  obtain ⟨f, hf, hscoped⟩ := hwell.exists_function hdecl
  refine .bind (.declared hf rfl) ?_
  rintro _ rfl
  split
  · exact .throw _
  · rename_i hlength
    exact .pure ⟨hf, hscoped, not_not.mp hlength⟩

include hwell hfree

/-- **Calls have results**, by induction on how many calls there is room for: a
body calls with less room. -/
theorem call_finishes (room : Nat) (hdecl : p.environment.function module name)
    (hinvoked : p.Invokes entry module name) (args : List Value) :
    Finishes p.environment (p.call table rounds limit room module name args) fun _ => True := by
  induction room generalizing module name args with
  | zero => exact .bind (hwell.callee_finishes hdecl args) fun _ _ => .throw _
  | succ room ih =>
    refine .bind (hwell.callee_finishes hdecl args) ?_
    rintro f ⟨hf, hscoped, hlength⟩
    -- what the body calls is invoked too, so the induction hypothesis covers it
    refine FunctionDef.run_finishes hscoped hlength (hfree module name f hinvoked hf) ?_
    exact fun module' name' hcall hdecl' => ih hdecl' (.callee hinvoked hf hcall)

/-- The initialization of a module finishes. -/
theorem initModule_finishes {listed : String × Module} (hlisted : p.Includes listed.1 listed.2) :
    Finishes p.environment (p.initModule table rounds limit listed) fun _ => True := by
  unfold initModule
  split
  · cases limit with
    | zero => exact .throw _
    | succ room =>
      refine .forM fun g hg => ?_
      refine GlobalDef.assignInit_finishes (hwell.inits _ _ hlisted g hg)
        ⟨_, hlisted, g, hg, rfl⟩ ?_
      intro module name hcall hdecl
      -- the initializer itself takes the place of one call
      refine call_finishes hwell hfree table rounds (room + 1) room hdecl (.init hlisted ?_)
      exact List.mem_flatMap.mpr ⟨g, hg, hcall⟩
  · exact .pure trivial

end Calls

/-- At the start every declared global has a value. -/
theorem Lowering.holds_start {modules : List (String × Module)} {d : Declared}
    {lowered : BlockIR.Program} (h : p.Lowering entry modules d lowered) (w : World) :
    Store.Holds p.environment ⟨p.nullGlobals, w⟩ := by
  rintro module name ⟨m, hm, g, hg, rfl⟩
  refine ⟨.null, if_pos (List.any_eq_true.mpr ⟨(module, m), ?_, ?_⟩)⟩
  · exact (h.initOrder_tracks.2 _).mpr ((h.lists.mem_iff module m).mpr hm)
  · simp only [beq_self_eq_true, Bool.true_and, List.any_eq_true]
    exact ⟨g, hg, beq_self_eq_true _⟩

/-- **A tree whose functions have no loops is evaluated to a result.** -/
theorem Lowering.exists_evaluate {modules : List (String × Module)} {d : Declared}
    {lowered : BlockIR.Program} (h : p.Lowering entry modules d lowered)
    (hwell : p.WellScoped entry) (hfree : p.LoopFree entry) (table : Table) (limit rounds : Nat)
    (args : List Value) (w : World) : ∃ r, p.evaluate entry table limit rounds args w = some r := by
  have hinits : Finishes p.environment (p.dependencyOrder.forM (p.initModule table rounds limit))
      fun _ => True := by
    refine .forM fun listed hlisted => initModule_finishes hwell hfree table rounds limit ?_
    exact (h.lists.mem_iff _ _).mp ((h.initOrder_tracks.2 listed).mp hlisted)
  have hcall := call_finishes hwell hfree table rounds limit limit hwell.entry .entry args
  have hrun := Finishes.bind (hwell.callee_finishes hwell.entry args) fun _ _ =>
    hinits.bind fun _ _ => hcall
  obtain ⟨r, σ, happly, -, -⟩ := hrun _ (h.holds_start w)
  rw [evaluate, happly]
  exact ⟨_, rfl⟩

/-- **Programs without loops finish.** With the standard builtin operations,
whatever the arguments, the world and the limit on calls, if none of the functions
that the evaluation may come to call has a loop, it ends with a value or an error
after finitely many steps. The functions may call each other and themselves. -/
theorem loopFree_finishes {p : Program} {entry : String} {lowered : BlockIR.Program}
    (h : p.lower entry = .ok lowered) (hfree : p.LoopFree entry) (limits : Limits)
    (args : List Value) (w : World) :
    ∃ r steps, ∀ fuel, steps ≤ fuel →
      Machine.evaluateStandard lowered limits fuel args w = some r := by
  obtain ⟨hwell, modules, d, hlowering⟩ := (p.lower_decides entry).of_eq_ok h
  obtain ⟨table, htable, -⟩ := Table.exists_standard
  -- there are no loops, so there is a result even where loops may take no rounds
  obtain ⟨r, hr⟩ := hlowering.exists_evaluate hwell hfree table limits.maxCallDepth 0 args w
  obtain ⟨steps, hsteps⟩ :=
    (hlowering.evaluate_eq_some_iff table limits.maxCallDepth args w r).mpr ⟨0, hr⟩
  obtain ⟨r', hr', -⟩ := Option.map_eq_some_iff.mp hsteps
  refine ⟨r', steps, fun fuel hle => ?_⟩
  simp only [Machine.evaluateStandard, htable]
  exact Machine.evaluate_steady _ args w steps fuel r' hr' hle

/-- One of two functions that count down and call each other, with a branch in a
branch and code behind a return. -/
def countdown (name other : String) (answer : Int64) : FunctionDef where
  name := name
  params := ["n"]
  body := [
    .ite (.binary .eq (Sample.v "n") (.int 0))
      [Sample.ret (.int answer), Sample.set "n" (.int 2)]
      [.ite (Sample.v "n")
        [Sample.ret (Sample.call "main" other [.binary .sub (Sample.v "n") (.int 1)])] []]]

/-- Decide whether a number is even. Beside it is a loop that nothing calls. -/
def parity : Program :=
  Sample.single {
    functions := [
      { name := "main"
        params := ["n"]
        body := [Sample.ret (Sample.call "main" "even" [Sample.v "n"])] },
      countdown "even" "odd" 1,
      countdown "odd" "even" 0,
      { name := "spin", params := [], body := [.loop (.int 1) []] }] }

/-- Counting down from minus one never comes to zero, and yet it ends. -/
theorem loopFree_finishes_parity :
    ∃ lowered, parity.lower = .ok lowered ∧ parity.LoopFree "main" ∧
      ∃ r steps, ∀ fuel, steps ≤ fuel →
        Machine.evaluateStandard lowered {} fuel [.int (-1)] ⟨{}, {}, .steady 0⟩ = some r := by
  obtain ⟨lowered, hlower⟩ := Success.exists_of_toBool
    (show parity.lower.toBool = true by decide +kernel)
  let called := [("main", "main"), ("main", "even"), ("main", "odd")]
  have hcalls : ∀ ref ∈ called, (parity.function? ref.1 ref.2).all fun f =>
      !f.hasLoop && f.mentions.all fun c => c ∈ called.map fun ref => .call ref.1 ref.2 := by
    decide +kernel
  have hinvoked : ∀ module name, parity.Invokes "main" module name → (module, name) ∈ called := by
    intro module name h
    induction h with
    | entry => decide
    | init hm hcall =>
      cases List.mem_singleton.mp (Lower.mem_of_lookup hm.2)
      cases hcall
    | callee _ hf hcall ih =>
      have hall := hcalls _ ih
      simp only [hf, Option.all_some, Bool.and_eq_true, List.all_eq_true, decide_eq_true_eq] at hall
      obtain ⟨ref, href, heq⟩ := List.mem_map.mp (hall.2 _ hcall)
      cases heq
      exact href
  have hfree : parity.LoopFree "main" := by
    intro module name f h hf
    have hall := hcalls _ (hinvoked module name h)
    simp only [hf, Option.all_some, Bool.and_eq_true, Bool.not_eq_true'] at hall
    exact hall.1
  exact ⟨lowered, hlower, hfree, loopFree_finishes hlower hfree {} _ _⟩

end Program

end Source

end BlockIR
