import BlockIR.Proofs.Program.Blur
import BlockIR.Proofs.Source.Dependence
import BlockIR.Proofs.Source.Lowering
/-!
# Trees that lower to code that is not told apart

A step of lowering is carried over by a blur to another step when it is the same
to blur what the one comes to and to take the other from the blurred draft
(`Blur.Lowers`). Every form of the tree is lowered by such steps if its parts
are, so a change of trees that swaps steps for those they are carried to
(`Retouch`) lowers to the same code under the blur, or fails with the same error
(`Retouch.lower_program`).
-/

namespace BlockIR

open Success

namespace Blur

open Source

variable (β : Blur) {α γ : Type}

/-! ## Steps of lowering -/

/-- A draft under a blur. -/
def draft (d : Draft) : Draft :=
  ⟨β.cursor d.cursor, d.scopes⟩

/-- An error of lowering under a blur. -/
def loweringError : LoweringError → LoweringError
  | .structure e => .structure (β.error e)
  | other => other

/-- **What a computation of lowering comes to**, under a blur of its results. -/
def outcome (on : α → α) (r : Except LoweringError α) : Except LoweringError α :=
  (r.mapError β.loweringError).map on

/-- What a step of lowering comes to, under a blur. -/
def lowered (r : Except LoweringError (α × Draft)) : Except LoweringError (α × Draft) :=
  β.outcome (fun r => (r.1, β.draft r.2)) r

/-- **A step of lowering is carried to another by a blur.** -/
def Lowers (x x' : Lower α) : Prop :=
  ∀ d, x' (β.draft d) = β.lowered (x d)

variable {β} {x x' : Lower α} {symbols : Symbols}

/-- Sequences carry over when both parts do. -/
theorem Lowers.bind {k k' : α → Lower γ} (hx : β.Lowers x x') (hk : ∀ a, β.Lowers (k a) (k' a)) :
    β.Lowers (x >>= k) (x' >>= k') := by
  intro d
  have hbind : ∀ (y : Lower α) (l : α → Lower γ) (d : Draft),
      (y >>= l) d = (y d >>= fun r => l r.1 r.2) := fun _ _ _ => rfl
  rw [hbind, hbind, hx d]
  rcases x d with e | ⟨a, d'⟩
  · rfl
  · exact hk a d'

/-- A value carries over. -/
theorem lowers_pure (a : α) : β.Lowers (pure a) (pure a) := fun _ => rfl

/-- What is looked up without the draft is the same in both. -/
theorem lowers_lift {e : Except LoweringError α}
    (h : ∀ err, e = .error err → β.loweringError err = err) :
    β.Lowers (liftM e : Lower α) (liftM e) := by
  intro d
  cases e with
  | ok a => rfl
  | error err => exact congrArg Except.error (h err rfl).symm

/-- An emission that carries over does so in lowering. -/
theorem Lowers.emit {e e' : Emit α} (h : β.Emits e e') :
    β.Lowers (Lower.emit e) (Lower.emit e') := by
  intro d
  have hrun : ∀ (e : Emit α) (d : Draft), Lower.emit e d = ((e.apply d.cursor).1.mapError
      LoweringError.structure).map fun a => (a, ⟨(e.apply d.cursor).2, d.scopes⟩) := by
    intro e d
    rw [Lower.emit]
    rcases e.apply d.cursor with ⟨err | a, c⟩
    · rfl
    · rfl
  rw [hrun, hrun, show (β.draft d).cursor = β.cursor d.cursor from rfl, h d.cursor]
  rcases e.apply d.cursor with ⟨err | a, c⟩
  · rfl
  · rfl

/-- A step of the cursor carries over when it commutes with the blur. -/
theorem Lowers.onCursor {y y' : StateM Cursor α}
    (h : ∀ c, y'.run (β.cursor c) = ((y.run c).1, β.cursor (y.run c).2)) :
    β.Lowers (Lower.onCursor y) (Lower.onCursor y') := by
  intro d
  rw [Lower.onCursor_eq_ok, Lower.onCursor_eq_ok,
    show (β.draft d).cursor = β.cursor d.cursor from rfl, h d.cursor]
  rfl

/-- A change of the draft carries over when it commutes with the blur. -/
theorem lowers_modify {g g' : Draft → Draft} (h : ∀ d, g' (β.draft d) = β.draft (g d)) :
    β.Lowers (modify g : Lower PUnit) (modify g') := fun d =>
  congrArg (fun d => Except.ok (PUnit.unit, d)) (h d)

/-- A lookup in the scopes carries over: the blur leaves them alone. -/
theorem lowers_lookup (name : String) : β.Lowers (Lower.lookup name) (Lower.lookup name) := by
  intro d
  rw [Lower.lookup_eq, Lower.lookup_eq, show (β.draft d).scopes = d.scopes from rfl]
  cases d.scopes.findSome? (List.lookup name) with
  | none => rfl
  | some l => rfl

/-- A declaration in the scopes carries over. -/
theorem lowers_bind (name : String) (l : LocalId) :
    β.Lowers (Lower.bind name l) (Lower.bind name l) := by
  refine lowers_modify fun d => ?_
  obtain ⟨cursor, scopes⟩ := d
  cases scopes with
  | nil => rfl
  | cons scope outer => rfl

/-- Statements in a scope of their own carry over when they do without it. -/
theorem lowers_inScope {x x' : Lower Unit} (h : β.Lowers x x') :
    β.Lowers (Lower.inScope x) (Lower.inScope x') := by
  unfold Lower.inScope
  refine Lowers.bind (lowers_modify ?_) fun _ => h.bind fun _ => lowers_modify ?_
  · exact fun _ => rfl
  · exact fun _ => rfl

/-- The question whether the block is closed carries over. -/
theorem lowers_isClosed : β.Lowers Lower.isClosed Lower.isClosed := by
  intro d
  rw [Lower.isClosed_eq_ok, Lower.isClosed_eq_ok]
  exact congrArg (fun closed => Except.ok (closed, β.draft d)) (β.isClosed_cursor d.cursor)

/-- Going to another block carries over. -/
theorem lowers_moveTo (b : BlockId) : β.Lowers (Lower.moveTo b) (Lower.moveTo b) :=
  .onCursor fun _ => rfl

/-- A new block carries over. -/
theorem lowers_newBlock (name : String) : β.Lowers (Lower.newBlock name) (Lower.newBlock name) :=
  .onCursor fun _ => rfl

/-- Going on in an open block carries over. -/
theorem lowers_reopen : β.Lowers Lower.reopen Lower.reopen := by
  refine lowers_isClosed.bind fun closed => ?_
  cases closed with
  | true => exact (lowers_newBlock "unreachable").bind lowers_moveTo
  | false => exact lowers_pure _

/-- A jump from a block that is still open carries over. -/
theorem lowers_jumpIfOpen (target : BlockId) :
    β.Lowers (Lower.jumpIfOpen target) (Lower.jumpIfOpen target) := by
  refine lowers_isClosed.bind fun closed => ?_
  cases closed with
  | true => exact lowers_pure _
  | false => exact .emit (β.emits_jump target)

/-- What follows is located where the blur puts it. The location before is not
told apart, so what follows may not use it. -/
theorem lowers_locate {x x' : Lower α} (h : β.Lowers x x') (l : Location) :
    β.Lowers (do let _ ← Lower.onCursor (Emit.locate l); x)
      (do let _ ← Lower.onCursor (Emit.locate (β.location l)); x') := fun d =>
  h ⟨{ d.cursor with location := l }, d.scopes⟩

/-- An instruction with a result is emitted as one that the blur makes of it. -/
theorem lowers_appendTo {instr instr' : LocalId → Instruction}
    (h : ∀ dst, instr' dst = β.instr (instr dst)) :
    β.Lowers (do return Operand.var (← Lower.emit (Emit.appendTo instr)))
      (do return Operand.var (← Lower.emit (Emit.appendTo instr'))) :=
  (Lowers.emit (β.emits_appendTo h)).bind fun l => lowers_pure (Operand.var l)

/-- The blur does not change an error about a global. -/
theorem symbols_global_stays (symbols : Symbols) (module name : String) :
    ∀ err, symbols.global module name = .error err → β.loweringError err = err := by
  intro err h
  unfold Symbols.global at h
  split at h <;> cases h
  rfl

/-- The blur does not change an error about a function. -/
theorem symbols_function_stays (symbols : Symbols) (module name : String) :
    ∀ err, symbols.function module name = .error err → β.loweringError err = err := by
  intro err h
  unfold Symbols.function at h
  split at h <;> cases h
  rfl

/-! ## Expressions -/

variable {e e' lhs lhs' rhs rhs' : Expr} {es es' : List Expr}

/-- The code of an expression is carried over to that of another. -/
abbrev LowersExpr (β : Blur) (symbols : Symbols) (e e' : Expr) : Prop :=
  β.Lowers (Lower.expr symbols e) (Lower.expr symbols e')

/-- The code of some expressions is carried over to that of others. -/
structure LowersExprs (β : Blur) (symbols : Symbols) (es es' : List Expr) : Prop where
  length : es'.length = es.length
  exprs : β.Lowers (Lower.exprs symbols es) (Lower.exprs symbols es')
  elements : ∀ array i,
    β.Lowers (Lower.elements symbols array i es) (Lower.elements symbols array i es')

/-- A variable carries over to itself. -/
theorem lowers_var (v : Variable) : β.LowersExpr symbols (.var v) (.var v) := by
  cases v with
  | named name =>
    rw [LowersExpr, Lower.expr]
    exact (lowers_lookup name).bind fun l => lowers_pure (Operand.var l)
  | global module name =>
    rw [LowersExpr, Lower.expr]
    exact (lowers_lift (symbols_global_stays symbols module name)).bind fun g =>
      lowers_appendTo fun _ => rfl

/-- A call carries over when its arguments do. -/
theorem lowers_call (target : Target) (h : β.LowersExprs symbols es es') :
    β.LowersExpr symbols (.call target es) (.call target es') := by
  have hcallee : ∀ err, Lower.callee symbols target = .error err → β.loweringError err = err := by
    intro err herr
    cases target with
    | builtin name => cases herr
    | function module name =>
      rw [Lower.callee] at herr
      cases hf : symbols.function module name with
      | ok f =>
        rw [hf] at herr
        cases herr
      | error err' =>
        rw [hf] at herr
        cases herr
        exact symbols_function_stays symbols module name err hf
  rw [LowersExpr, Lower.expr, Lower.expr]
  exact (lowers_lift hcallee).bind fun callee => h.exprs.bind fun operands =>
    lowers_appendTo fun _ => rfl

/-- An array literal carries over when its elements do. -/
theorem lowers_arrayLit (h : β.LowersExprs symbols es es') :
    β.LowersExpr symbols (.arrayLit es) (.arrayLit es') := by
  rw [LowersExpr, Lower.expr, Lower.expr, h.length]
  exact (Lowers.emit (β.emits_appendTo fun _ => rfl)).bind fun array =>
    (h.elements array 0).bind fun _ => lowers_pure (Operand.var array)

/-- A new array carries over when its size does. -/
theorem lowers_newArray (h : β.LowersExpr symbols e e') :
    β.LowersExpr symbols (.newArray e) (.newArray e') := by
  rw [LowersExpr, Lower.expr, Lower.expr]
  exact h.bind fun n => lowers_appendTo fun _ => rfl

/-- An element carries over when array and index do. -/
theorem lowers_index (hlhs : β.LowersExpr symbols lhs lhs') (hrhs : β.LowersExpr symbols rhs rhs') :
    β.LowersExpr symbols (.index lhs rhs) (.index lhs' rhs') := by
  rw [LowersExpr, Lower.expr, Lower.expr]
  exact hlhs.bind fun a => hrhs.bind fun i => lowers_appendTo fun _ => rfl

theorem lowersExprs_nil : β.LowersExprs symbols [] [] := by
  refine ⟨rfl, ?_, fun array i => ?_⟩
  · rw [Lower.exprs]
    exact lowers_pure _
  · rw [Lower.elements]
    exact lowers_pure _

/-- Expressions carry over one by one. -/
theorem lowersExprs_cons (h : β.LowersExpr symbols e e') (hs : β.LowersExprs symbols es es') :
    β.LowersExprs symbols (e :: es) (e' :: es') := by
  refine ⟨congrArg Nat.succ hs.length, ?_, fun array i => ?_⟩
  · rw [Lower.exprs, Lower.exprs]
    exact h.bind fun o => hs.exprs.bind fun os => lowers_pure (o :: os)
  · rw [Lower.elements, Lower.elements]
    exact h.bind fun v => (Lowers.emit (β.emits_of_stays rfl)).bind fun _ =>
      hs.elements array (i + 1)

/-! ## Statements -/

variable {s s' : Stmt} {body body' thenBody thenBody' elseBody elseBody' : List Stmt}
variable {init init' : Option Expr} {value value' : Expr}

/-- The code of a statement is carried over to that of another. -/
abbrev LowersStmt (β : Blur) (symbols : Symbols) (s s' : Stmt) : Prop :=
  β.Lowers (Lower.stmt symbols s) (Lower.stmt symbols s')

/-- The code of a statement list is carried over to that of another. -/
abbrev LowersBody (β : Blur) (symbols : Symbols) (body body' : List Stmt) : Prop :=
  β.Lowers (Lower.body symbols body) (Lower.body symbols body')

/-- The code of an expression that may be absent is carried over to that of
another. -/
abbrev LowersOption (β : Blur) (symbols : Symbols) (init init' : Option Expr) : Prop :=
  β.Lowers (Lower.exprOrNull symbols init) (Lower.exprOrNull symbols init')

/-- A declaration carries over when its initial value does. -/
theorem lowers_declare (name : String) (h : β.LowersOption symbols init init') :
    β.LowersStmt symbols (.declare name init) (.declare name init') := by
  rw [LowersStmt, Lower.stmt, Lower.stmt]
  exact lowers_reopen.bind fun _ => h.bind fun value =>
    (Lowers.onCursor fun _ => rfl).bind fun l => (Lowers.emit (β.emits_of_stays rfl)).bind fun _ =>
      lowers_bind name l

/-- An assignment carries over when its value does. -/
theorem lowers_assign (v : Variable) (h : β.LowersExpr symbols value value') :
    β.LowersStmt symbols (.assign v value) (.assign v value') := by
  rw [LowersStmt, Lower.stmt, Lower.stmt]
  refine lowers_reopen.bind fun _ => h.bind fun o => ?_
  cases v with
  | named name => exact (lowers_lookup name).bind fun l => .emit (β.emits_of_stays rfl)
  | global module name =>
    exact (lowers_lift (symbols_global_stays symbols module name)).bind fun g =>
      .emit (β.emits_of_stays rfl)

/-- A store carries over when its three expressions do. -/
theorem lowers_assignIndex (hlhs : β.LowersExpr symbols lhs lhs')
    (hrhs : β.LowersExpr symbols rhs rhs') (hvalue : β.LowersExpr symbols value value') :
    β.LowersStmt symbols (.assignIndex lhs rhs value) (.assignIndex lhs' rhs' value') := by
  rw [LowersStmt, Lower.stmt, Lower.stmt]
  exact lowers_reopen.bind fun _ => hlhs.bind fun a => hrhs.bind fun i => hvalue.bind fun v =>
    .emit (β.emits_of_stays rfl)

/-- A branch carries over when its condition and its arms do. -/
theorem lowers_ite (hcond : β.LowersExpr symbols e e')
    (hthen : β.LowersBody symbols thenBody thenBody')
    (helse : β.LowersBody symbols elseBody elseBody') :
    β.LowersStmt symbols (.ite e thenBody elseBody) (.ite e' thenBody' elseBody') := by
  rw [LowersStmt, Lower.stmt, Lower.stmt]
  exact lowers_reopen.bind fun _ => hcond.bind fun c =>
    (lowers_newBlock _).bind fun thenBlock => (lowers_newBlock _).bind fun elseBlock =>
      (lowers_newBlock _).bind fun join =>
        (Lowers.emit (β.emits_branch c thenBlock elseBlock)).bind fun _ =>
          (lowers_moveTo thenBlock).bind fun _ => (lowers_inScope hthen).bind fun _ =>
            (lowers_jumpIfOpen join).bind fun _ => (lowers_moveTo elseBlock).bind fun _ =>
              (lowers_inScope helse).bind fun _ => (lowers_jumpIfOpen join).bind fun _ =>
                lowers_moveTo join

/-- A loop carries over when its condition and its body do. -/
theorem lowers_loop (hcond : β.LowersExpr symbols e e')
    (hbody : β.LowersBody symbols body body') :
    β.LowersStmt symbols (.loop e body) (.loop e' body') := by
  rw [LowersStmt, Lower.stmt, Lower.stmt]
  exact lowers_reopen.bind fun _ => (lowers_newBlock _).bind fun test =>
    (lowers_newBlock _).bind fun inside => (lowers_newBlock _).bind fun exit =>
      (Lowers.emit (β.emits_jump test)).bind fun _ => (lowers_moveTo test).bind fun _ =>
        hcond.bind fun c => (Lowers.emit (β.emits_branch c inside exit)).bind fun _ =>
          (lowers_moveTo inside).bind fun _ => (lowers_inScope hbody).bind fun _ =>
            (lowers_jumpIfOpen test).bind fun _ => lowers_moveTo exit

/-- A return carries over when its value does. -/
theorem lowers_ret (h : β.LowersOption symbols init init') :
    β.LowersStmt symbols (.ret init) (.ret init') := by
  rw [LowersStmt, Lower.stmt, Lower.stmt]
  exact lowers_reopen.bind fun _ => h.bind fun v => .emit (β.emits_of_stays rfl)

/-- An expression for its effect carries over when it does for its value. -/
theorem lowers_exprStmt (h : β.LowersExpr symbols e e') :
    β.LowersStmt symbols (.expr e) (.expr e') := by
  rw [LowersStmt, Lower.stmt, Lower.stmt]
  exact lowers_reopen.bind fun _ => h.bind fun _ => lowers_pure ()

theorem lowersBody_nil : β.LowersBody symbols [] [] := by
  rw [LowersBody, Lower.body]
  exact lowers_pure ()

/-- Statements carry over one by one. -/
theorem lowersBody_cons (h : β.LowersStmt symbols s s') (hrest : β.LowersBody symbols body body') :
    β.LowersBody symbols (s :: body) (s' :: body') := by
  rw [LowersBody, Lower.body, Lower.body]
  exact h.bind fun _ => hrest

theorem lowersOption_none : β.LowersOption symbols none none := lowers_pure _

theorem lowersOption_some (h : β.LowersExpr symbols e e') :
    β.LowersOption symbols (some e) (some e') := h

/-! ## Functions -/

/-- Computations that are not told apart, followed by others. -/
theorem outcome_bind (on : α → α) (on' : γ → γ) {r r' : Except LoweringError α}
    {k k' : α → Except LoweringError γ} (hr : β.outcome on r' = β.outcome on r)
    (hk : ∀ a a', on a' = on a → β.outcome on' (k' a') = β.outcome on' (k a)) :
    β.outcome on' (r' >>= k') = β.outcome on' (r >>= k) := by
  cases r with
  | error err =>
    cases r' with
    | error err' => exact congrArg Except.error (Except.error.inj hr)
    | ok a' => cases hr
  | ok a =>
    cases r' with
    | error err' => cases hr
    | ok a' => exact hk a a' (Except.ok.inj hr)

/-- **A loop carries over when each of its steps does.** -/
theorem outcome_foldlM {τ : Type} (on : α → α) {step step' : α → τ → Except LoweringError α}
    {change : τ → τ}
    (h : ∀ a a' t, on a' = on a → β.outcome on (step' a' (change t)) = β.outcome on (step a t))
    (ts : List τ) {a a' : α} (ha : on a' = on a) :
    β.outcome on ((ts.map change).foldlM step' a') = β.outcome on (ts.foldlM step a) := by
  induction ts generalizing a a' with
  | nil => exact congrArg Except.ok ha
  | cons t rest ih =>
    rw [List.map_cons, List.foldlM_cons, List.foldlM_cons]
    exact outcome_bind on on (h a a' t ha) fun b b' hb => ih hb

/-- Blurring a draft twice is blurring it once. -/
theorem draft_draft (d : Draft) : β.draft (β.draft d) = β.draft d := by
  simp only [draft, cursor, function_function, β.location_location]

/-- A body is closed at one location or at another. -/
theorem lowered_closeBody (d : Draft) :
    β.lowered (Lower.closeBody (β.draft d)) = β.lowered (Lower.closeBody d) := by
  have hclose : β.Lowers Lower.closeBody (do
      unless ← Lower.isClosed do
        let _ ← Lower.onCursor (Emit.locate (β.location .builtin))
        Lower.emit (Emit.ret .null)) := by
    refine lowers_isClosed.bind fun closed => ?_
    cases closed with
    | true => exact lowers_pure _
    | false => exact lowers_locate (.emit (β.emits_of_stays rfl)) .builtin
  rw [← hclose, ← hclose, draft_draft]

/-- Blurring an error twice is blurring it once. -/
theorem loweringError_loweringError (err : LoweringError) :
    β.loweringError (β.loweringError err) = β.loweringError err := by
  cases err with
  | «structure» e =>
    cases e with
    | malformed name b x =>
      cases x with
      | closed i => simp only [loweringError, error, flaw, instr_instr]
      | _ => rfl
    | _ => rfl
  | _ => rfl

/-- **The function is the same under the blur** if its body is carried over. -/
theorem outcome_intoFunction {x x' : Lower Unit} (h : β.Lowers x x') (name : String)
    (params : List String) (scope : Scope) :
    β.outcome β.function (Lower.intoFunction name params scope x') =
      β.outcome β.function (Lower.intoFunction name params scope x) := by
  let start : Draft := ⟨Cursor.atEntry (Function.empty name params), [scope]⟩
  have hstart : β.draft start = start := by
    simp only [start, draft, cursor, Cursor.atEntry, function_empty, β.location_unknown]
  have hbody : β.lowered ((do x'; Lower.closeBody) start) =
      β.lowered ((do x; Lower.closeBody) start) := by
    have hrun := h start
    rw [hstart] at hrun
    have hbind : ∀ y : Lower Unit, (do y; Lower.closeBody) start =
        (y start >>= fun r => Lower.closeBody r.2) := fun _ => rfl
    rw [hbind, hbind, hrun]
    rcases x start with err | ⟨-, d⟩
    · exact congrArg Except.error (loweringError_loweringError err)
    · exact lowered_closeBody d
  refine outcome_bind (fun r => (r.1, β.draft r.2)) β.function hbody fun r r' hr => ?_
  exact congrArg (fun r => Except.ok r.2.cursor.function) hr

end Blur

/-! ## Programs -/

namespace Source

/-- **A change of trees that a blur does not tell from none**: definitions keep
what they declare, and the steps that lower them are carried to those that lower
the changed ones. -/
structure Retouch (β : Blur) where
  function : FunctionDef → FunctionDef
  global : GlobalDef → GlobalDef
  function_name : ∀ f, (function f).name = f.name
  function_params : ∀ f, (function f).params = f.params
  global_name : ∀ g, (global g).name = g.name
  isSome_global_init : ∀ g, (global g).init.isSome = g.init.isSome
  lowers_body : ∀ symbols f, β.LowersBody symbols f.body (function f).body
  lowers_init : ∀ symbols id g,
    β.Lowers (GlobalDef.lowerInit symbols id g) (GlobalDef.lowerInit symbols id (global g))

namespace Retouch

open Blur Declared

variable {β : Blur} (t : Retouch β)

/-- The module with its definitions changed. -/
def module (m : Module) : Module :=
  { m with globals := m.globals.map t.global, functions := m.functions.map t.function }

/-- **The program tree with the definitions of every module changed.** -/
def program (p : Program) : Program where
  modules := p.modules.map (Program.revised fun _ => t.module)
  root := p.root

/-- A function comes to the same code up to the blur. -/
theorem outcome_lower (symbols : Symbols) (f : FunctionDef) :
    β.outcome β.function ((t.function f).lower symbols) =
      β.outcome β.function (f.lower symbols) := by
  rw [FunctionDef.lower, FunctionDef.lower, t.function_name, t.function_params]
  exact outcome_intoFunction (t.lowers_body symbols f) _ _ _

/-- The initial values of a module come to the same code up to the blur. -/
theorem outcome_lowerInit (symbols : Symbols) (id : String) (m : Module) :
    β.outcome β.function ((t.module m).lowerInit symbols id) =
      β.outcome β.function (m.lowerInit symbols id) := by
  refine outcome_intoFunction ?_ _ _ _
  show β.Lowers (m.globals.forM _) ((m.globals.map t.global).forM _)
  induction m.globals with
  | nil => exact lowers_pure _
  | cons g rest ih => exact (t.lowers_init symbols id g).bind fun _ => ih

/-! ### Declaring -/

/-- The contents of a module are declared alike. -/
theorem declareContents_retouch (d : Declared) (entry : String × Module) :
    (d.revise fun _ => t.module).declareContents (Program.revised (fun _ => t.module) entry) =
      revise (fun _ => t.module) <$> d.declareContents entry := by
  obtain ⟨id, m⟩ := entry
  have hsame : (d.revise fun _ => t.module).moduleIndex id = d.moduleIndex id := rfl
  have hglobal : ∀ i d g, declareGlobal id i (revise (fun _ => t.module) d) (t.global g) =
      revise (fun _ => t.module) <$> declareGlobal id i d g := by
    intro i d g
    rw [← declareGlobal_revise, declareGlobal, declareGlobal, t.global_name]
  have hfunction : ∀ i d f, declareFunction id i (revise (fun _ => t.module) d) (t.function f) =
      revise (fun _ => t.module) <$> declareFunction id i d f := by
    intro i d f
    rw [← declareFunction_revise, declareFunction, declareFunction, t.function_name,
      t.function_params]
  have hinit : ∀ i d, declareInit id (t.module m) i (revise (fun _ => t.module) d) =
      revise (fun _ => t.module) <$> declareInit id m i d := by
    intro i d
    have hany : (t.module m).globals.any (fun g => g.init.isSome) =
        m.globals.any fun g => g.init.isSome := by
      simp only [module, List.any_map, Function.comp_def, t.isSome_global_init]
    unfold declareInit
    rw [hany]
    split
    · simp only [assemble_revise, map_bind, bind_map_left, map_pure]
      simp [revise]
    · rfl
  have hglobals : ∀ i d, (t.module m).globals.foldlM (declareGlobal id i)
      (revise (fun _ => t.module) d) =
      revise (fun _ => t.module) <$> m.globals.foldlM (declareGlobal id i) d := by
    intro i d
    rw [module, List.foldlM_map]
    exact foldlM_revise (hglobal i) m.globals d
  have hfunctions : ∀ i d, (t.module m).functions.foldlM (declareFunction id i)
      (revise (fun _ => t.module) d) =
      revise (fun _ => t.module) <$> m.functions.foldlM (declareFunction id i) d := by
    intro i d
    rw [module, List.foldlM_map]
    exact foldlM_revise (hfunction i) m.functions d
  have himports : (t.module m).imports = m.imports := rfl
  simp only [declareContents, Program.revised, hsame, himports,
    foldlM_revise (declareImport_revise _), hglobals, hfunctions, hinit, map_bind, bind_map_left]

/-! ### Lowering -/

/-- Filling in the functions of a module comes to the same up to the blur. -/
theorem outcome_lowerFunctions (symbols : Symbols) (a a' : Assembly) (listed : String × Module)
    (ha : β.assembly a' = β.assembly a) :
    β.outcome β.assembly
        (Program.lowerFunctions symbols a' (Program.revised (fun _ => t.module) listed)) =
      β.outcome β.assembly (Program.lowerFunctions symbols a listed) := by
  refine outcome_foldlM β.assembly (fun a a' f ha => ?_) listed.2.functions ha
  rw [Program.lowerFunction, Program.lowerFunction, t.function_name]
  refine outcome_bind id β.assembly rfl fun ref ref' href => ?_
  obtain rfl : ref = ref' := href.symm
  refine outcome_bind β.function β.assembly (t.outcome_lower symbols f) fun code code' hcode => ?_
  refine congrArg Except.ok ?_
  rw [assembly_putFunction, assembly_putFunction, ha, hcode]

/-- Filling in an initializer comes to the same up to the blur. -/
theorem outcome_lowerInits (symbols : Symbols) (a a' : Assembly)
    (init : String × Module × FunctionRef) (ha : β.assembly a' = β.assembly a) :
    β.outcome β.assembly (Program.lowerInit symbols a' (init.1, t.module init.2.1, init.2.2)) =
      β.outcome β.assembly (Program.lowerInit symbols a init) := by
  refine outcome_bind β.function β.assembly (t.outcome_lowerInit symbols init.1 init.2.1)
    fun code code' hcode => ?_
  refine congrArg Except.ok ?_
  rw [assembly_putFunction, assembly_putFunction, ha, hcode]

/-- Finishing an assembly comes to the same up to the blur. -/
theorem outcome_finish {a a' : Assembly} (ha : β.assembly a' = β.assembly a) (ref : FunctionRef) :
    β.outcome β.program (Program.finish a' ref) = β.outcome β.program (Program.finish a ref) := by
  have hfinish : ∀ a : Assembly, β.outcome β.program (Program.finish a ref) =
      ((β.assembly a).finish ref).mapError fun e => β.loweringError (.structure e) := by
    intro a
    rw [finish_assembly, Program.finish]
    cases a.finish ref with
    | error e => rfl
    | ok p => rfl
  rw [hfinish, hfinish, ha]

/-- Lowering shows no instruction in its errors. -/
theorem outcome_eq_map (p : Program) (entry : String) :
    β.outcome β.program (p.lower entry) = (p.lower entry).map β.program := by
  cases hlower : p.lower entry with
  | ok lowered => rfl
  | error err =>
    obtain ⟨-, hreports⟩ := (p.lower_decides entry).of_eq_error hlower
    refine congrArg Except.error ?_
    cases err with
    | «structure» e =>
      cases e with
      | malformed name b x => cases hreports
      | _ => rfl
    | _ => rfl

/-- **The changed program tree lowers to the same code under the blur**, or fails
with the same error. -/
theorem lower_program (p : Program) (entry : String) :
    ((t.program p).lower entry).map β.program = (p.lower entry).map β.program := by
  have hreachable : (t.program p).reachable =
      List.map (Program.revised fun _ => t.module) <$> p.reachable :=
    Program.reachable_of_revised rfl (fun _ _ => rfl) fun id _ =>
      Program.module?_map_revised _ p.modules id
  have hentry : ∀ symbols, (t.program p).entryRef symbols entry = p.entryRef symbols entry :=
    fun _ => rfl
  rw [← outcome_eq_map, ← outcome_eq_map, Program.lower, Program.lower, hreachable, bind_map_left]
  refine outcome_bind id β.program rfl fun modules modules' hmodules => ?_
  obtain rfl : modules = modules' := hmodules.symm
  -- declarations do not depend on what changes, so both programs have the same
  rw [ofModules_of_contents t.declareContents_retouch, bind_map_left]
  refine outcome_bind id β.program rfl fun d d' hd => ?_
  obtain rfl : d = d' := hd.symm
  refine outcome_bind β.assembly β.program
    (outcome_foldlM β.assembly (fun a a' listed => t.outcome_lowerFunctions d.symbols a a' listed)
      modules rfl) fun a a' ha => ?_
  refine outcome_bind β.assembly β.program
    (outcome_foldlM β.assembly (fun a a' init => t.outcome_lowerInits d.symbols a a' init)
      d.inits ha) fun a a' ha => ?_
  rw [hentry]
  refine outcome_bind id β.program rfl fun ref ref' href => ?_
  obtain rfl : ref = ref' := href.symm
  exact outcome_finish ha ref

end Retouch

end Source

end BlockIR
