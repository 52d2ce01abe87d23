import BlockIR.Proofs.Source.FollowsExpr
/-!
# The code of statements does what the statements mean

The run of the code that a statement is lowered to follows the execution of the
statement: it comes to the end of the code with the locals in their slots, or to
a return of the value. Every round of a loop takes a step at least, so a loop
that goes around for longer than it may keeps the run busy for as long.
-/

namespace BlockIR

open Machine Success

namespace Source

namespace Lower

open Draft Activation

variable {s : Setting} {symbols : Symbols} {decls : Environment} {ctx : Context} {a : Activation}
variable {n : Nat} {env : Locals} {function : String} {names : List String} {d d' : Draft}
variable {fr : Frame} {σ : Store} {m : Memory}

/-- The run is at a return of a value. -/
def Returns (s : Setting) (a : Activation) (symbols : Symbols) (v : Value) (σ : Store)
    (m : Memory) : Prop :=
  ∃ fr o, fr.resume = a.resume ∧ fetch s.program fr = .ok (.ret o) ∧ fr.value? o = some v ∧
    a.Shows symbols fr σ m

/-- **Where a run of the code of statements ends**: at the end of the code, which
is open there, or at a return. -/
def Completes (s : Setting) (a : Activation) (symbols : Symbols) (d : Draft) :
    Completion → Store → Memory → Prop
  | .next env, σ, m => d.IsOpen ∧ ∃ fr, a.Stands d env fr ∧ a.Shows symbols fr σ m
  | .ret v, σ, m => Returns s a symbols v σ m

/-- **Where a run of an arm ends**: one step before the block where the arms meet,
or at a return. -/
def Departs (s : Setting) (a : Activation) (symbols : Symbols) (target : BlockId)
    (scopes : List Scope) : Completion → Store → Memory → Prop
  | .next env, σ, m => ∃ fr m', (step s).apply m = (.ok none, m') ∧ a.At target 0 scopes env fr ∧
      a.Shows symbols fr σ m'
  | .ret v, σ, m => Returns s a symbols v σ m

/-- In an open block lowering goes on at once. -/
theorem reopen_bind {α : Type} (hopen : d.IsOpen) (x : Lower α) :
    (reopen >>= fun _ => x) d = x d := by
  have hreopen : reopen d = .ok ((), d) := reopen_eq_ok (isClosed_of_isOpen hopen)
  change (reopen d >>= fun p => x p.2) = x d
  rw [hreopen]
  rfl

/-- The run takes a branch as the condition says. -/
theorem branch_follows {c : Operand} {v : Value} {t e : BlockId} (hplaced : a.Placed s)
    (hin : d'.In a.code) (hnext : d.Next (.branch c t e) d') (hfr : a.Stands d env fr)
    (hv : fr.value? c = some v) (hm : a.Shows symbols fr σ m) :
    Follows s n m (Eval.truth v) σ fun holds σ' m' =>
      ∃ fr', a.At (if holds then t else e) 0 d.scopes env fr' ∧ a.Shows symbols fr' σ' m' := by
  obtain ⟨globals, rfl, hglobals⟩ := hm
  have hstep : (step s).apply (.ofFrames (fr :: a.rest) globals σ.world) = _ :=
    (apply_step (hfr.fetch hplaced hin hnext)).trans
      (execute_branch ((fr.value?_advance c).trans hv))
  cases v with
  | int i =>
    refine .of_reaches (reaches_of_step hstep) (.pure ⟨_, ?_, globals, rfl, hglobals⟩)
    by_cases hi : i = 0
    · simpa [hi] using hfr.goto e
    · simpa [hi] using hfr.goto t
  | str _ => exact .throw hstep rfl
  | array _ => exact .throw hstep rfl
  | null => exact .throw hstep rfl

/-- **The run of an arm follows its statements** if that of their code does. -/
theorem arm_follows {part : Lower Unit} {x : Eval Completion} {target : BlockId} {inner : Draft}
    (hplaced : a.Placed s) (hd : d.Sound symbols) (harm : Arm symbols part target d inner d')
    (hin : d'.In a.code)
    (hpart : inner.In a.code → a.Stands (openScope d) env fr →
      Follows s n m x σ (Completes s a symbols inner))
    (hfr : a.Stands d env fr) :
    Follows s n m (do return (← x).leave env) σ (Departs s a symbols target d.scopes) := by
  have hin' : (closeScope inner).In a.code := hin.of_extends harm.leave.extend
  have hopened : a.Stands (openScope d) env fr :=
    ⟨hfr.function, hfr.resume, hfr.size, hfr.block, hfr.next, hfr.locals⟩
  refine (hpart (hin'.of_eq rfl) hopened).bind fun completion σ' m' h => .pure ?_
  cases completion with
  | ret v => exact h
  | next env' =>
    obtain ⟨hopen, fr', hfr', globals, rfl, hglobals⟩ := h
    have hscopes : inner.scopes.tail = d.scopes := harm.scopes
    obtain ⟨top, htop⟩ : ∃ top, inner.scopes = top :: d.scopes := by
      cases hinner : inner.scopes with
      | nil =>
        rw [hinner] at hscopes
        exact absurd hscopes.symm hd.nonempty
      | cons top outer =>
        rw [hinner] at hscopes
        exact ⟨top, congrArg (top :: ·) hscopes⟩
    have hclosed : a.Stands (closeScope inner) (env.leave env') fr' := by
      refine ⟨hfr'.function, hfr'.resume, hfr'.size, hfr'.block, hfr'.next, ?_⟩
      have hlocals := hfr'.locals
      rw [htop, List.flatten_cons] at hlocals
      rw [closeScope, hscopes]
      exact hlocals.leave hfr.locals.length_eq.symm
    refine ⟨_, _, (apply_step (hclosed.fetch hplaced hin (harm.jump hopen))).trans
      (execute_jump target), ?_, globals, rfl, hglobals⟩
    rw [← hscopes]
    exact hclosed.goto target

/-- A declaration: a copy to a new slot, which then has the name. -/
theorem declare_eq_ok {o : Operand} {top : Scope} {outer : List Scope} (hd : d.Sound symbols)
    (hopen : d.IsOpen) (name : String) (hscopes : d.scopes = top :: outer) :
    (do
      let l ← onCursor Emit.freshLocal
      emit (Emit.copy l o)
      bind name l : Lower Unit) d =
      .ok ((), ⟨d.cursor.assign fun l => .copy l o,
        ((name, d.cursor.function.numLocals) :: top) :: outer⟩) := by
  have hwide := emitted_widen hd hopen
  refine run_bind_eq_ok.mpr ⟨_, _, onCursor_eq_ok Emit.freshLocal d, run_bind_eq_ok.mpr
    ⟨(), _, emit_append_eq_ok hwide.isOpen _, ?_⟩⟩
  exact bind_eq_ok name _ hscopes

/-- **The code of a statement is followed**, wherever in the code of the call it
stands and control gets to it. -/
def StmtFollowed (s : Setting) (symbols : Symbols) (ctx : Context) (a : Activation) (n : Nat)
    (t : Stmt) : Prop :=
  ∀ {env : Locals} {d d' : Draft} {fr : Frame} {σ : Store} {m : Memory},
    stmt symbols t d = .ok ((), d') → d.Sound symbols → d.IsOpen → d'.In a.code →
    a.Stands d env fr → a.Shows symbols fr σ m →
    Follows s n m (t.exec ctx env) σ (Completes s a symbols d')

/-- The code of some statements is followed. -/
def BodyFollowed (s : Setting) (symbols : Symbols) (ctx : Context) (a : Activation) (n : Nat)
    (ss : List Stmt) : Prop :=
  ∀ {env : Locals} {d d' : Draft} {fr : Frame} {σ : Store} {m : Memory},
    body symbols ss d = .ok ((), d') → d.Sound symbols → d.IsOpen → d'.In a.code →
    a.Stands d env fr → a.Shows symbols fr σ m →
    Follows s n m (Stmt.execAll ctx ss env) σ (Completes s a symbols d')

/-- No statements are followed by no code. -/
theorem nil_followed : BodyFollowed s symbols ctx a n [] := by
  intro env d d' fr σ m hrun hd hopen hin hfr hm
  rw [body] at hrun
  cases hrun
  rw [Stmt.execAll]
  exact .pure ⟨hopen, fr, hfr, hm⟩

/-- A located statement does what it would do without its location. -/
theorem located_followed {inner : Stmt} (hinner : StmtFollowed s symbols ctx a n inner)
    (location : Location) : StmtFollowed s symbols ctx a n (.located location inner) := by
  intro env d d' fr σ m hrun hd hopen hin hfr hm
  rw [stmt, reopen_bind hopen, run_bind_eq_ok] at hrun
  obtain ⟨previous, d₁, hlocate, hrun⟩ := hrun
  cases (onCursor_eq_ok (Emit.locate location) d).symm.trans hlocate
  rw [run_bind_eq_ok] at hrun
  obtain ⟨_, d₂, hstmt, hrun⟩ := hrun
  cases hrun
  rw [Stmt.exec]
  refine (hinner hstmt (hd.locate location) hopen (hin.of_eq rfl) ?_ hm).imp ?_
  · exact ⟨hfr.function, hfr.resume, hfr.size, hfr.block, hfr.next, hfr.locals⟩
  · rintro (env' | v) σ' m' h
    · exact h
    · exact h

variable (hsetup : Setup s symbols decls ctx a n)
include hsetup

/-- The run follows an expression that may be absent. -/
theorem exprOrNull_follows {o : Operand} (e : Option Expr)
    (hrun : exprOrNull symbols e d = .ok (o, d')) (hd : d.Working symbols function names)
    (hin : d'.In a.code) (hfr : a.Stands d env fr) (hm : a.Shows symbols fr σ m) :
    Follows s n m (Expr.evalOrNull ctx env e) σ (Arrives a symbols env d d' o fr) := by
  cases e with
  | none =>
    cases hrun
    exact .pure ⟨fr, .refl hfr, rfl, hm⟩
  | some e => exact expr_follows hsetup e hrun hd hin hfr hm

/-- The run of a store to a global follows it. -/
theorem storeGlobal_follows {module name : String} {o : Operand} {v : Value}
    (hrun : assign symbols o (.global module name) d = .ok ((), d'))
    (hd : d.Working symbols function names) (hin : d'.In a.code) (hfr : a.Stands d env fr)
    (hv : fr.value? o = some v) (hm : a.Shows symbols fr σ m) :
    Follows s n m (Eval.writeGlobal module name v) σ fun _ σ' m' =>
      ∃ fr', a.Stands d' env fr' ∧ a.Shows symbols fr' σ' m' := by
  obtain ⟨globals, rfl, hglobals⟩ := hm
  rw [assign, run_bind_eq_ok] at hrun
  obtain ⟨g, d₁, hglobal, hrun⟩ := hrun
  obtain ⟨-, rfl, hg⟩ :=
    (global_yields hsetup.known module name : Yields _ function _ _ _ _).of_eq_ok hglobal
  cases (emit_append_eq_ok hd.isOpen _).symm.trans hrun
  have hfetch := hfr.fetch hsetup.placed hin (next_append hd.sound _)
  obtain ⟨w, hw, -⟩ := hglobals.read hg
  refine .of_reaches (reaches_of_execute hfetch (execute_storeGlobal
    ((fr.value?_advance o).trans hv) (hglobals.bound _ g hg))) (.of_ok (Eval.apply_writeGlobal hw) ?_)
  exact ⟨fr.advance, hfr.append hd.sound _, _, rfl, hglobals.write hg v⟩

/-- The run of an assignment follows it. -/
theorem assign_follows {o : Operand} {v : Value} (target : Variable)
    (hrun : assign symbols o target d = .ok ((), d')) (hd : d.Working symbols function names)
    (ho : ∀ l ∈ o.local?, l < d.cursor.function.numLocals) (hin : d'.In a.code)
    (hfr : a.Stands d env fr) (hv : fr.value? o = some v) (hm : a.Shows symbols fr σ m) :
    Follows s n m (target.assign env v) σ fun env' σ' m' =>
      d'.IsOpen ∧ ∃ fr', a.Stands d' env' fr' ∧ a.Shows symbols fr' σ' m' := by
  have hopen : d'.IsOpen := ((assign_yields hsetup.known hd
    ⟨.refl hd.sound hd.isOpen, ho⟩ target).of_eq_ok hrun).2.isOpen
  refine Follows.imp ?_ fun env' σ' m' h => ⟨hopen, h⟩
  cases target with
  | named name =>
    obtain ⟨globals, rfl, hglobals⟩ := hm
    rw [assign, run_bind_eq_ok] at hrun
    obtain ⟨l, d₁, hlookup, hrun⟩ := hrun
    obtain ⟨-, rfl, hl, hfind⟩ :=
      (lookup_yields hd.sound hd.function name : Yields decls _ _ _ _ _).of_eq_ok hlookup
    cases (emit_append_eq_ok hd.isOpen _).symm.trans hrun
    rw [findSome?_lookup] at hfind
    have hlt : l < fr.locals.size := by
      rw [hfr.size]
      exact Nat.lt_of_lt_of_le hl hin.numLocals
    have hfetch := hfr.fetch hsetup.placed hin (next_append hd.sound _)
    obtain ⟨w, hw, -⟩ := hfr.locals.lookup hfind
    rw [Variable.assign, hw]
    refine .of_reaches (reaches_of_execute hfetch
      (execute_copy ((fr.value?_advance o).trans hv) hlt)) (.pure ⟨_, ?_, globals, rfl, hglobals⟩)
    exact (hfr.append hd.sound _).write (hfr.locals.set hd.sound.distinct hfind hlt)
  | global module name =>
    exact (storeGlobal_follows hsetup hrun hd hin hfr hv hm).bind fun _ σ' m' h => .pure h

/-! ## Statements -/

/-- The run follows a declaration. -/
theorem declare_followed (name : String) (init : Option Expr) :
    StmtFollowed s symbols ctx a n (.declare name init) := by
  intro env d d' fr σ m hrun hd hopen hin hfr hm
  rw [stmt, reopen_bind hopen, run_bind_eq_ok] at hrun
  obtain ⟨o, d₁, hinit, hrun⟩ := hrun
  have hw := hd.working hopen
  have h₁ := ((exprOrNull_yields hsetup.known init hw).of_eq_ok hinit).2
  have hd₁ := h₁.emitted.sound
  have hopen₁ := h₁.emitted.isOpen
  obtain ⟨top, outer, hscopes⟩ := List.exists_cons_of_ne_nil hd₁.nonempty
  cases (declare_eq_ok hd₁ hopen₁ name hscopes).symm.trans hrun
  have hin₂ : (d₁.on (d₁.cursor.assign fun l => .copy l o)).In a.code := hin.of_eq rfl
  rw [Stmt.exec]
  refine (exprOrNull_follows hsetup init hinit hw (hin₂.of_assign hd₁ hopen₁) hfr hm).bind ?_
  rintro v σ₁ m₁ ⟨fr₁, hpassed₁, hv, globals, rfl, hglobals⟩
  obtain ⟨hpassed₂, hvalue⟩ := hpassed₁.stands.assign hd₁ hin₂ v
  have hfetch := hpassed₁.stands.fetch hsetup.placed hin₂ (next_assign hd₁ hopen₁ _)
  refine .of_reaches (reaches_of_execute hfetch (execute_copy ((fr₁.value?_advance o).trans hv)
    (hpassed₁.stands.lt_size hin₂))) (.pure ⟨(copy_emitted hd₁ hopen₁ h₁.operand).isOpen, _, ?_,
      globals, rfl, hglobals⟩)
  -- the new slot has the name from here on, and the others keep theirs
  have hfr₂ := hpassed₂.stands
  have hlocals := hfr₂.locals
  rw [scopes_on, hscopes] at hlocals
  exact ⟨hfr₂.function, hfr₂.resume, hfr₂.size, hfr₂.block, hfr₂.next, .cons ⟨rfl, hvalue⟩ hlocals⟩

/-- The run follows an assignment. -/
theorem assign_followed (target : Variable) (value : Expr) :
    StmtFollowed s symbols ctx a n (.assign target value) := by
  intro env d d' fr σ m hrun hd hopen hin hfr hm
  rw [stmt, reopen_bind hopen, run_bind_eq_ok] at hrun
  obtain ⟨o, d₁, hvalue, hrun⟩ := hrun
  have hw := hd.working hopen
  have h₁ := ((expr_yields hsetup.known value hw).of_eq_ok hvalue).2
  have hw₁ := hw.emitted h₁.emitted
  have h₂ := ((assign_yields hsetup.known hw₁ ⟨.refl hw₁.sound hw₁.isOpen, h₁.operand⟩
    target).of_eq_ok hrun).2
  rw [Stmt.exec]
  refine (expr_follows hsetup value hvalue hw (hin.of_extends h₂.extend) hfr hm).bind ?_
  rintro v σ₁ m₁ ⟨fr₁, hpassed₁, hv, hm₁⟩
  exact (assign_follows hsetup target hrun hw₁ h₁.operand hin hpassed₁.stands hv hm₁).bind
    fun env' σ' m' h => .pure h

/-- The run follows a store. -/
theorem assignIndex_followed (array index value : Expr) :
    StmtFollowed s symbols ctx a n (.assignIndex array index value) := by
  intro env d d' fr σ m hrun hd hopen hin hfr hm
  rw [stmt, reopen_bind hopen, run_bind_eq_ok] at hrun
  obtain ⟨o₁, d₁, harray, hrun⟩ := hrun
  rw [run_bind_eq_ok] at hrun
  obtain ⟨o₂, d₂, hindex, hrun⟩ := hrun
  rw [run_bind_eq_ok] at hrun
  obtain ⟨o₃, d₃, hvalue, hrun⟩ := hrun
  have hw := hd.working hopen
  have h₁ := ((expr_yields hsetup.known array hw).of_eq_ok harray).2
  have hw₁ := hw.emitted h₁.emitted
  have h₂ := ((expr_yields hsetup.known index hw₁).of_eq_ok hindex).2
  have hw₂ := hw₁.emitted h₂.emitted
  have h₃ := ((expr_yields hsetup.known value hw₂).of_eq_ok hvalue).2
  have hw₃ := hw₂.emitted h₃.emitted
  have hstore := storeArray_emitted hw₃.sound hw₃.isOpen
    (h₁.operand_of_emitted (h₂.emitted.trans h₃.emitted)) (h₂.operand_of_emitted h₃.emitted)
    h₃.operand
  cases (emit_append_eq_ok hw₃.isOpen _).symm.trans hrun
  have hin₃ := hin.of_extends hstore.extend
  have hin₂ := hin₃.of_extends h₃.emitted.extend
  rw [Stmt.exec]
  refine (expr_follows hsetup array harray hw (hin₂.of_extends h₂.emitted.extend) hfr hm).bind ?_
  rintro v₁ σ₁ m₁ ⟨fr₁, hpassed₁, hv₁, hm₁⟩
  refine (expr_follows hsetup index hindex hw₁ hin₂ hpassed₁.stands hm₁).bind ?_
  rintro v₂ σ₂ m₂ ⟨fr₂, hpassed₂, hv₂, hm₂⟩
  refine (expr_follows hsetup value hvalue hw₂ hin₃ hpassed₂.stands hm₂).bind ?_
  rintro v₃ σ₃ m₃ ⟨fr₃, hpassed₃, hv₃, hm₃⟩
  refine (store_follows hsetup.placed hw₃.sound hin hpassed₃.stands hm₃
    (hpassed₃.value? (h₁.operand_of_emitted h₂.emitted) (hpassed₂.value? h₁.operand hv₁))
    (hpassed₃.value? h₂.operand hv₂) hv₃).bind ?_
  rintro _ σ₄ m₄ ⟨fr₄, hpassed₄, hm₄⟩
  exact .pure ⟨hstore.isOpen, fr₄, hpassed₄.stands, hm₄⟩

/-- The run follows a return, to the end of the call. -/
theorem ret_followed (value : Option Expr) : StmtFollowed s symbols ctx a n (.ret value) := by
  intro env d d' fr σ m hrun hd hopen hin hfr hm
  rw [stmt, reopen_bind hopen, run_bind_eq_ok] at hrun
  obtain ⟨o, d₁, hvalue, hrun⟩ := hrun
  have hw := hd.working hopen
  have h₁ := ((exprOrNull_yields hsetup.known value hw).of_eq_ok hvalue).2
  have hw₁ := hw.emitted h₁.emitted
  cases (emit_eq_ok (Emit.apply_ret hw₁.isOpen o)).symm.trans hrun
  have hin₁ := hin.of_extends (Cursor.extends_close hw₁.sound.drafted hw₁.isOpen nofun)
  rw [Stmt.exec]
  refine (exprOrNull_follows hsetup value hvalue hw hin₁ hfr hm).bind ?_
  rintro v σ₁ m₁ ⟨fr₁, hpassed₁, hv, hm₁⟩
  exact .pure ⟨fr₁, o, hpassed₁.stands.resume,
    hpassed₁.stands.fetch hsetup.placed hin (next_close hw₁.sound hw₁.isOpen nofun), hv, hm₁⟩

/-- The run follows an expression for its effect. -/
theorem expr_followed (e : Expr) : StmtFollowed s symbols ctx a n (.expr e) := by
  intro env d d' fr σ m hrun hd hopen hin hfr hm
  rw [stmt, reopen_bind hopen, run_bind_eq_ok] at hrun
  obtain ⟨o, d₁, hvalue, hrun⟩ := hrun
  cases hrun
  have hw := hd.working hopen
  have h₁ := ((expr_yields hsetup.known e hw).of_eq_ok hvalue).2
  rw [Stmt.exec]
  refine (expr_follows hsetup e hvalue hw hin hfr hm).bind ?_
  rintro v σ₁ m₁ ⟨fr₁, hpassed₁, -, hm₁⟩
  exact .pure ⟨h₁.emitted.isOpen, fr₁, hpassed₁.stands, hm₁⟩

/-- **The run of a branch follows it** if those of its arms do. -/
theorem ite_followed {cond : Expr} {thenBody elseBody : List Stmt}
    (hthen : BodyFollowed s symbols ctx a n thenBody)
    (helse : BodyFollowed s symbols ctx a n elseBody) :
    StmtFollowed s symbols ctx a n (.ite cond thenBody elseBody) := by
  intro env d d' fr σ m hrun hd hopen hin hfr hm
  rw [stmt, reopen_bind hopen, run_bind_eq_ok] at hrun
  obtain ⟨c, d₁, hcond, hrun⟩ := hrun
  have hw := hd.working hopen
  have h₁ := ((expr_yields hsetup.known cond hw).of_eq_ok hcond).2
  have hw₁ := hw.emitted h₁.emitted
  obtain ⟨-, -, -, b, forked, inner₁, after₁, inner₂, after₂, hb, rfl⟩ :=
    (ite_yields hw₁ h₁.operand (fun d' hd' => body_yields hsetup.known thenBody hd')
      (fun d' hd' => body_yields hsetup.known elseBody hd')).of_eq_ok hrun
  have hin₂ : after₂.In a.code := hin.of_eq rfl
  have hin₁ : after₁.In a.code := (hin₂.of_extends hb.elseArm.sealed.extend).of_eq rfl
  have hin₀ : forked.In a.code := (hin₁.of_extends hb.thenArm.sealed.extend).of_eq rfl
  have hscopes₁ : after₁.scopes = d₁.scopes := hb.thenArm.sealed.scopes.trans hb.scopes
  have hscopes₂ : after₂.scopes = d₁.scopes := hb.elseArm.sealed.scopes.trans hscopes₁
  have hmeet : ∀ completion σ' m', Departs s a symbols (b + 2) d₁.scopes completion σ' m' →
      ∃ m'', Reaches s m' m'' ∧
        Completes s a symbols (after₂.on (after₂.cursor.moveTo (b + 2))) completion σ' m'' := by
    rintro (env' | v) σ' m' h
    · obtain ⟨fr', m'', hstep, hfr', hm'⟩ := h
      exact ⟨m'', reaches_of_step hstep, hb.joinFresh.isOpen, fr',
        hfr'.stands hb.joinFresh hscopes₂, hm'⟩
    · exact ⟨m', .refl s m', h⟩
  rw [Stmt.exec]
  refine (expr_follows hsetup cond hcond hw (hin₀.of_extends hb.extend) hfr hm).bind ?_
  rintro v σ₁ m₁ ⟨fr₁, hpassed₁, hv, hm₁⟩
  refine (branch_follows hsetup.placed hin₀ hb.branch hpassed₁.stands hv hm₁).bind ?_
  rintro (_ | _) σ₂ m₂ ⟨fr₂, hfr₂, hm₂⟩
  · have hsound := hb.thenArm.sealed.sound.moveTo hb.elseFresh.isOpen
    refine Follows.onward (arm_follows hsetup.placed hsound hb.elseArm hin₂
      (fun hin' hfr' => ?_) (hfr₂.stands hb.elseFresh hscopes₁)) (hscopes₁ ▸ hmeet)
    exact helse hb.elseArm.run (openScope_sound hsound) hb.elseFresh.isOpen hin' hfr' hm₂
  · have hsound := hb.sound.moveTo hb.thenFresh.isOpen
    refine Follows.onward (arm_follows hsetup.placed hsound hb.thenArm hin₁
      (fun hin' hfr' => ?_) (hfr₂.stands hb.thenFresh hb.scopes)) (hb.scopes ▸ hmeet)
    exact hthen hb.thenArm.run (openScope_sound hsound) hb.thenFresh.isOpen hin' hfr' hm₂

/-- The run of the rounds of a loop follows them, as many as it may take at most. -/
theorem rounds_follow {cond : Expr} {bodyPart : Lower Unit} {x : Locals → Eval Completion}
    {b : BlockId} {forked tested branched inner after : Draft} {c : Operand}
    (hl : Looped symbols (expr symbols cond) bodyPart b d forked tested branched inner after c)
    (hin : after.In a.code)
    (hbody : ∀ {env : Locals} {fr : Frame} {σ : Store} {m : Memory}, inner.In a.code →
      a.Stands (openScope (branched.on (branched.cursor.moveTo (b + 1)))) env fr →
      a.Shows symbols fr σ m → Follows s n m (x env) σ (Completes s a symbols inner))
    (r : Nat) (hr : r ≤ n) {env : Locals} {fr : Frame} {σ : Store} {m : Memory}
    (hfr : a.At b 0 forked.scopes env fr) (hm : a.Shows symbols fr σ m) :
    Follows s r m (Eval.loop (fun env => do Eval.truth (← cond.eval ctx env))
      (fun env => do return (← x env).leave env) r env) σ
      (Completes s a symbols (after.on (after.cursor.moveTo (b + 2)))) := by
  induction r generalizing env fr σ m with
  | zero => rfl
  | succ r ih =>
    have hin₂ : branched.In a.code := (hin.of_extends hl.arm.sealed.extend).of_eq rfl
    have hin₁ : tested.In a.code := hin₂.of_extends hl.close.extend
    have hw := (hl.sound.moveTo hl.testFresh.isOpen).working hl.testFresh.isOpen
    have hscopes : tested.scopes = forked.scopes := hl.test.emitted.scopes
    have htest : Follows s n m (do Eval.truth (← cond.eval ctx env)) σ fun holds σ' m' =>
        ∃ fr', a.At (if holds then b + 1 else b + 2) 0 tested.scopes env fr' ∧
          a.Shows symbols fr' σ' m' := by
      refine (expr_follows hsetup cond hl.run hw hin₁ (hfr.stands hl.testFresh rfl) hm).bind ?_
      rintro v σ₁ m₁ ⟨fr₁, hpassed₁, hv, hm₁⟩
      exact branch_follows hsetup.placed hin₂ hl.branch hpassed₁.stands hv hm₁
    rw [Eval.loop]
    refine (htest.mono hr).bind ?_
    rintro (_ | _) σ₁ m₁ ⟨fr₁, hfr₁, hm₁⟩
    · have hexit : after.scopes = tested.scopes := hl.arm.sealed.scopes.trans hl.close.scopes
      exact .pure ⟨hl.exitFresh.isOpen, fr₁, hfr₁.stands hl.exitFresh hexit, hm₁⟩
    · have hbegin := hfr₁.stands hl.bodyFresh hl.close.scopes
      have hround := arm_follows hsetup.placed (hl.close.sound.moveTo hl.bodyFresh.isOpen) hl.arm hin
        (fun hin' hfr' => hbody hin' hfr' hm₁) hbegin
      refine (hround.mono hr).bind ?_
      rintro (env' | v) σ₂ m₂ h
      · -- the jump back to the condition is the step that pays for the round
        obtain ⟨fr₂, m₃, hstep, hfr₂, hm₂⟩ := h
        rw [scopes_on, hl.close.scopes, hscopes] at hfr₂
        exact (ih (Nat.le_of_succ_le hr) hfr₂ hm₂).of_step hstep
      · exact .pure h

/-- **The run of a loop follows it** if that of its body does. -/
theorem loop_followed {cond : Expr} {loopBody : List Stmt}
    (hbody : BodyFollowed s symbols ctx a n loopBody) :
    StmtFollowed s symbols ctx a n (.loop cond loopBody) := by
  intro env d d' fr σ m hrun hd hopen hin hfr hm
  rw [stmt, reopen_bind hopen] at hrun
  obtain ⟨-, -, -, b, forked, tested, branched, inner, after, c, hl, rfl⟩ :=
    (loop_yields (hd.working hopen) (fun d' hd' => expr_yields hsetup.known cond hd')
      (fun d' hd' => body_yields hsetup.known loopBody hd')).of_eq_ok hrun
  have hin₃ : after.In a.code := hin.of_eq rfl
  have hin₂ : branched.In a.code := (hin₃.of_extends hl.arm.sealed.extend).of_eq rfl
  have hin₁ : tested.In a.code := hin₂.of_extends hl.close.extend
  have hin₀ : forked.In a.code := (hin₁.of_extends hl.test.emitted.extend).of_eq rfl
  obtain ⟨globals, rfl, hglobals⟩ := hm
  have hfetch := hfr.fetch hsetup.placed hin₀ hl.jump
  have hbegin : a.At b 0 forked.scopes env (fr.advance.goto b) := hl.scopes ▸ hfr.goto b
  have hsound := hl.close.sound.moveTo hl.bodyFresh.isOpen
  rw [Stmt.exec, hsetup.rounds]
  refine .of_reaches (reaches_of_execute hfetch (execute_jump b)) (rounds_follow hsetup hl hin₃
    (fun hin' hfr' hm' => ?_) n (Nat.le_refl n) hbegin ⟨globals, rfl, hglobals⟩)
  exact hbody hl.arm.run (openScope_sound hsound) hl.bodyFresh.isOpen hin' hfr' hm'

/-- The run follows statements one by one. -/
theorem cons_followed {t : Stmt} {rest : List Stmt} (hfirst : StmtFollowed s symbols ctx a n t)
    (hrest : BodyFollowed s symbols ctx a n rest) :
    BodyFollowed s symbols ctx a n (t :: rest) := by
  intro env d d' fr σ m hrun hd hopen hin hfr hm
  rw [body, run_bind_eq_ok] at hrun
  obtain ⟨_, d₁, hstmt, hrun⟩ := hrun
  have h₁ := ((stmt_yields hsetup.known t (hd.working hopen).toStanding).of_eq_ok hstmt).2
  have hd₁ := h₁.progress.sound
  have h₂ := ((body_yields hsetup.known rest ⟨hd₁, rfl, rfl⟩).of_eq_ok hrun).2
  rw [Stmt.execAll]
  refine (hfirst hstmt hd hopen (hin.of_extends h₂.extend) hfr hm).bind ?_
  rintro (env' | v) σ₁ m₁ h
  · obtain ⟨hopen₁, fr₁, hfr₁, hm₁⟩ := h
    exact hrest hrun hd₁ hopen₁ hin hfr₁ hm₁
  · exact .pure h

mutual

/-- **The run of the code of a statement follows its execution.** -/
theorem stmt_follows : ∀ t : Stmt, StmtFollowed s symbols ctx a n t
  | .declare name init => declare_followed hsetup name init
  | .assign target value => assign_followed hsetup target value
  | .assignIndex array index value => assignIndex_followed hsetup array index value
  | .ite _ thenBody elseBody =>
    ite_followed hsetup (body_follows thenBody) (body_follows elseBody)
  | .loop _ loopBody => loop_followed hsetup (body_follows loopBody)
  | .ret value => ret_followed hsetup value
  | .expr e => expr_followed hsetup e
  | .located location inner => located_followed (stmt_follows inner) location

/-- The run follows statements. -/
theorem body_follows : ∀ ss : List Stmt, BodyFollowed s symbols ctx a n ss
  | [] => nil_followed
  | t :: rest => cons_followed hsetup (stmt_follows t) (body_follows rest)

end

end Lower

end Source

end BlockIR
