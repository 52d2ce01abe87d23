import BlockIR.Proofs.Source.Activation
/-!
# The code of an expression does what the expression means

The run of the code that an expression is lowered to follows the evaluation of
the expression. A local is read from its slot late, by the instruction that uses
it, so the proof carries that the code of an expression writes only slots that
were not there before.
-/

namespace BlockIR

open Machine Success

namespace Source

/-- A call of a function or of a builtin operation. -/
def Context.invoke (ctx : Context) (target : Target) (args : List Value) : Eval Value :=
  match target with
  | .function module name => ctx.call module name args
  | .builtin name => Eval.effect (ctx.table.call name args)

/-- A call evaluates its arguments first, whatever it runs. -/
theorem Expr.eval_call (ctx : Context) (env : Locals) (target : Target) (args : List Expr) :
    (Expr.call target args).eval ctx env =
      (do ctx.invoke target (← Expr.evalAll ctx env args)) := by
  cases target with
  | function module name =>
    rw [Expr.eval]
    rfl
  | builtin name =>
    rw [Expr.eval]
    rfl

/-- **Calls are followed** where some number of calls are in progress: wherever a
run is about to call a function, it follows the call, and comes back past the
instruction with the result in its slot. -/
def CallsFollow (s : Setting) (symbols : Symbols) (n height : Nat)
    (call : String → String → List Value → Eval Value) : Prop :=
  ∀ module name ref, symbols.functions.lookup (module, name) = some ref →
    ∀ (a : Activation) (fr : Frame) (dst : LocalId) (ops : List Operand) (vs : List Value)
      (σ : Store) (m : Memory), a.rest.length + 1 = height → a.Shows symbols fr σ m →
      fetch s.program fr = .ok (.call (some dst) (.function ref) ops) → fr.Values ops vs →
      dst < fr.locals.size →
      Follows s n m (call module name vs) σ fun v σ' m' =>
        a.Shows symbols (fr.advance.write dst v) σ' m'

/-- **What the code of a call is run in**: the code is that of its function, builtin
operations and the rounds of loops are those of the evaluation, and calls are
followed. -/
structure Setup (s : Setting) (symbols : Symbols) (decls : Environment) (ctx : Context)
    (a : Activation) (n : Nat) : Prop where
  known : symbols.Matches decls
  placed : a.Placed s
  table : ctx.table = s.table
  rounds : ctx.rounds = n
  calls : CallsFollow s symbols n (a.rest.length + 1) ctx.call

namespace Lower

open Draft Activation

variable {s : Setting} {symbols : Symbols} {decls : Environment} {ctx : Context} {a : Activation}
variable {n : Nat} {env : Locals} {function : String} {names : List String} {d : Draft}
variable {fr : Frame} {σ : Store} {m : Memory}

/-- Where a run of the code of an expression ends. -/
def Arrives (a : Activation) (symbols : Symbols) (env : Locals) (d d' : Draft) (o : Operand)
    (fr : Frame) (v : Value) (σ : Store) (m : Memory) : Prop :=
  ∃ fr', a.Passed d d' env fr fr' ∧ fr'.value? o = some v ∧ a.Shows symbols fr' σ m

/-- Code before that of an expression is passed too. -/
theorem Arrives.trans {d₁ d₂ : Draft} {o : Operand} {fr₁ : Frame} {v : Value}
    (h : Arrives a symbols env d₁ d₂ o fr₁ v σ m) (hpassed : a.Passed d d₁ env fr fr₁)
    (hextends : d.cursor.Extends d₁.cursor) : Arrives a symbols env d d₂ o fr v σ m := by
  obtain ⟨fr', hpassed', hvalue, hm⟩ := h
  exact ⟨fr', hpassed.trans hpassed' hextends, hvalue, hm⟩

/-- An action on the world whose result goes to a new slot. -/
theorem compute_follows {instr : LocalId → Instruction} {e : Effect Value} (hplaced : a.Placed s)
    (hd : d.Working symbols function names) (hin : (d.on (d.cursor.assign instr)).In a.code)
    (hfr : a.Stands d env fr) (hm : a.Shows symbols fr σ m)
    (hexec : d.cursor.function.numLocals < fr.locals.size → ∀ globals,
      (execute s (instr d.cursor.function.numLocals)).apply
          (.ofFrames (fr.advance :: a.rest) globals σ.world) =
        conclude e fr.advance (fr.advance.write d.cursor.function.numLocals) a.rest globals
          σ.world) :
    Follows s n m (Eval.effect e) σ (Arrives a symbols env d (d.on (d.cursor.assign instr))
      (.var d.cursor.function.numLocals) fr) := by
  obtain ⟨globals, rfl, hglobals⟩ := hm
  have hfetch := hfr.fetch hplaced hin (next_assign hd.sound hd.isOpen instr)
  refine .effect ((apply_step hfetch).trans (hexec (hfr.lt_size hin) globals)) fun v world => ?_
  obtain ⟨hpassed, hvalue⟩ := hfr.assign hd.sound hin v
  exact ⟨_, hpassed, hvalue, globals, rfl, hglobals⟩

/-- The store of an element. -/
theorem store_follows {oa oi ov : Operand} {va vi v : Value} (hplaced : a.Placed s)
    (hd : d.Sound symbols) (hin : (d.on (d.cursor.append (.storeArray oa oi ov))).In a.code)
    (hfr : a.Stands d env fr) (hm : a.Shows symbols fr σ m) (ha : fr.value? oa = some va)
    (hi : fr.value? oi = some vi) (hv : fr.value? ov = some v) :
    Follows s n m (Eval.effect (Operation.store va vi v)) σ fun _ σ' m' =>
      ∃ fr', a.Passed d (d.on (d.cursor.append (.storeArray oa oi ov))) env fr fr' ∧
        a.Shows symbols fr' σ' m' := by
  obtain ⟨globals, rfl, hglobals⟩ := hm
  have hfetch := hfr.fetch hplaced hin (next_append hd _)
  refine .effect ((apply_step hfetch).trans (execute_storeArray ((fr.value?_advance oa).trans ha)
    ((fr.value?_advance oi).trans hi) ((fr.value?_advance ov).trans hv))) fun _ world => ?_
  exact ⟨fr.advance, ⟨hfr.append hd _, fun _ _ => rfl⟩, globals, rfl, hglobals⟩

/-- The code of an instruction that writes a new slot, and the operand for it. -/
theorem appendTo_eq_ok {instr : LocalId → Instruction} {o : Operand} {d' : Draft} (hopen : d.IsOpen)
    (h : (do return .var (← emit (Emit.appendTo instr)) : Lower Operand) d = .ok (o, d')) :
    o = .var d.cursor.function.numLocals ∧ d' = d.on (d.cursor.assign instr) := by
  obtain ⟨l, d₁, hrun, h⟩ := run_bind_eq_ok.mp h
  cases (emit_eq_ok (Emit.apply_appendTo hopen instr)).symm.trans hrun
  cases h
  exact ⟨rfl, rfl⟩

/-- **The code of an expression is followed**, wherever in the code of the call it
stands. -/
def Followed (s : Setting) (symbols : Symbols) (ctx : Context) (a : Activation) (n : Nat)
    (env : Locals) (function : String) (names : List String) (e : Expr) : Prop :=
  ∀ {d d' : Draft} {o : Operand} {fr : Frame} {σ : Store} {m : Memory},
    expr symbols e d = .ok (o, d') → d.Working symbols function names → d'.In a.code →
    a.Stands d env fr → a.Shows symbols fr σ m →
    Follows s n m (e.eval ctx env) σ (Arrives a symbols env d d' o fr)

/-- The code of some expressions is followed, and delivers all their values. -/
def AllFollowed (s : Setting) (symbols : Symbols) (ctx : Context) (a : Activation) (n : Nat)
    (env : Locals) (function : String) (names : List String) (es : List Expr) : Prop :=
  ∀ {d d' : Draft} {os : List Operand} {fr : Frame} {σ : Store} {m : Memory},
    exprs symbols es d = .ok (os, d') → d.Working symbols function names → d'.In a.code →
    a.Stands d env fr → a.Shows symbols fr σ m →
    Follows s n m (Expr.evalAll ctx env es) σ fun vs σ' m' =>
      ∃ fr', a.Passed d d' env fr fr' ∧ fr'.Values os vs ∧ a.Shows symbols fr' σ' m'

/-- The code that fills an array from an index on is followed, wherever the array is. -/
def FillFollowed (s : Setting) (symbols : Symbols) (ctx : Context) (a : Activation) (n : Nat)
    (env : Locals) (function : String) (names : List String) (index : Nat) (es : List Expr) :
    Prop :=
  ∀ {array : LocalId} {d d' : Draft} {w : Value} {fr : Frame} {σ : Store} {m : Memory},
    elements symbols array index es d = .ok ((), d') → d.Working symbols function names →
    array < d.cursor.function.numLocals → d'.In a.code → a.Stands d env fr →
    fr.value? (.var array) = some w → a.Shows symbols fr σ m →
    Follows s n m (Expr.fill ctx env w index es) σ fun _ σ' m' =>
      ∃ fr', a.Passed d d' env fr fr' ∧ a.Shows symbols fr' σ' m'

/-- A literal has no code. -/
theorem literal_followed {e : Expr} {c : Constant} (hlower : expr symbols e = pure (.const c))
    (heval : e.eval ctx env = pure c.value) :
    Followed s symbols ctx a n env function names e := by
  intro d d' o fr σ m hrun hd hin hfr hm
  rw [hlower] at hrun
  cases hrun
  rw [heval]
  exact .pure ⟨fr, .refl hfr, rfl, hm⟩

/-- A local has no code either: it is read by the instruction that uses it. -/
theorem local_followed (name : String) :
    Followed s symbols ctx a n env function names (.var (.named name)) := by
  intro d d' o fr σ m hrun hd hin hfr hm
  rw [expr, run_bind_eq_ok] at hrun
  obtain ⟨l, d₁, hlookup, hrun⟩ := hrun
  obtain ⟨rfl, hl⟩ := of_lookup_eq_ok hlookup
  cases hrun
  rw [findSome?_lookup] at hl
  obtain ⟨v, hv, hslot⟩ := hfr.locals.lookup hl
  rw [Expr.eval, hv]
  exact .pure ⟨fr, .refl hfr, hslot, hm⟩

/-- No expressions are followed by no code. -/
theorem nilAll_followed : AllFollowed s symbols ctx a n env function names [] := by
  intro d d' os fr σ m hrun hd hin hfr hm
  rw [exprs] at hrun
  cases hrun
  rw [Expr.evalAll]
  exact .pure ⟨fr, .refl hfr, .nil, hm⟩

/-- No elements are followed by no code. -/
theorem nilFill_followed (index : Nat) :
    FillFollowed s symbols ctx a n env function names index [] := by
  intro array d d' w fr σ m hrun hd harray hin hfr hw hm
  rw [elements] at hrun
  cases hrun
  rw [Expr.fill]
  exact .pure ⟨fr, .refl hfr, hm⟩

variable (hsetup : Setup s symbols decls ctx a n)
include hsetup

/-- The run follows the reading of a global. -/
theorem global_followed (module name : String) :
    Followed s symbols ctx a n env function names (.var (.global module name)) := by
  intro d d' o fr σ m hrun hd hin hfr hm
  rw [expr, run_bind_eq_ok] at hrun
  obtain ⟨g, d₁, hglobal, hrun⟩ := hrun
  obtain ⟨-, rfl, hg⟩ :=
    (global_yields hsetup.known module name : Yields _ function _ _ _ _).of_eq_ok hglobal
  obtain ⟨rfl, rfl⟩ := appendTo_eq_ok hd.isOpen hrun
  obtain ⟨globals, rfl, hglobals⟩ := hm
  obtain ⟨v, hview, hv⟩ := hglobals.read hg
  have hlt := hfr.lt_size hin
  have hfetch := hfr.fetch hsetup.placed hin (next_assign hd.sound hd.isOpen _)
  obtain ⟨hpassed, hvalue⟩ := hfr.assign hd.sound hin v
  rw [Expr.eval]
  refine .of_reaches (reaches_of_execute hfetch (execute_loadGlobal hv hlt)) ?_
  exact .of_ok (Eval.apply_readGlobal hview) ⟨_, hpassed, hvalue, globals, rfl, hglobals⟩

/-- The instruction of a call follows it, once the arguments are there. -/
theorem invoke_follows {target : Target} {callee : Callee} {os : List Operand} {vs : List Value}
    (hdenotes : symbols.Denotes target callee) (hd : d.Working symbols function names)
    (hin : (d.on (d.cursor.assign fun l => .call (some l) callee os)).In a.code)
    (hfr : a.Stands d env fr) (hvs : fr.Values os vs) (hm : a.Shows symbols fr σ m) :
    Follows s n m (ctx.invoke target vs) σ
      (Arrives a symbols env d (d.on (d.cursor.assign fun l => .call (some l) callee os))
        (.var d.cursor.function.numLocals) fr) := by
  cases target with
  | function module name =>
    cases callee with
    | builtin _ => cases hdenotes
    | function ref =>
      have hfetch := hfr.fetch hsetup.placed hin (next_assign hd.sound hd.isOpen _)
      refine (hsetup.calls module name ref hdenotes a fr _ os vs σ m rfl hm hfetch hvs
        (hfr.lt_size hin)).imp fun v σ' m' hm' => ?_
      obtain ⟨hpassed, hvalue⟩ := hfr.assign hd.sound hin v
      exact ⟨_, hpassed, hvalue, hm'⟩
  | builtin name =>
    cases callee with
    | function _ => cases hdenotes
    | builtin _ =>
      cases hdenotes
      rw [Context.invoke, hsetup.table]
      refine compute_follows hsetup.placed hd hin hfr hm fun hlt globals =>
        execute_builtin hvs.advance ?_
      rintro _ ⟨⟩
      exact hlt

/-- The code of two expressions and of an instruction that computes from their
values. The operand of the first is read late, but the code of the second leaves it
as it is. -/
theorem pair_follows {e₁ e₂ : Expr} {instr : Operand → Operand → LocalId → Instruction}
    {operation : Value → Value → Effect Value} {o : Operand} {d' : Draft}
    (hfirst : Followed s symbols ctx a n env function names e₁)
    (hsecond : Followed s symbols ctx a n env function names e₂)
    (hexec : ∀ {fr : Frame} {o₁ o₂ : Operand} {v₁ v₂ : Value} {dst : LocalId}
      {globals : Array Value} {world : World}, fr.value? o₁ = some v₁ → fr.value? o₂ = some v₂ →
      dst < fr.locals.size →
      (execute s (instr o₁ o₂ dst)).apply (.ofFrames (fr :: a.rest) globals world) =
        conclude (operation v₁ v₂) fr (fr.write dst) a.rest globals world)
    (hrun : (do
      let o₁ ← expr symbols e₁
      let o₂ ← expr symbols e₂
      return .var (← emit (Emit.appendTo (instr o₁ o₂))) : Lower Operand) d = .ok (o, d'))
    (hd : d.Working symbols function names) (hin : d'.In a.code) (hfr : a.Stands d env fr)
    (hm : a.Shows symbols fr σ m) :
    Follows s n m (do
      let v₁ ← e₁.eval ctx env
      let v₂ ← e₂.eval ctx env
      Eval.effect (operation v₁ v₂)) σ (Arrives a symbols env d d' o fr) := by
  obtain ⟨o₁, d₁, hrun₁, hrun⟩ := run_bind_eq_ok.mp hrun
  obtain ⟨o₂, d₂, hrun₂, hrun⟩ := run_bind_eq_ok.mp hrun
  have h₁ := ((expr_yields hsetup.known e₁ hd).of_eq_ok hrun₁).2
  have hd₁ := hd.emitted h₁.emitted
  have h₂ := ((expr_yields hsetup.known e₂ hd₁).of_eq_ok hrun₂).2
  have hd₂ := hd₁.emitted h₂.emitted
  obtain ⟨rfl, rfl⟩ := appendTo_eq_ok hd₂.isOpen hrun
  have hin₂ := hin.of_assign hd₂.sound hd₂.isOpen
  refine (hfirst hrun₁ hd (hin₂.of_extends h₂.emitted.extend) hfr hm).bind ?_
  rintro v₁ σ₁ m₁ ⟨fr₁, hpassed₁, hv₁, hm₁⟩
  refine (hsecond hrun₂ hd₁ hin₂ hpassed₁.stands hm₁).bind ?_
  rintro v₂ σ₂ m₂ ⟨fr₂, hpassed₂, hv₂, hm₂⟩
  have hv₁' : fr₂.value? o₁ = some v₁ := hpassed₂.value? h₁.operand hv₁
  refine (compute_follows hsetup.placed hd₂ hin hpassed₂.stands hm₂ fun hlt globals =>
    hexec ((fr₂.value?_advance o₁).trans hv₁') ((fr₂.value?_advance o₂).trans hv₂) hlt).imp ?_
  intro v σ' m' h'
  exact h'.trans (hpassed₁.trans hpassed₂ h₁.emitted.extend) (h₁.emitted.trans h₂.emitted).extend

/-- The run follows a call when it follows the arguments. -/
theorem call_followed {args : List Expr} (target : Target)
    (hargs : AllFollowed s symbols ctx a n env function names args) :
    Followed s symbols ctx a n env function names (.call target args) := by
  intro d d' o fr σ m hrun hd hin hfr hm
  rw [expr, run_bind_eq_ok] at hrun
  obtain ⟨callee, d₁, hcallee, hrun⟩ := hrun
  obtain ⟨-, rfl, hdenotes⟩ :=
    (callee_yields hsetup.known _ : Yields _ function _ _ _ _).of_eq_ok hcallee
  rw [run_bind_eq_ok] at hrun
  obtain ⟨os, d₂, hexprs, hrun⟩ := hrun
  obtain ⟨h₂, -⟩ := ((exprs_yields hsetup.known args hd).of_eq_ok hexprs).2
  have hd₂ := hd.emitted h₂
  obtain ⟨rfl, rfl⟩ := appendTo_eq_ok hd₂.isOpen hrun
  rw [Expr.eval_call]
  refine (hargs hexprs hd (hin.of_assign hd₂.sound hd₂.isOpen) hfr hm).bind ?_
  rintro vs σ₂ m₂ ⟨fr₂, hpassed₂, hvs, hm₂⟩
  exact (invoke_follows hsetup hdenotes hd₂ hin hpassed₂.stands hvs hm₂).imp fun v σ' m' h' =>
    h'.trans hpassed₂ h₂.extend

/-- The run follows an operator when it follows the operands. -/
theorem binary_followed {lhs rhs : Expr} (op : Operator)
    (hlhs : Followed s symbols ctx a n env function names lhs)
    (hrhs : Followed s symbols ctx a n env function names rhs) :
    Followed s symbols ctx a n env function names (.binary op lhs rhs) := by
  intro d d' o fr σ m hrun hd hin hfr hm
  rw [expr] at hrun
  rw [Expr.eval, hsetup.table]
  exact pair_follows hsetup hlhs hrhs execute_binary hrun hd hin hfr hm

/-- The run follows the reading of an element when it follows array and index. -/
theorem index_followed {array i : Expr}
    (harray : Followed s symbols ctx a n env function names array)
    (hindex : Followed s symbols ctx a n env function names i) :
    Followed s symbols ctx a n env function names (.index array i) := by
  intro d d' o fr σ m hrun hd hin hfr hm
  rw [expr] at hrun
  rw [Expr.eval]
  exact pair_follows hsetup harray hindex execute_loadArray hrun hd hin hfr hm

/-- The run follows a new array when it follows the size. -/
theorem newArray_followed {size : Expr}
    (hsize : Followed s symbols ctx a n env function names size) :
    Followed s symbols ctx a n env function names (.newArray size) := by
  intro d d' o fr σ m hrun hd hin hfr hm
  rw [expr, run_bind_eq_ok] at hrun
  obtain ⟨o₁, d₁, hrun₁, hrun⟩ := hrun
  have h₁ := ((expr_yields hsetup.known size hd).of_eq_ok hrun₁).2
  have hd₁ := hd.emitted h₁.emitted
  obtain ⟨rfl, rfl⟩ := appendTo_eq_ok hd₁.isOpen hrun
  rw [Expr.eval]
  refine (hsize hrun₁ hd (hin.of_assign hd₁.sound hd₁.isOpen) hfr hm).bind ?_
  rintro v₁ σ₁ m₁ ⟨fr₁, hpassed₁, hv₁, hm₁⟩
  exact (compute_follows hsetup.placed hd₁ hin hpassed₁.stands hm₁ fun hlt globals =>
    execute_newArray ((fr₁.value?_advance o₁).trans hv₁) hlt).imp fun v σ' m' h' =>
      h'.trans hpassed₁ h₁.emitted.extend

/-- The run follows an array literal when it follows the elements. -/
theorem arrayLit_followed {elems : List Expr}
    (helems : FillFollowed s symbols ctx a n env function names 0 elems) :
    Followed s symbols ctx a n env function names (.arrayLit elems) := by
  intro d d' o fr σ m hrun hd hin hfr hm
  rw [expr, run_bind_eq_ok] at hrun
  obtain ⟨array, d₁, hnew, hrun⟩ := hrun
  cases (emit_eq_ok (Emit.apply_appendTo hd.isOpen _)).symm.trans hnew
  rw [run_bind_eq_ok] at hrun
  obtain ⟨_, d₂, hfill, hrun⟩ := hrun
  cases hrun
  have h₁ := newArray_emitted hd.sound hd.isOpen (Int64.ofNat elems.length)
  have hd₁ := hd.emitted h₁
  have h₂ := ((elements_yields hsetup.known elems 0 hd₁ (Nat.lt_succ_self _)).of_eq_ok hfill).2
  rw [Expr.eval]
  refine (compute_follows hsetup.placed hd (hin.of_extends h₂.extend) hfr hm fun hlt globals =>
    execute_newArray rfl hlt).bind ?_
  rintro v σ₁ m₁ ⟨fr₁, hpassed₁, hv, hm₁⟩
  refine (helems hfill hd₁ (Nat.lt_succ_self _) hin hpassed₁.stands hv hm₁).bind ?_
  rintro _ σ₂ m₂ ⟨fr₂, hpassed₂, hm₂⟩
  refine .pure ⟨fr₂, hpassed₁.trans hpassed₂ h₁.extend, hpassed₂.value? ?_ hv, hm₂⟩
  rintro _ ⟨⟩
  exact Nat.lt_succ_self _

/-- The run follows expressions one by one. -/
theorem consAll_followed {e : Expr} {es : List Expr}
    (hhead : Followed s symbols ctx a n env function names e)
    (htail : AllFollowed s symbols ctx a n env function names es) :
    AllFollowed s symbols ctx a n env function names (e :: es) := by
  intro d d' os fr σ m hrun hd hin hfr hm
  rw [exprs, run_bind_eq_ok] at hrun
  obtain ⟨o, d₁, hrun₁, hrun⟩ := hrun
  rw [run_bind_eq_ok] at hrun
  obtain ⟨os, d₂, hrun₂, hrun⟩ := hrun
  cases hrun
  have h₁ := ((expr_yields hsetup.known e hd).of_eq_ok hrun₁).2
  have hd₁ := hd.emitted h₁.emitted
  have h₂ := ((exprs_yields hsetup.known es hd₁).of_eq_ok hrun₂).2
  rw [Expr.evalAll]
  refine (hhead hrun₁ hd (hin.of_extends h₂.1.extend) hfr hm).bind ?_
  rintro v σ₁ m₁ ⟨fr₁, hpassed₁, hv, hm₁⟩
  refine (htail hrun₂ hd₁ hin hpassed₁.stands hm₁).bind ?_
  rintro vs σ₂ m₂ ⟨fr₂, hpassed₂, hvs, hm₂⟩
  exact .pure ⟨fr₂, hpassed₁.trans hpassed₂ h₁.emitted.extend,
    .cons (hpassed₂.value? h₁.operand hv) hvs, hm₂⟩

/-- The run follows elements one by one, each with its store. -/
theorem consFill_followed {e : Expr} {es : List Expr} {index : Nat}
    (hhead : Followed s symbols ctx a n env function names e)
    (htail : FillFollowed s symbols ctx a n env function names (index + 1) es) :
    FillFollowed s symbols ctx a n env function names index (e :: es) := by
  intro array d d' w fr σ m hrun hd harray hin hfr hw hm
  rw [elements, run_bind_eq_ok] at hrun
  obtain ⟨o, d₁, hrun₁, hrun⟩ := hrun
  have h₁ := ((expr_yields hsetup.known e hd).of_eq_ok hrun₁).2
  have hd₁ := hd.emitted h₁.emitted
  have hslot : ∀ l ∈ (Operand.var array).local?, l < d.cursor.function.numLocals := by
    rintro _ ⟨⟩
    exact harray
  have h₂ := storeArray_emitted (i := .int (Int64.ofNat index)) hd₁.sound hd₁.isOpen
    (fun l hl => Nat.lt_of_lt_of_le (hslot l hl) h₁.emitted.extend.numLocals)
    (fun l hl => by cases hl) h₁.operand
  have hd₂ := hd₁.emitted h₂
  rw [run_bind_eq_ok] at hrun
  obtain ⟨_, d₂, hstore, hrun⟩ := hrun
  cases (emit_append_eq_ok hd₁.isOpen _).symm.trans hstore
  have harray₂ := Nat.lt_of_lt_of_le harray (h₁.emitted.trans h₂).extend.numLocals
  have h₃ := ((elements_yields hsetup.known es (index + 1) hd₂ harray₂).of_eq_ok hrun).2
  have hin₂ := hin.of_extends h₃.extend
  rw [Expr.fill]
  refine (hhead hrun₁ hd (hin₂.of_extends h₂.extend) hfr hm).bind ?_
  rintro v σ₁ m₁ ⟨fr₁, hpassed₁, hv, hm₁⟩
  refine (store_follows hsetup.placed hd₁.sound hin₂ hpassed₁.stands hm₁
    (hpassed₁.value? hslot hw) rfl hv).bind ?_
  rintro _ σ₂ m₂ ⟨fr₂, hpassed₂, hm₂⟩
  have hpassed := hpassed₁.trans hpassed₂ h₁.emitted.extend
  refine (htail hrun hd₂ harray₂ hin hpassed₂.stands (hpassed.value? hslot hw) hm₂).imp ?_
  rintro _ σ₃ m₃ ⟨fr₃, hpassed₃, hm₃⟩
  exact ⟨fr₃, hpassed.trans hpassed₃ (h₁.emitted.trans h₂).extend, hm₃⟩

mutual

/-- **The run of the code of an expression follows its evaluation.** -/
theorem expr_follows : ∀ e : Expr, Followed s symbols ctx a n env function names e
  | .int i => literal_followed (c := .int i) (by rw [expr]; rfl) (by rw [Expr.eval]; rfl)
  | .str t => literal_followed (c := .str t) (by rw [expr]; rfl) (by rw [Expr.eval]; rfl)
  | .null => literal_followed (c := .null) (by rw [expr]; rfl) (by rw [Expr.eval]; rfl)
  | .var (.named name) => local_followed name
  | .var (.global module name) => global_followed hsetup module name
  | .call target args => call_followed hsetup target (exprs_follows args)
  | .binary op lhs rhs => binary_followed hsetup op (expr_follows lhs) (expr_follows rhs)
  | .arrayLit elems => arrayLit_followed hsetup (elements_follows elems 0)
  | .newArray size => newArray_followed hsetup (expr_follows size)
  | .index array i => index_followed hsetup (expr_follows array) (expr_follows i)

/-- The run follows expressions. -/
theorem exprs_follows : ∀ es : List Expr, AllFollowed s symbols ctx a n env function names es
  | [] => nilAll_followed
  | e :: es => consAll_followed hsetup (expr_follows e) (exprs_follows es)

/-- The run follows the elements of an array. -/
theorem elements_follows : ∀ (es : List Expr) (index : Nat),
    FillFollowed s symbols ctx a n env function names index es
  | [], index => nilFill_followed index
  | e :: es, index => consFill_followed hsetup (expr_follows e) (elements_follows es (index + 1))

end

end Lower

end Source

end BlockIR
