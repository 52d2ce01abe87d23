import BlockIR.Proofs.Source.FollowsStmt
import BlockIR.Proofs.Source.Safety
/-!
# Calls and initializers do what they mean

A function that a body was lowered into begins with the arguments in the slots
of its parameters and returns null where the body ends without a return. So a
call follows what the program tree says it does, by induction on how many calls
there is still room for, and so does an initializer.
-/

namespace BlockIR

open Machine Success

namespace Source

namespace Lower

open Draft Activation

variable {s : Setting} {symbols : Symbols} {decls : Environment} {ctx : Context} {a : Activation}
variable {n : Nat} {env : Locals} {name : String} {params : List String} {scope : Scope}
variable {d d' : Draft} {fr : Frame} {σ : Store} {m : Memory} {code : Function}

/-! ## Bodies -/

/-- The parameters are in the first slots. -/
theorem showsLocals_paramScope {args : List Value} {locals : Array Value}
    (hlength : args.length = params.length)
    (hlocals : ∀ k, k < args.length → locals[k]? = args[k]?) :
    ShowsLocals (paramScope params) (params.zip args).reverse locals := by
  rw [ShowsLocals, paramScope_eq, List.forall₂_reverse_iff, List.forall₂_iff_get]
  refine ⟨by simp [hlength], fun k hk hk' => ?_⟩
  have hlt : k < args.length := by simpa [hlength] using hk
  simp [hlocals k hlt, hlt]

/-- **A call begins at the start of its code**, with the arguments in the slots of
the parameters. -/
theorem stands_start {args : List Value} (hlength : args.length = params.length)
    (hin : (start name params (paramScope params)).In a.code) :
    a.Stands (start name params (paramScope params)) (params.zip args).reverse
      (Frame.start a.ref a.code args a.resume) where
  function := rfl
  resume := rfl
  size := by
    have hle : params.length ≤ a.code.numLocals := hin.numLocals
    simp only [Frame.start, Array.size_append, List.size_toArray, Array.size_replicate]
    omega
  block := rfl
  next := rfl
  locals := by
    have hscopes : (start name params (paramScope params)).scopes.flatten = paramScope params := by
      simp [start]
    rw [hscopes]
    refine showsLocals_paramScope hlength fun k hk => ?_
    simp [Frame.start, Array.getElem?_append, hk]

variable (hsetup : Setup s symbols decls ctx a n)
include hsetup

/-- The code of a body is in that of its function, and at its end is a return of
null. -/
theorem returns_end (hd : d.Sound symbols) (hclose : closeBody d = .ok ((), d'))
    (hcode : d'.cursor.function = a.code) :
    d.In a.code ∧ ∀ {env : Locals} {fr : Frame} {σ : Store} {m : Memory}, d.IsOpen →
      a.Stands d env fr → a.Shows symbols fr σ m → Returns s a symbols .null σ m := by
  obtain ⟨-, hsealed, hnext, -⟩ :=
    (closeBody_yields hd : Yields decls d.cursor.function.name _ _ _ _).of_eq_ok hclose
  have hin : d'.In a.code := ⟨hcode ▸ .refl _, hcode ▸ Nat.le_refl _⟩
  refine ⟨hin.of_extends hsealed.extend, fun {_ fr _ _} hopen hfr hm => ?_⟩
  exact ⟨fr, .const .null, hfr.resume, hfr.fetch hsetup.placed hin (hnext hopen), rfl, hm⟩

/-- **The run of a function follows its body** up to a return. -/
theorem function_follows {f : FunctionDef} {args : List Value} (hcode : f.lower symbols = .ok a.code)
    (hlength : args.length = f.params.length)
    (hm : a.Shows symbols (Frame.start a.ref a.code args a.resume) σ m) :
    Follows s n m (f.run ctx args) σ (Returns s a symbols) := by
  obtain ⟨d, d', hbody, hclose, hfunction⟩ := intoFunction_eq_ok hcode
  have hstart : (start f.name f.params (paramScope f.params)).Sound symbols :=
    start_sound _ paramScope_slots (paramScope_distinct _)
  have hprogress := ((body_yields hsetup.known f.body ⟨hstart, rfl, rfl⟩).of_eq_ok hbody).2
  obtain ⟨hin, hend⟩ := returns_end hsetup hprogress.sound hclose hfunction
  have hfr := stands_start hlength (hin.of_extends hprogress.extend)
  refine (body_follows hsetup f.body hbody hstart (Function.isOpen_empty _ _) hin hfr hm).bind ?_
  rintro (env' | v) σ' m' h
  · obtain ⟨hopen, fr', hfr', hm'⟩ := h
    exact .pure (hend hopen hfr' hm')
  · exact .pure h

/-! ## Initializers -/

/-- The run of the code for the initial value of a global follows its assignment. -/
theorem assignInit_follows {id function : String} (g : GlobalDef)
    (hrun : GlobalDef.lowerInit symbols id g d = .ok ((), d')) (hd : d.Working symbols function [])
    (hin : d'.In a.code) (hfr : a.Stands d [] fr) (hm : a.Shows symbols fr σ m) :
    Follows s n m (g.assignInit ctx id) σ fun _ σ' m' =>
      ∃ fr', a.Stands d' [] fr' ∧ a.Shows symbols fr' σ' m' := by
  unfold GlobalDef.lowerInit at hrun
  unfold GlobalDef.assignInit
  cases hinit : g.init with
  | none =>
    rw [hinit] at hrun
    cases hrun
    exact .pure ⟨fr, hfr, hm⟩
  | some init =>
    rw [hinit] at hrun
    obtain ⟨_, d₁, hlocate, hrun⟩ := run_bind_eq_ok.mp hrun
    cases (onCursor_eq_ok (Emit.locate g.location) d).symm.trans hlocate
    have hw : (d.on (d.cursor.locate g.location)).Working symbols function [] :=
      ⟨⟨hd.sound.locate _, hd.function, hd.names⟩, hd.isOpen⟩
    rw [run_bind_eq_ok] at hrun
    obtain ⟨o, d₂, hexpr, hstore⟩ := hrun
    have h₂ := ((expr_yields hsetup.known init hw).of_eq_ok hexpr).2
    have hw₂ := hw.emitted h₂.emitted
    have h₃ := ((assign_yields hsetup.known hw₂ ⟨.refl hw₂.sound hw₂.isOpen, h₂.operand⟩
      (.global id g.name)).of_eq_ok hstore).2
    have hin₂ := hin.of_extends h₃.extend
    have hlocated : a.Stands (d.on (d.cursor.locate g.location)) [] fr := hfr
    refine (expr_follows hsetup init hexpr hw hin₂ hlocated hm).bind ?_
    rintro v σ₁ m₁ ⟨fr₁, hpassed, hv, hm₁⟩
    exact storeGlobal_follows hsetup hstore hw₂ hin hpassed.stands hv hm₁

theorem assignInits_follows {id function : String} : ∀ (globals : List GlobalDef) {d d' : Draft}
    {fr : Frame} {σ : Store} {m : Memory},
    globals.forM (GlobalDef.lowerInit symbols id) d = .ok ((), d') →
    (∀ g ∈ globals, decls.global id g.name) → d.Working symbols function [] → d'.In a.code →
    a.Stands d [] fr → a.Shows symbols fr σ m →
    Follows s n m (globals.forM (GlobalDef.assignInit ctx id)) σ fun _ σ' m' =>
      d'.IsOpen ∧ ∃ fr', a.Stands d' [] fr' ∧ a.Shows symbols fr' σ' m'
  | [], d, d', fr, σ, m, hrun, _, hd, hin, hfr, hm => by
    cases hrun
    exact .pure ⟨hd.isOpen, fr, hfr, hm⟩
  | g :: rest, d, d', fr, σ, m, hrun, hown, hd, hin, hfr, hm => by
    rw [List.forM_eq_forM, List.forM_cons, run_bind_eq_ok] at hrun
    obtain ⟨_, d₁, hfirst, hrun⟩ := hrun
    rw [List.forall_mem_cons] at hown
    obtain ⟨-, -, hd₁⟩ := (GlobalDef.lowerInit_yields hsetup.known g hown.1 hd).of_eq_ok hfirst
    have hprogress := ((lowerInits_yields hsetup.known rest hown.2 hd₁).of_eq_ok hrun).2
    refine (assignInit_follows hsetup g hfirst hd (hin.of_extends hprogress.extend) hfr hm).bind ?_
    rintro _ σ₁ m₁ ⟨fr₁, hfr₁, hm₁⟩
    exact assignInits_follows rest hrun hown.2 hd₁ hin hfr₁ hm₁

/-- **The run of an initializer follows the assignments of the initial values**, up
to a return of null. -/
theorem initializer_follows {id : String} {module : Module}
    (hcode : module.lowerInit symbols id = .ok a.code)
    (hown : ∀ g ∈ module.globals, decls.global id g.name)
    (hm : a.Shows symbols (Frame.start a.ref a.code [] a.resume) σ m) :
    Follows s n m (module.globals.forM (GlobalDef.assignInit ctx id)) σ fun _ =>
      Returns s a symbols .null := by
  obtain ⟨d, d', hinits, hclose, hfunction⟩ := intoFunction_eq_ok hcode
  have hstart : (start initName [] []).Working symbols initName [] :=
    ⟨⟨start_sound _ nofun List.nodup_nil, rfl, rfl⟩, Function.isOpen_empty _ _⟩
  have hprogress := ((lowerInits_yields hsetup.known module.globals hown hstart).of_eq_ok hinits).2
  obtain ⟨hin, hend⟩ := returns_end hsetup hprogress.sound hclose hfunction
  have hfr : a.Stands (start initName [] []) [] _ :=
    stands_start (Eq.refl ([] : List Value).length) (hin.of_extends hprogress.extend)
  refine (assignInits_follows hsetup module.globals hinits hown hstart hin hfr hm).imp ?_
  rintro _ σ' m' ⟨hopen, fr', hfr', hm'⟩
  exact hend hopen hfr' hm'

end Lower

/-! ## Calls -/

/-- A call hands its result to the one it was made from. -/
theorem Lower.Returns.toCaller {s : Setting} {symbols : Symbols} {ref : FunctionRef}
    {code : Function} {caller : Frame} {dst : LocalId} {v : Value} {σ : Store} {m : Memory}
    {a : Activation}
    (h : Returns s ⟨ref, code, .caller (some dst), caller :: a.rest⟩ symbols v σ m)
    (hdst : dst < caller.locals.size) :
    ∃ m', Reaches s m m' ∧ a.Shows symbols (caller.write dst v) σ m' := by
  obtain ⟨fr, o, hresume, hfetch, hv, globals, rfl, hglobals⟩ := h
  have hslot : ∀ l ∈ some dst, l < caller.locals.size := by
    rintro _ ⟨⟩
    exact hdst
  refine ⟨_, reaches_of_execute hfetch ((execute_ret ((fr.value?_advance o).trans hv)).trans
    (apply_leave_deliver hresume hslot)), globals, rfl, hglobals⟩

namespace Program

variable {p : Program} {entry : String} {modules : List (String × Module)} {d : Declared}
variable {lowered : BlockIR.Program} {symbols : Symbols} {module name : String} {ref : FunctionRef}
variable {f : FunctionDef} {code : Function}

/-- **What the name of a function stands for**, in a program tree and in a program
that it is lowered to. -/
structure Links (p : Program) (symbols : Symbols) (lowered : BlockIR.Program)
    (module name : String) (ref : FunctionRef) (f : FunctionDef) (code : Function) : Prop where
  source : p.function? module name = some f
  lower : f.lower symbols = .ok code
  holds : lowered.function? ref = some code
  describe : lowered.describe ref = module ++ "::" ++ name
  arity : code.arity = f.params.length

/-- The function that a symbol denotes is the one that the program tree has by that
name. -/
theorem function?_of_lookup (hlists : p.Lists modules) (hcovers : d.Covers modules modules)
    {m : Module} (hm : modules[ref.module]? = some (module, m))
    (hf : m.functions[ref.index]? = some f) (hname : f.name = name) :
    p.function? module name = some f := by
  have hmodule : p.module? module = some m :=
    ((hlists.mem_iff module m).mp (List.mem_of_getElem? hm)).2
  rw [function?, hmodule, Option.bind_some]
  cases hfind : m.functions.find? fun f => f.name == name with
  | none =>
    have hnone := List.find?_eq_none.mp hfind f (List.mem_of_getElem? hf)
    exact absurd (beq_iff_eq.mpr hname) hnone
  | some f' =>
    have hname' := List.find?_some hfind
    obtain ⟨k, hk⟩ := List.getElem?_of_mem (List.mem_of_find?_eq_some hfind)
    -- both places belong to the symbol of that name
    have hthis := (hcovers.functions module name ref).mpr ⟨m, f, hm, hf, hname⟩
    have hthat := (hcovers.functions module name ⟨ref.module, k⟩).mpr ⟨m, f', hm, hk, beq_iff_eq.mp hname'⟩
    obtain rfl : ref.index = k :=
      congrArg FunctionRef.index (Option.some.inj (hthis.symm.trans hthat))
    exact hk.symm.trans hf

theorem Lowering.exists_links (h : p.Lowering entry modules d lowered)
    (href : d.symbols.functions.lookup (module, name) = some ref) :
    ∃ f code, p.Links d.symbols lowered module name ref f code := by
  obtain ⟨m, f, hm, hf, hname⟩ := (h.covers.functions module name ref).mp href
  obtain ⟨code, hcode⟩ := Option.isSome_iff_exists.mp (h.isSome_of_lookup href)
  have hlower : f.lower d.symbols = .ok code := by
    obtain ⟨_, _, hm', ⟨f', hf', hlower⟩ | ⟨-, hindex, -⟩⟩ := h.code ref code hcode
    · cases hm.symm.trans hm'
      cases hf.symm.trans hf'
      exact hlower
    · cases hm.symm.trans hm'
      exact absurd (List.getElem?_eq_some_iff.mp hf).1 (hindex ▸ Nat.lt_irrefl _)
  have hlowered := ((f.lower_spec (h.lists.matches h.covers)).of_eq_ok hlower).2
  obtain ⟨row, hrow, -⟩ := Option.bind_eq_some_iff.mp hcode
  obtain ⟨id, _, _, hm', hshape⟩ := h.exists_shape hrow
  cases hm.symm.trans hm'
  have hid : row.id = module := congrArg Prod.fst hshape
  refine ⟨f, code, function?_of_lookup h.lists h.covers hm hf hname, hlower, hcode, ?_, ?_⟩
  · rw [BlockIR.Program.describe, hrow, hcode, ← hid, ← hname, ← hlowered.name]
  · rw [Function.arity, hlowered.params]

namespace Links

/-- What a call must pass to begin. -/
theorem apply_enter {s : Setting} (h : p.Links symbols s.program module name ref f code)
    (args : List Value) (resume : Resume) (frames : List Frame) (globals : Array Value)
    (world : World) :
    (enter s ref args resume).apply (.ofFrames frames globals world) =
      if args.length ≠ f.params.length then
        (.error (.arity (module ++ "::" ++ name) f.params.length args.length),
          .ofFrames frames globals world)
      else if s.limit ≤ frames.length then
        (.error (.stackOverflow s.limit), .ofFrames frames globals world)
      else (.ok (), .ofFrames (Frame.start ref code args resume :: frames) globals world) := by
  rw [Machine.apply_enter, h.holds, h.describe, ← h.arity]

/-- What a call instruction does. -/
theorem apply_step_call {s : Setting} (h : p.Links symbols s.program module name ref f code)
    {fr : Frame} {rest : List Frame} {globals : Array Value} {world : World}
    {dst : Option LocalId} {ops : List Operand} {vs : List Value}
    (hfetch : fetch s.program fr = .ok (.call dst (.function ref) ops)) (hvs : fr.Values ops vs) :
    (step s).apply (.ofFrames (fr :: rest) globals world) =
      if vs.length ≠ f.params.length then
        (.error (.arity (module ++ "::" ++ name) f.params.length vs.length),
          .ofFrames (fr.advance :: rest) globals world)
      else if s.limit ≤ rest.length + 1 then
        (.error (.stackOverflow s.limit), .ofFrames (fr.advance :: rest) globals world)
      else (.ok none,
        .ofFrames (Frame.start ref code vs (.caller dst) :: fr.advance :: rest) globals world) := by
  rw [apply_step hfetch, execute_call hvs.advance, Transform.apply_bind, h.apply_enter]
  by_cases hlength : vs.length = f.params.length
  · by_cases hlimit : s.limit ≤ rest.length + 1
    · simp [hlength, hlimit]
    · simp [hlength, hlimit]
  · simp [hlength]

theorem apply_callee (h : p.Links symbols lowered module name ref f code) (args : List Value)
    (σ : Store) :
    (p.callee module name args).apply σ =
      if args.length ≠ f.params.length then
        some (.error (.arity (module ++ "::" ++ name) f.params.length args.length), σ)
      else some (.ok f, σ) := by
  unfold callee
  rw [h.source, Eval.declared, pure_bind]
  split <;> rfl

end Links

/-- **Calls are followed**, however many there is still room for. -/
theorem Lowering.calls_follow (h : p.Lowering entry modules d lowered) (table : Table)
    (n limit : Nat) : ∀ room height, height + room = limit →
    CallsFollow ⟨lowered, table, limit⟩ d.symbols n height (p.call table n limit room)
  | room, height, hroom => by
    intro module name ref href a fr dst ops vs σ m hheight hm hfetch hvs hdst
    obtain ⟨f, code, hlinks⟩ := h.exists_links href
    obtain ⟨globals, rfl, hglobals⟩ := hm
    have hstep : (step ⟨lowered, table, limit⟩).apply
        (.ofFrames (fr :: a.rest) globals σ.world) = _ := hlinks.apply_step_call hfetch hvs
    have hcallee := hlinks.apply_callee vs σ
    by_cases hlength : vs.length = f.params.length
    · rw [if_neg (not_not_intro hlength)] at hstep hcallee
      cases room with
      | zero =>
        rw [if_pos (Nat.le_of_eq (hroom.symm.trans hheight.symm))] at hstep
        rw [call]
        exact .after hcallee (.throw hstep rfl)
      | succ room =>
        have hlimit : a.rest.length + 1 < limit := by omega
        rw [if_neg (Nat.not_le_of_lt hlimit)] at hstep
        have hsetup : Setup ⟨lowered, table, limit⟩ d.symbols p.environment
            ⟨table, p.call table n limit room, n⟩
            ⟨ref, code, .caller (some dst), fr.advance :: a.rest⟩ n :=
          ⟨h.lists.matches h.covers, hlinks.holds, rfl, rfl,
            h.calls_follow table n limit room _ (by rw [List.length_cons]; omega)⟩
        rw [call]
        refine .after hcallee (.of_reaches (reaches_of_step hstep) ?_)
        refine (Lower.function_follows hsetup hlinks.lower hlength ⟨globals, rfl, hglobals⟩).onward ?_
        exact fun v σ' m' hreturns => hreturns.toCaller hdst
    · rw [if_pos hlength] at hstep hcallee
      refine .of_error ?_ hstep rfl
      cases room with
      | zero => rw [call, Eval.apply_bind, hcallee]
      | succ room => rw [call, Eval.apply_bind, hcallee]

end Program

end Source

end BlockIR
