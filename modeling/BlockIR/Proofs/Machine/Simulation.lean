import BlockIR.Proofs.Machine.Calls
/-!
# Programs that run alike

Two programs run alike when their frames can be related so that related frames
come to instructions with the same move, the second program perhaps after some
steps of its own, and go on related (`Simulation`). Then every call comes to the
same in both: a run of the first program is followed by the second step by step
(`Simulation.exists_run`), and while the first is unfinished so is the second
(`Simulation.run_eq_none`). Evaluations are made of such calls.
-/

namespace BlockIR

open Success

/-- **Two programs are the same but for the code of their functions**, as far as an
evaluation looks at them. -/
structure Program.SameOutline (p p' : Program) : Prop where
  entry : p'.entry = p.entry
  initOrder : p'.initOrder = p.initOrder
  globals : p'.globals.size = p.globals.size
  initializer : ∀ m, Machine.initializer? p' m = Machine.initializer? p m
  describe : ∀ ref, p'.describe ref = p.describe ref

namespace Program

variable {p : Program} {ref : FunctionRef} {f g : Function}

/-- **The program with a function in the place of another.** -/
def withFunction (p : Program) (ref : FunctionRef) (f : Function) : Program :=
  { p with
    modules := (Assembly.putFunction { modules := p.modules, globals := p.globals } ref f).modules }

/-- A function is replaced in its place, if there is one. -/
theorem function?_withFunction (p : Program) (ref ref' : FunctionRef) (f : Function) :
    (p.withFunction ref f).function? ref' =
      if ref = ref' then (p.function? ref').map fun _ => f else p.function? ref' :=
  Assembly.function?_putFunction { modules := p.modules, globals := p.globals } ref ref' f

/-- A function is described by the id of its module and its name. -/
theorem describe_congr {q : Program}
    (hid : (q.modules[ref.module]?).map Module.id = (p.modules[ref.module]?).map Module.id)
    (hname : (q.function? ref).map Function.name = (p.function? ref).map Function.name) :
    q.describe ref = p.describe ref := by
  unfold describe
  revert hid hname
  cases q.modules[ref.module]? <;> cases p.modules[ref.module]? <;> cases q.function? ref <;>
    cases p.function? ref <;> simp +contextual

/-- Replacing a function by one of its name leaves the outline. -/
theorem sameOutline_withFunction (hf : p.function? ref = some f) (hname : g.name = f.name) :
    p.SameOutline (p.withFunction ref g) := by
  have hrows : ∀ m : ModuleIndex, ((p.withFunction ref g).modules[m]?).map Assembly.shapeOf =
      (p.modules[m]?).map Assembly.shapeOf :=
    (Assembly.sameShape_putFunction { modules := p.modules, globals := p.globals } ref g).rows
  have hinit : ∀ m : ModuleIndex, ((p.withFunction ref g).modules[m]?).bind Module.init =
      (p.modules[m]?).bind Module.init := by
    intro m
    have hm := congrArg (fun shape => shape.bind fun row => row.2.2.2.1) (hrows m)
    simpa [Option.bind_map, Function.comp_def, Assembly.shapeOf] using hm
  have hid : ∀ m : ModuleIndex, ((p.withFunction ref g).modules[m]?).map Module.id =
      (p.modules[m]?).map Module.id := by
    intro m
    have hm := congrArg (Option.map Prod.fst) (hrows m)
    simpa [Function.comp_def, Assembly.shapeOf] using hm
  have hnames : ∀ ref', ((p.withFunction ref g).function? ref').map Function.name =
      (p.function? ref').map Function.name := by
    intro ref'
    rw [function?_withFunction]
    split
    · rename_i heq
      rw [← heq, hf, Option.map_some, Option.map_some, Option.map_some, hname]
    · rfl
  refine ⟨rfl, rfl, rfl, fun m => ?_, fun ref' => ?_⟩
  · unfold Machine.initializer?
    rw [hinit]
  · exact describe_congr (hid ref'.module) (hnames ref')

end Program

namespace Machine

/-! ## Actions that come to the same -/

section Coincide

variable {α β : Type} {x y : Nat → Option α}

/-- **Two actions come to the same**, each with a number of steps of its own, or
neither comes to anything. -/
def Coincide (x y : Nat → Option α) : Prop :=
  ∀ r, (∃ n, x n = some r) ↔ ∃ n, y n = some r

/-- A computation coincides with itself. -/
theorem Coincide.refl (x : Nat → Option α) : Coincide x x := fun _ => Iff.rfl

/-- It is enough that the second action follows the first, and is unfinished while
the first is. -/
theorem Coincide.of_forward (hy : Steady y) (hforward : ∀ n r, x n = some r → ∃ k, y k = some r)
    (hnone : ∀ n, x n = none → y n = none) : Coincide x y := by
  intro r
  constructor
  · rintro ⟨n, hn⟩
    exact hforward n r hn
  · rintro ⟨n, hn⟩
    cases hx : x n with
    | none =>
      rw [hnone n hx] at hn
      cases hn
    | some r' =>
      obtain ⟨k, hk⟩ := hforward n r' hx
      exact ⟨n, by rw [hx, hy.unique hn hk]⟩

/-- What coincides still does through a function. -/
theorem Coincide.map (h : Coincide x y) (f : α → β) :
    Coincide (fun n => (x n).map f) fun n => (y n).map f := by
  have hmap : ∀ {z : Nat → Option α} {r : β},
      (∃ n, (z n).map f = some r) ↔ ∃ a, (∃ n, z n = some a) ∧ f a = r := by
    intro z r
    simp only [Option.map_eq_some_iff]
    constructor
    · rintro ⟨n, a, ha, hr⟩
      exact ⟨a, ⟨n, ha⟩, hr⟩
    · rintro ⟨a, ⟨n, ha⟩, hr⟩
      exact ⟨n, a, ha, hr⟩
  intro r
  rw [hmap, hmap]
  exact exists_congr fun a => and_congr_left fun _ => h a

/-- What two actions in sequence come to: the failure of the first, or what the
second comes to after it. -/
theorem exists_andThen {x : Nat → Finish α} {f : Nat → α → Memory → Finish β} (hx : Steady x)
    (hf : ∀ a m, Steady fun n => f n a m) {r : Except RuntimeError β × Memory} :
    (∃ n, (x n).andThen (f n) = some r) ↔
      (∃ e m, (∃ n, x n = some (.error e, m)) ∧ r = (.error e, m)) ∨
        ∃ a m, (∃ n, x n = some (.ok a, m)) ∧ ∃ n, f n a m = some r := by
  constructor
  · rintro ⟨n, hn⟩
    rcases hxn : x n with _ | ⟨e | a, m⟩
    all_goals
      rw [hxn] at hn
    · cases hn
    · exact .inl ⟨e, m, ⟨n, hxn⟩, (Option.some.inj hn).symm⟩
    · exact .inr ⟨a, m, ⟨n, hxn⟩, n, hn⟩
  · rintro (⟨e, m, ⟨n, hxn⟩, rfl⟩ | ⟨a, m, ⟨n, hxn⟩, k, hfk⟩)
    · exact ⟨n, by rw [hxn]; rfl⟩
    · refine ⟨max n k, ?_⟩
      rw [hx n (max n k) _ hxn (Nat.le_max_left n k)]
      exact hf a m k (max n k) r hfk (Nat.le_max_right n k)

/-- Sequences coincide when their parts do. -/
theorem Coincide.andThen {x y : Nat → Finish α} {f g : Nat → α → Memory → Finish β}
    (h : Coincide x y) (hx : Steady x) (hy : Steady y) (hf : ∀ a m, Steady fun n => f n a m)
    (hg : ∀ a m, Steady fun n => g n a m)
    (hfg : ∀ a m, Coincide (fun n => f n a m) fun n => g n a m) :
    Coincide (fun n => (x n).andThen (f n)) fun n => (y n).andThen (g n) := by
  intro r
  rw [exists_andThen hx hf, exists_andThen hy hg]
  simp only [h _, hfg _ _ r]

end Coincide

/-! ## Frames that go on in step -/

variable {s s' : Setting} {R : Frame → Frame → Prop} {fr fr' : Frame} {i i' : Instruction}
variable {base rest rest' frames frames' : List Frame} {globals : Array Value} {world : World}

/-- **Two frames at instructions that do the same**: the instructions come to the
same move, and the frames go on related. -/
structure Aligned (s s' : Setting) (R : Frame → Frame → Prop) (fr fr' : Frame)
    (i i' : Instruction) : Prop where
  fetch : fetch s.program fr = .ok i
  fetch' : Machine.fetch s'.program fr' = .ok i'
  resume : fr'.resume = fr.resume
  reads : fr.Reads i
  reads' : fr'.Reads i'
  resolve : resolve s' fr'.value i' = resolve s fr.value i
  dst : ∀ l ∈ i.def?, l < fr.locals.size ∧ l < fr'.locals.size
  advance : i.isTerminator = false → ∀ v,
    R (fr.advance.deliver i.def? v) (fr'.advance.deliver i.def? v)
  goto : ∀ t ∈ i.targets, R (fr.goto t) (fr'.goto t)

/-- **A simulation of one program by another**: calls begin related, and related
frames come to instructions that do the same. -/
structure Simulation (s s' : Setting) (R : Frame → Frame → Prop) : Prop
    extends Program.SameOutline s.program s'.program where
  limit : s'.limit = s.limit
  absent : ∀ ref, s.program.function? ref = none → s'.program.function? ref = none
  start : ∀ ref f, s.program.function? ref = some f →
    ∃ f', s'.program.function? ref = some f' ∧ f'.arity = f.arity ∧
      ∀ args resume, R (.start ref f args resume) (.start ref f' args resume)
  proceed : ∀ fr fr', R fr fr' → ∃ fr'' i i',
    (∀ rest globals world, Reaches s' (.ofFrames (fr' :: rest) globals world)
      (.ofFrames (fr'' :: rest) globals world)) ∧ Aligned s s' R fr fr'' i i'

/-- **The callers beneath two related frames**: they are related once they have the
result that they wait for, down to the frames that the run began on. -/
inductive Beneath (R : Frame → Frame → Prop) (base : List Frame) :
    Resume → List Frame → List Frame → Prop
  | own : Beneath R base .halt base base
  | caller {dst : Option LocalId} {fr fr' : Frame} {rest rest' : List Frame} :
      (∀ l ∈ dst, l < fr.locals.size ∧ l < fr'.locals.size) → fr'.resume = fr.resume →
      (∀ v, R (fr.deliver dst v) (fr'.deliver dst v)) → Beneath R base fr.resume rest rest' →
      Beneath R base (.caller dst) (fr :: rest) (fr' :: rest')

/-- **Frames that go on in step.** -/
inductive Stacked (R : Frame → Frame → Prop) (base : List Frame) : List Frame → List Frame → Prop
  | intro {fr fr' : Frame} {rest rest' : List Frame} : R fr fr' →
      Beneath R base fr.resume rest rest' → Stacked R base (fr :: rest) (fr' :: rest')

/-- Related frames beneath are equally many. -/
theorem Beneath.length_eq {resume : Resume} (h : Beneath R base resume rest rest') :
    rest'.length = rest.length := by
  induction h with
  | own => rfl
  | caller _ _ _ _ ih => simpa using ih

/-- With a frame on them, the callers are the frames of the call that the run is
of. -/
theorem Beneath.over {resume : Resume} (h : Beneath R base resume rest rest')
    (hfr : fr.resume = resume) (hfr' : fr'.resume = resume) :
    Over base .halt (fr :: rest) ∧ Over base .halt (fr' :: rest') := by
  induction h generalizing fr fr' with
  | own => exact ⟨.own hfr, .own hfr'⟩
  | caller _ hresume _ _ ih =>
    obtain ⟨hrest, hrest'⟩ := ih rfl hresume
    exact ⟨.callee hfr hrest, .callee hfr' hrest'⟩

/-- What a step of frames that go on in step comes to. -/
def Concur (R : Frame → Frame → Prop) (base : List Frame) :
    Except RuntimeError (Option Value) → List Frame → List Frame → Prop
  | .ok none, frames, frames' => Stacked R base frames frames'
  | .ok (some _), frames, frames' => frames = base ∧ frames' = base
  | .error _, frames, frames' => Over base .halt frames ∧ Over base .halt frames'

/-- Two actions come to the same, each from frames of its own. -/
def InStep (R : Frame → Frame → Prop) (base : List Frame) (x y : Exec (Option Value))
    (frames frames' : List Frame) (globals : Array Value) (world : World) : Prop :=
  ∃ result globals₁ world₁ frames₁ frames₁',
    x.apply (.ofFrames frames globals world) = (result, .ofFrames frames₁ globals₁ world₁) ∧
    y.apply (.ofFrames frames' globals world) = (result, .ofFrames frames₁' globals₁ world₁) ∧
    Concur R base result frames₁ frames₁'

namespace Simulation

/-- A call begins in both, or fails for the same reason in both. -/
theorem enter_cases (h : Simulation s s' R) (hlength : rest'.length = rest.length)
    (ref : FunctionRef) (args : List Value) (resume : Resume) (globals : Array Value)
    (world : World) :
    (∃ e, (enter s ref args resume).apply (.ofFrames rest globals world) =
        (.error e, .ofFrames rest globals world) ∧
      (enter s' ref args resume).apply (.ofFrames rest' globals world) =
        (.error e, .ofFrames rest' globals world)) ∨
    ∃ fr fr', R fr fr' ∧ fr.resume = resume ∧
      (enter s ref args resume).apply (.ofFrames rest globals world) =
        (.ok (), .ofFrames (fr :: rest) globals world) ∧
      (enter s' ref args resume).apply (.ofFrames rest' globals world) =
        (.ok (), .ofFrames (fr' :: rest') globals world) := by
  simp only [apply_enter, h.describe, h.limit, hlength]
  cases hf : s.program.function? ref with
  | none =>
    simp only [h.absent ref hf]
    exact .inl ⟨_, rfl, rfl⟩
  | some f =>
    obtain ⟨f', hf', harity', hstart⟩ := h.start ref f hf
    simp only [hf', harity']
    by_cases harity : args.length = f.arity
    · by_cases hfull : s.limit ≤ rest.length
      · left
        simp [harity, hfull]
      · right
        refine ⟨_, _, hstart args resume, rfl, ?_, ?_⟩ <;> simp [harity, hfull]
    · left
      simp [harity]

variable (h : Simulation s s' R)
include h

/-- Calls of one function are in step when what waits for them is related. -/
theorem call_inStep {dst : Option LocalId} {ref : FunctionRef} {args : List Value}
    (hdst : ∀ l ∈ dst, l < fr.locals.size ∧ l < fr'.locals.size) (hcaller : fr'.resume = fr.resume)
    (hwaits : ∀ v, R (fr.deliver dst v) (fr'.deliver dst v))
    (hrest : Beneath R base fr.resume rest rest') :
    InStep R base (perform s (.call dst ref args)) (perform s' (.call dst ref args))
      (fr :: rest) (fr' :: rest') globals world := by
  have hcallers := Beneath.caller hdst hcaller hwaits hrest
  unfold InStep perform
  rcases h.enter_cases hcallers.length_eq ref args (.caller dst) globals world with
    ⟨e, he, he'⟩ | ⟨new, new', hnew, hresume, hok, hok'⟩
  · rw [Transform.apply_bind_error he, Transform.apply_bind_error he']
    exact ⟨_, _, _, _, _, rfl, rfl, hrest.over rfl hcaller⟩
  · rw [Transform.apply_bind_ok hok, Transform.apply_bind_ok hok']
    exact ⟨_, _, _, _, _, rfl, rfl, .intro hnew (hresume ▸ hcallers)⟩

omit h in
/-- Returns are in step. -/
theorem ret_inStep {v : Value} (hresume : fr'.resume = fr.resume)
    (hrest : Beneath R base fr.resume rest rest') :
    InStep R base (leave v) (leave v) (fr :: rest) (fr' :: rest') globals world := by
  unfold InStep
  cases hr : fr.resume with
  | halt =>
    rw [hr] at hrest hresume
    rw [apply_leave_halt hr, apply_leave_halt hresume]
    cases hrest
    exact ⟨_, _, _, _, _, rfl, rfl, rfl, rfl⟩
  | caller dst =>
    rw [hr] at hrest hresume
    cases hrest with
    | caller hdst _ hwaits hbelow =>
      rw [apply_leave_deliver hr fun l hl => (hdst l hl).1,
        apply_leave_deliver hresume fun l hl => (hdst l hl).2]
      refine ⟨_, _, _, _, _, rfl, rfl, .intro (hwaits v) ?_⟩
      rw [resume_deliver]
      exact hbelow

/-- **A move that aligned instructions come to is made in both.** -/
theorem perform_inStep (ha : Aligned s s' R fr fr' i i')
    (hrest : Beneath R base fr.resume rest rest') {move : Move}
    (hmove : Permits fr.value i move) :
    InStep R base (perform s move) (perform s' move) (fr.advance :: rest) (fr'.advance :: rest')
      globals world := by
  have hdst : ∀ l ∈ i.def?, l < fr.advance.locals.size ∧ l < fr'.advance.locals.size := ha.dst
  cases move with
  | deliver dst v =>
    obtain ⟨rfl, hlast⟩ := hmove
    unfold InStep perform
    rw [Transform.apply_bind_ok (apply_deliver fun l hl => (hdst l hl).1),
      Transform.apply_bind_ok (apply_deliver fun l hl => (hdst l hl).2)]
    refine ⟨_, _, _, _, _, rfl, rfl, .intro (ha.advance hlast v) ?_⟩
    rw [resume_deliver]
    exact hrest
  | goto target => exact ⟨_, _, _, _, _, rfl, rfl, .intro (ha.goto target hmove) hrest⟩
  | call dst ref args =>
    obtain ⟨ops, rfl, -⟩ := hmove
    exact h.call_inStep hdst ha.resume (ha.advance rfl) hrest
  | ret v => exact ret_inStep ha.resume hrest

/-- **Aligned instructions take the same step.** -/
theorem step_inStep (ha : Aligned s s' R fr fr' i i')
    (hrest : Beneath R base fr.resume rest rest') :
    InStep R base (step s) (step s') (fr :: rest) (fr' :: rest') globals world := by
  have hreads : fr.advance.Reads i := by
    simpa only [Frame.Reads, Frame.value?_advance] using ha.reads
  have hreads' : fr'.advance.Reads i' := by
    simpa only [Frame.Reads, Frame.value?_advance] using ha.reads'
  unfold InStep
  rw [apply_step ha.fetch, apply_step ha.fetch', execute_eq_resolve hreads,
    execute_eq_resolve hreads', Frame.value_advance, Frame.value_advance, ha.resolve]
  obtain ⟨resolved, globals₁, world₁, haside⟩ := resolve_aside s fr.value i globals world
  cases resolved with
  | error e =>
    rw [Transform.apply_bind_error (haside _), Transform.apply_bind_error (haside _)]
    exact ⟨_, _, _, _, _, rfl, rfl, hrest.over rfl ha.resume⟩
  | ok move =>
    rw [Transform.apply_bind_ok (haside _), Transform.apply_bind_ok (haside _)]
    exact h.perform_inStep ha hrest (permits_of_resolve (haside []))

/-! ## Runs -/

/-- The second program gets to where it takes the step that the first one
takes. -/
theorem exists_step (hstacked : Stacked R base frames frames') (globals : Array Value)
    (world : World) :
    ∃ frames₁', Reaches s' (.ofFrames frames' globals world) (.ofFrames frames₁' globals world) ∧
      InStep R base (step s) (step s') frames frames₁' globals world := by
  obtain ⟨hR, hrest⟩ := hstacked
  obtain ⟨fr'', i, i', hreaches, ha⟩ := h.proceed _ _ hR
  exact ⟨fr'' :: _, hreaches _ globals world, h.step_inStep ha hrest⟩

/-- **A run of the first program is followed by the second.** -/
theorem exists_run {n : Nat} {result : Except RuntimeError Value} {m : Memory}
    (hstacked : Stacked R base frames frames')
    (hrun : run s n (.ofFrames frames globals world) = some (result, m)) :
    ∃ k m', run s' k (.ofFrames frames' globals world) = some (result, m') ∧
      m'.settle result = m.settle result := by
  induction n generalizing frames frames' globals world with
  | zero => cases hrun
  | succ n ih =>
    obtain ⟨frames₁', hreaches, outcome, globals₁, world₁, frames₂, frames₂', hstep, hstep', hends⟩ :=
      h.exists_step hstacked globals world
    -- the steps that the second program takes on its own come before the common one
    rw [run, hstep] at hrun
    rcases outcome with e | _ | v
    · cases hrun
      obtain ⟨k, hk⟩ := hreaches.exists_run
        (show run s' 1 _ = some (.error e, _) by rw [run, hstep'])
      exact ⟨k, _, hk, settle_eq _ _ hends.1 hends.2⟩
    · obtain ⟨k, m', hk, hsame⟩ := ih hends hrun
      obtain ⟨k', hk'⟩ := (hreaches.trans (reaches_of_step hstep')).exists_run hk
      exact ⟨k', m', hk', hsame⟩
    · cases hrun
      obtain ⟨rfl, rfl⟩ := hends
      obtain ⟨k, hk⟩ := hreaches.exists_run
        (show run s' 1 _ = some (.ok v, _) by rw [run, hstep'])
      exact ⟨k, _, hk, rfl⟩

/-- **While the first program is unfinished, so is the second.** -/
theorem run_eq_none {n : Nat} (hstacked : Stacked R base frames frames')
    (hrun : run s n (.ofFrames frames globals world) = none) :
    run s' n (.ofFrames frames' globals world) = none := by
  induction n generalizing frames frames' globals world with
  | zero => rfl
  | succ n ih =>
    obtain ⟨frames₁', hreaches, outcome, globals₁, world₁, frames₂, frames₂', hstep, hstep', hends⟩ :=
      h.exists_step hstacked globals world
    rw [run, hstep] at hrun
    rcases outcome with e | _ | v
    · cases hrun
    · -- its own steps only put off its end, so the same number of steps is too few
      refine hreaches.run_eq_none ?_
      rw [run_succ_of_step hstep']
      exact ih hends hrun
    · cases hrun

/-! ## Calls and evaluations -/

/-- Runs come to the same once the call that they are of has ended. -/
theorem run_coincide (hstacked : Stacked R base frames frames')
    (globals : Array Value) (world : World) :
    Coincide
      (fun n => (run s n (.ofFrames frames globals world)).map fun r => (r.1, r.2.settle r.1))
      fun n => (run s' n (.ofFrames frames' globals world)).map fun r =>
        (r.1, r.2.settle r.1) := by
  refine .of_forward (Steady.map (fun n k r hr hle => run_mono hr hle) _) (fun n r hr => ?_)
    fun n hn => ?_
  · obtain ⟨⟨result, left⟩, hrun, rfl⟩ := Option.map_eq_some_iff.mp hr
    obtain ⟨k, left', hrun', hsettle⟩ := h.exists_run hstacked hrun
    refine ⟨k, ?_⟩
    simp only [hrun', Option.map_some, hsettle]
  · simp only [h.run_eq_none hstacked (Option.map_eq_none_iff.mp hn), Option.map_none]

/-- Calls coincide. -/
theorem invoke_coincide (ref : FunctionRef) (args : List Value) (m : Memory) :
    Coincide (fun n => invoke s n ref args m) fun n => invoke s' n ref args m := by
  unfold invoke
  rw [m.eq_ofFrames]
  rcases h.enter_cases rfl ref args .halt m.globals m.world with
    ⟨e, he, he'⟩ | ⟨fr, fr', hR, hresume, hok, hok'⟩
  · rw [he, he']
    exact .refl _
  · rw [hok, hok']
    have hbeneath : Beneath R m.stack.frames fr.resume m.stack.frames m.stack.frames :=
      hresume ▸ .own
    exact h.run_coincide (.intro hR hbeneath) m.globals m.world

/-- Initializations coincide. -/
theorem initModules_coincide (order : List ModuleIndex) (m : Memory) :
    Coincide (fun n => initModules s n order m) fun n => initModules s' n order m := by
  induction order generalizing m with
  | nil => exact .refl _
  | cons i rest ih =>
    cases href : initializer? s.program i with
    | none =>
      have href' : initializer? s'.program i = none := (h.initializer i).trans href
      simp only [initModules, href, href']
      exact ih m
    | some ref =>
      have href' : initializer? s'.program i = some ref := (h.initializer i).trans href
      simp only [initModules_cons href, initModules_cons href']
      exact (h.invoke_coincide ref [] m).andThen (invoke_steady s ref [] m)
        (invoke_steady s' ref [] m) (fun _ => initModules_steady s rest)
        (fun _ => initModules_steady s' rest) fun _ => ih

/-- The entry is checked alike. -/
theorem checkEntry_eq (args : List Value) :
    checkEntry s'.program args = checkEntry s.program args := by
  unfold checkEntry
  rw [h.entry, h.describe]
  cases hf : s.program.function? s.program.entry with
  | none => rw [h.absent _ hf]
  | some f =>
    obtain ⟨f', hf', harity, -⟩ := h.start _ f hf
    simp only [hf', harity]

/-- **Evaluations come to the same.** -/
theorem evaluate_coincide (args : List Value) (w : World) :
    Coincide (fun n => Machine.evaluate s n args w) fun n => Machine.evaluate s' n args w := by
  cases hentry : checkEntry s.program args with
  | error e =>
    have hentry' := (h.checkEntry_eq args).trans hentry
    simp only [Machine.evaluate, hentry, hentry']
    exact .refl _
  | ok _ =>
    have hentry' := (h.checkEntry_eq args).trans hentry
    simp only [evaluate_of_checkEntry hentry, evaluate_of_checkEntry hentry']
    have hstart : startMemory s'.program w = startMemory s.program w := by
      unfold startMemory
      rw [h.globals]
    have hrun : ∀ m, Coincide (fun n => runEntry s n args m) fun n => runEntry s' n args m := by
      intro m
      unfold runEntry
      rw [h.entry]
      exact (h.invoke_coincide s.program.entry args m).map _
    rw [hstart, h.initOrder]
    exact ((h.initModules_coincide _ _).andThen (initModules_steady s _ _)
      (initModules_steady s' _ _) (fun _ => runEntry_steady s args)
      (fun _ => runEntry_steady s' args) fun _ => hrun).map _

end Simulation

end Machine

end BlockIR
