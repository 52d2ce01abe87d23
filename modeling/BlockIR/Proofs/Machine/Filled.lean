import BlockIR.Proofs.Machine.Assigned
/-!
# Slots that begin with other values

A frame begins with null in every slot that is not a parameter. Here is the
evaluation in which each new frame has any values there instead, of one's choice
for each frame (`evaluateFilled`). In charted code the two go on in step: their
frames stand at the same places and have the same values in all slots that are
assigned there (`Matched`), and nothing else is ever read. So the evaluation
comes to the same.
-/

namespace BlockIR

/-- The frame with other values in the slots that are not parameters. -/
def Frame.refill (p : Program) (values : LocalId → Value) (fr : Frame) : Frame :=
  match p.function? fr.function with
  | some f =>
    { fr with locals := fr.locals.mapIdx fun l v => if l < f.arity then v else values l }
  | none => fr

/-- The memory with other values in a frame that is new, on more than some number
of frames. -/
def Memory.refill (p : Program) (values : LocalId → Value) (depth : Nat) (m : Memory) : Memory :=
  if depth < m.stack.height then
    { m with stack := m.stack.modifyTop (Frame.refill p values) }
  else m

namespace Machine

/-! ## Evaluations with filled frames -/

/-- Run with filled frames. The values for a frame that a step begins are chosen
by the number of steps that are left. -/
def runFilled (s : Setting) (fill : Nat → LocalId → Value) : Nat → Memory → Finish Value
  | 0, _ => none
  | fuel + 1, m =>
    match (step s).apply m with
    | (.ok none, m') =>
      runFilled s fill fuel (m'.refill s.program (fill fuel) m.stack.height)
    | (.ok (some v), m') => some (.ok v, m')
    | (.error e, m') => some (.error e, m')

/-- Call a function with filled frames. -/
def invokeFilled (s : Setting) (fill : Nat → LocalId → Value) (fuel : Nat) (ref : FunctionRef)
    (args : List Value) (m : Memory) : Finish Value :=
  match (enter s ref args .halt).apply m with
  | (.error e, m) => some (.error e, m)
  | (.ok _, inner) =>
    (runFilled s fill fuel (inner.refill s.program (fill fuel) m.stack.height)).map
      fun (result, after) => (result, after.settle result)

/-- Initialize modules with filled frames. The values are chosen by the number of
modules that are left, too. -/
def initModulesFilled (s : Setting) (fill : Nat → Nat → LocalId → Value) (fuel : Nat) :
    List ModuleIndex → Memory → Finish Unit
  | [], m => some (.ok (), m)
  | i :: rest, m =>
    match initializer? s.program i with
    | none => initModulesFilled s fill fuel rest m
    | some ref =>
      match invokeFilled s (fill (rest.length + 1)) fuel ref [] m with
      | none => none
      | some (.error e, m) => some (.error e, m)
      | some (.ok _, m) => initModulesFilled s fill fuel rest m

/-- **Evaluate a program with filled frames**: the slots of a new frame that are
not parameters have any values instead of null. They are chosen by the number of
modules left to initialize, which is none for the entry function, by the number
of steps left and by the slot, so every frame has values of its own. -/
def evaluateFilled (s : Setting) (fill : Nat → Nat → LocalId → Value) (fuel : Nat)
    (args : List Value) (w : World) : Option (Except RuntimeError Outcome × World) :=
  match checkEntry s.program args with
  | .error e => some (.error e, w)
  | .ok _ =>
    match initModulesFilled s fill fuel s.program.initOrder (startMemory s.program w) with
    | none => none
    | some (.error e, m) => some (.error e, m.world)
    | some (.ok _, m) =>
      (invokeFilled s (fill 0) fuel s.program.entry args m).map fun (result, m) =>
        (result.map fun v => ⟨v, m.globals⟩, m.world)

variable {s : Setting} {p : Program} {f : Function} {chart : Chart} {ref : FunctionRef}
variable {args : List Value} {fr fr' fr₁ fr₁' : Frame} {pending pending' dst : Option LocalId}
variable {base rest rest' frames frames' : List Frame} {globals : Array Value} {world : World}
variable {i : Instruction} {l : LocalId} {v : Value} {values : LocalId → Value}

/-! ## Frames that stand at the same place -/

/-- **Two frames that stand at the same place**, with the same values in the slots
that are assigned there, but for one that is still to be written. -/
structure Mirrors (p : Program) (pending : Option LocalId) (fr fr' : Frame) : Prop where
  place : fr' = { fr with locals := fr'.locals }
  size : fr'.locals.size = fr.locals.size
  agree : ∃ f chart, p.function? fr.function = some f ∧ f.Charted chart ∧
    f.numLocals ≤ fr.locals.size ∧ ∀ l, f.Assigned chart fr.block fr.next l → l ∉ pending →
      fr'.locals[l]? = fr.locals[l]?

/-- Frames that mirror each other have the same next instruction. -/
theorem Mirrors.fetch (h : Mirrors p pending fr fr') : fetch p fr' = fetch p fr := by
  rw [h.place]
  rfl

/-- Frames that mirror each other go on at the same place. -/
theorem Mirrors.resume (h : Mirrors p pending fr fr') : fr'.resume = fr.resume := by
  rw [h.place]

/-- What an instruction reads is the same in both. -/
theorem Mirrors.value? (h : Mirrors p none fr fr') (hi : Machine.fetch p fr = .ok i) :
    ∀ op ∈ i.operands, fr'.value? op = fr.value? op := by
  obtain ⟨f, chart, hf, hchart, -, hagree⟩ := h.agree
  have hinstr := instrAt?_of_fetch hf hi
  intro op hop
  cases op with
  | const c => rfl
  | var l => exact hagree l (hchart.reads _ _ i hinstr _ hop l rfl) nofun

/-- The slots of an instruction are there. -/
theorem Mirrors.locals_lt (h : Mirrors p pending fr fr') (hp : p.Runnable)
    (hi : Machine.fetch p fr = .ok i) : ∀ l ∈ i.locals, l < fr.locals.size := by
  obtain ⟨f, chart, hf, -, hsize, -⟩ := h.agree
  have hinstr := instrAt?_of_fetch hf hi
  obtain ⟨i', hi', -, hlocals, -⟩ :=
    (hp _ f hf).instr fr.block fr.next (Function.lt_length_of_instrAt? hinstr)
  obtain rfl : i' = i := Option.some.inj (hi'.symm.trans hinstr)
  exact fun l hl => Nat.lt_of_lt_of_le (hlocals l hl) hsize

/-- A frame reads only what is assigned. -/
theorem Mirrors.reads (h : Mirrors p pending fr fr') (hp : p.Runnable)
    (hi : Machine.fetch p fr = .ok i) : fr.Reads i := by
  intro op hop
  cases op with
  | const c => exact ⟨c.value, rfl⟩
  | var l =>
    have hl := h.locals_lt hp hi l (Instruction.local_mem_locals hop rfl)
    exact ⟨_, Array.getElem?_eq_getElem hl⟩

/-- Past an instruction its slot is still to be written. -/
theorem Mirrors.advance (h : Mirrors p none fr fr') (hi : Machine.fetch p fr = .ok i) :
    Mirrors p i.def? fr.advance fr'.advance := by
  obtain ⟨f, chart, hf, hchart, hsize, hagree⟩ := h.agree
  have hinstr := instrAt?_of_fetch hf hi
  refine ⟨by rw [h.place]; rfl, h.size, f, chart, hf, hchart, hsize, fun l hl hne => ?_⟩
  exact hagree l ((hl.of_succ hinstr).resolve_right hne) nofun

/-- Frames that mirror each other do so at the target of a jump. -/
theorem Mirrors.goto (h : Mirrors p none fr fr') (hi : Machine.fetch p fr = .ok i) {t : BlockId}
    (ht : t ∈ i.targets) : Mirrors p none (fr.goto t) (fr'.goto t) := by
  obtain ⟨f, chart, hf, hchart, hsize, hagree⟩ := h.agree
  have hinstr := instrAt?_of_fetch hf hi
  refine ⟨by rw [h.place]; rfl, h.size, f, chart, hf, hchart, hsize, fun l hl _ => ?_⟩
  exact hagree l (hchart.assigned_of_target hinstr ht hl) nofun

/-- Once the slot is written, it has the same value in both. -/
theorem Mirrors.deliver (h : Mirrors p dst fr fr') (v : Value) :
    Mirrors p none (fr.deliver dst v) (fr'.deliver dst v) := by
  cases dst with
  | none => exact h
  | some l =>
    -- until now nothing was known of this one slot
    obtain ⟨f, chart, hf, hchart, hsize, hagree⟩ := h.agree
    refine ⟨by rw [h.place]; rfl, ?_, f, chart, hf, hchart, ?_, fun k hk _ => ?_⟩
    · simp only [Frame.deliver, Frame.size_write, h.size]
    · simpa only [Frame.deliver, Frame.size_write] using hsize
    · simp only [Frame.deliver, Frame.write, Array.getElem?_setIfInBounds, h.size]
      split
      · rfl
      · rename_i hne
        exact hagree k hk fun heq => hne (Option.mem_some.mp heq)

/-- Two frames at the beginning of a call, with any values where there is no
parameter. -/
theorem mirrors_start (hf : p.function? ref = some f) (hchart : f.Charted chart) (resume : Resume)
    (values : LocalId → Value) :
    Mirrors p none (.start ref f args resume) ((Frame.start ref f args resume).refill p values) := by
  have hrefill : (Frame.start ref f args resume).refill p values =
      { Frame.start ref f args resume with
        locals := (Frame.start ref f args resume).locals.mapIdx fun l v =>
          if l < f.arity then v else values l } := by
    have hf' : p.function? (Frame.start ref f args resume).function = some f := hf
    rw [Frame.refill, hf']
  rw [hrefill]
  refine ⟨rfl, Array.size_mapIdx, f, chart, hf, hchart, ?_, fun l hl _ => ?_⟩
  · simp only [Frame.start, Array.size_append, List.size_toArray, Array.size_replicate]
    omega
  · have hparam : l < f.arity := hchart.isParam hl
    simp only [Array.getElem?_mapIdx, if_pos hparam, Option.map_id']

/-! ## Frames that go on in step -/

/-- **Frames that go on in step**, down to the call that the run is of, on the same
frames. -/
inductive Matched (p : Program) (base : List Frame) :
    Option LocalId → List Frame → List Frame → Prop
  | own {pending : Option LocalId} {fr fr' : Frame} : Mirrors p pending fr fr' →
      fr.resume = .halt → Matched p base pending (fr :: base) (fr' :: base)
  | callee {pending dst : Option LocalId} {fr fr' caller caller' : Frame}
      {rest rest' : List Frame} : Mirrors p pending fr fr' → fr.resume = .caller dst →
      (∀ l ∈ dst, l < caller.locals.size) →
      Matched p base dst (caller :: rest) (caller' :: rest') →
      Matched p base pending (fr :: caller :: rest) (fr' :: caller' :: rest')

/-- The top frames of matched stacks mirror each other. -/
theorem Matched.top (h : Matched p base pending (fr :: rest) (fr' :: rest')) :
    Mirrors p pending fr fr' := by
  cases h with
  | own hmirrors _ => exact hmirrors
  | callee hmirrors _ _ _ => exact hmirrors

/-- Matched stacks have a top frame. -/
theorem Matched.exists_cons (h : Matched p base pending frames frames') :
    ∃ fr rest fr' rest', frames = fr :: rest ∧ frames' = fr' :: rest' := by
  cases h with
  | own _ _ => exact ⟨_, _, _, _, rfl, rfl⟩
  | callee _ _ _ _ => exact ⟨_, _, _, _, rfl, rfl⟩

/-- The innermost frames may change, as long as they stand at the same place. -/
theorem Matched.replace (h : Matched p base pending (fr :: rest) (fr' :: rest'))
    (hmirrors : Mirrors p pending' fr₁ fr₁') (hresume : fr₁.resume = fr.resume) :
    Matched p base pending' (fr₁ :: rest) (fr₁' :: rest') := by
  cases h with
  | own _ hhalt => exact .own hmirrors (hresume.trans hhalt)
  | callee _ hcaller hdst hrest => exact .callee hmirrors (hresume.trans hcaller) hdst hrest

/-- **Matched stacks are equally high.** -/
theorem Matched.length_eq (h : Matched p base pending frames frames') :
    frames'.length = frames.length := by
  induction h with
  | own _ _ => rfl
  | callee _ _ _ _ ih => simpa using ih

/-- Matched stacks are those of calls in progress over the same frames. -/
theorem Matched.over (h : Matched p base pending frames frames') :
    Over base .halt frames ∧ Over base .halt frames' := by
  induction h with
  | own hmirrors hhalt => exact ⟨.own hhalt, .own (hmirrors.resume.trans hhalt)⟩
  | callee hmirrors hcaller _ _ ih =>
    exact ⟨.callee hcaller ih.1, .callee (hmirrors.resume.trans hcaller) ih.2⟩

/-- The frames with other values in a new one. -/
def refillAbove (p : Program) (values : LocalId → Value) (depth : Nat) (frames : List Frame) :
    List Frame :=
  if depth < frames.length then frames.modifyHead (Frame.refill p values) else frames

/-- Filling a memory fills its frames. -/
theorem refill_ofFrames (p : Program) (values : LocalId → Value) (depth : Nat)
    (frames : List Frame) (globals : Array Value) (world : World) :
    (Memory.ofFrames frames globals world).refill p values depth =
      .ofFrames (refillAbove p values depth frames) globals world := by
  unfold Memory.refill refillAbove
  have hheight : (Memory.ofFrames frames globals world).stack.height = frames.length := rfl
  rw [hheight]
  split
  · cases frames with
    | nil => rfl
    | cons fr rest => rfl
  · rfl

/-- There is nothing to fill above the height of a stack. -/
theorem refillAbove_of_le {depth : Nat} (h : frames.length ≤ depth) :
    refillAbove p values depth frames = frames :=
  if_neg (Nat.not_lt.mpr h)

/-- **What a step of frames that go on in step comes to.** -/
def Alike (p : Program) (base : List Frame) (depth : Nat) :
    Except RuntimeError (Option Value) → List Frame → List Frame → Prop
  | .ok none, frames, frames' =>
    ∀ values, Matched p base none frames (refillAbove p values depth frames')
  | .ok (some _), frames, frames' => frames = base ∧ frames' = base
  | .error _, frames, frames' => Over base .halt frames ∧ Over base .halt frames'

/-- Matched stacks are alike after a step that begins no call. -/
theorem Matched.alike {depth : Nat} (h : Matched p base none frames frames')
    (hle : frames.length ≤ depth) : Alike p base depth (.ok none) frames frames' := by
  intro values
  rw [refillAbove_of_le (h.length_eq ▸ hle)]
  exact h

/-- An action comes to the same from both lists of frames. -/
def Tandem (p : Program) (base : List Frame) (depth : Nat) (x : Exec (Option Value))
    (frames frames' : List Frame) (globals : Array Value) (world : World) : Prop :=
  ∃ result globals₁ world₁ frames₁ frames₁',
    x.apply (.ofFrames frames globals world) = (result, .ofFrames frames₁ globals₁ world₁) ∧
    x.apply (.ofFrames frames' globals world) = (result, .ofFrames frames₁' globals₁ world₁) ∧
    Alike p base depth result frames₁ frames₁'

/-- A call begins in both, with any values in the new frame of one. -/
theorem call_tandem {ref : FunctionRef} (hcharts : s.program.Charted)
    (h : Matched s.program base dst (fr :: rest) (fr' :: rest'))
    (hdst : ∀ l ∈ dst, l < fr.locals.size) :
    Tandem s.program base (fr :: rest).length (perform s (.call dst ref args)) (fr :: rest)
      (fr' :: rest') globals world := by
  -- the stacks are equally high, so there is room for the call in both or in neither
  have hlength := h.length_eq
  unfold Tandem perform
  simp only [Transform.apply_bind, apply_enter]
  cases hf : s.program.function? ref with
  | none => exact ⟨_, _, _, _, _, rfl, rfl, h.over⟩
  | some f =>
    obtain ⟨chart, hchart⟩ := hcharts ref f hf
    by_cases harity : args.length = f.arity
    · by_cases hdepth : s.limit ≤ (fr :: rest).length
      · have hdepth' : s.limit ≤ (fr' :: rest').length := hlength.symm ▸ hdepth
        simp only [harity, hdepth, hdepth', ne_eq, not_true_eq_false, if_false, if_true]
        exact ⟨_, _, _, _, _, rfl, rfl, h.over⟩
      · have hdepth' : ¬ s.limit ≤ (fr' :: rest').length := hlength.symm ▸ hdepth
        simp only [harity, hdepth, hdepth', ne_eq, not_true_eq_false, if_false]
        refine ⟨_, _, _, _, _, rfl, rfl, fun values => ?_⟩
        have hnew : (fr :: rest).length <
            (Frame.start ref f args (.caller dst) :: fr' :: rest').length := by
          rw [← hlength]
          exact Nat.lt_succ_self _
        rw [refillAbove, if_pos hnew]
        exact .callee (mirrors_start hf hchart _ values) rfl hdst h
    · simp only [harity, ne_eq, not_false_eq_true, if_true]
      exact ⟨_, _, _, _, _, rfl, rfl, h.over⟩

/-- A return goes to the same place in both. -/
theorem ret_tandem (h : Matched s.program base pending (fr :: rest) (fr' :: rest')) :
    Tandem s.program base (fr :: rest).length (perform s (.ret v)) (fr :: rest) (fr' :: rest')
      globals world := by
  have hresume := h.top.resume
  unfold Tandem perform
  cases h with
  | own _ hhalt =>
    rw [apply_leave_halt hhalt, apply_leave_halt (hresume.trans hhalt)]
    exact ⟨_, _, _, _, _, rfl, rfl, rfl, rfl⟩
  | @callee _ dst _ _ caller caller' rest rest' _ hcaller hdst hrest =>
    have hdst' : ∀ l ∈ dst, l < caller'.locals.size := hrest.top.size.symm ▸ hdst
    rw [apply_leave_deliver hcaller hdst, apply_leave_deliver (hresume.trans hcaller) hdst']
    refine ⟨_, _, _, _, _, rfl, rfl, Matched.alike ?_ (Nat.le_succ _)⟩
    exact hrest.replace (hrest.top.deliver v) resume_deliver

/-- **A move that an instruction comes to is made in both.** -/
theorem perform_tandem (hp : s.program.Runnable) (hcharts : s.program.Charted) {move : Move}
    (h : Matched s.program base none (fr :: rest) (fr' :: rest'))
    (hi : fetch s.program fr = .ok i) (hmove : Permits fr.value i move) :
    Tandem s.program base (fr :: rest).length (perform s move) (fr.advance :: rest)
      (fr'.advance :: rest') globals world := by
  have hadvance := h.replace (h.top.advance hi) rfl
  have hdst : ∀ l ∈ i.def?, l < fr.advance.locals.size := fun l hl =>
    h.top.locals_lt hp hi l (Instruction.def_mem_locals hl)
  have hdst' : ∀ l ∈ i.def?, l < fr'.advance.locals.size := hadvance.top.size.symm ▸ hdst
  cases move with
  | deliver dst v =>
    obtain ⟨rfl, -⟩ := hmove
    unfold Tandem perform
    rw [Transform.apply_bind_ok (apply_deliver hdst), Transform.apply_bind_ok (apply_deliver hdst')]
    refine ⟨_, _, _, _, _, rfl, rfl, Matched.alike ?_ (Nat.le_refl _)⟩
    exact hadvance.replace (hadvance.top.deliver v) resume_deliver
  | goto target =>
    refine ⟨_, _, _, _, _, rfl, rfl, Matched.alike ?_ (Nat.le_refl _)⟩
    exact h.replace (h.top.goto hi hmove) rfl
  | call dst ref args =>
    obtain ⟨ops, rfl, -⟩ := hmove
    exact call_tandem hcharts hadvance hdst
  | ret v => exact ret_tandem hadvance

/-- **A step of frames that go on in step.** -/
theorem step_tandem (hp : s.program.Runnable) (hcharts : s.program.Charted)
    (h : Matched s.program base none (fr :: rest) (fr' :: rest')) :
    Tandem s.program base (fr :: rest).length (step s) (fr :: rest) (fr' :: rest') globals
      world := by
  have hfetch := h.top.fetch
  cases hi : fetch s.program fr with
  | error e =>
    exact ⟨_, _, _, _, _, apply_step_stuck hi, apply_step_stuck (hfetch.trans hi), h.over⟩
  | ok i =>
    -- all that the instruction reads is assigned, so it comes to the same move in both
    have hvalue := h.top.value? hi
    have hreads : fr.advance.Reads i := by
      simpa only [Frame.Reads, Frame.value?_advance] using h.top.reads hp hi
    have hreads' : fr'.advance.Reads i := by
      intro op hop
      rw [Frame.value?_advance, hvalue op hop]
      exact h.top.reads hp hi op hop
    have hsame : resolve s fr'.advance.value i = resolve s fr.advance.value i := by
      rw [Frame.value_advance, Frame.value_advance]
      refine resolve_congr fun op hop => ?_
      rw [Frame.value, hvalue op hop, Frame.value]
    obtain ⟨resolved, globals₁, world₁, haside⟩ := resolve_aside s fr.advance.value i globals world
    unfold Tandem
    rw [apply_step hi, apply_step (hfetch.trans hi), execute_eq_resolve hreads,
      execute_eq_resolve hreads', hsame]
    cases resolved with
    | error e =>
      rw [Transform.apply_bind_error (haside _), Transform.apply_bind_error (haside _)]
      exact ⟨_, _, _, _, _, rfl, rfl, (h.replace (h.top.advance hi) rfl).over⟩
    | ok move =>
      have hmove := permits_of_resolve (haside (fr.advance :: rest))
      rw [Frame.value_advance] at hmove
      rw [Transform.apply_bind_ok (haside _), Transform.apply_bind_ok (haside _)]
      exact perform_tandem hp hcharts h hi hmove

/-! ## Whole evaluations -/

/-- What a run comes to, once the call that it is of has ended. -/
def settled (x : Finish Value) : Finish Value :=
  x.map fun (result, after) => (result, after.settle result)

/-- **Runs of frames that go on in step come to the same.** -/
theorem runFilled_eq (hp : s.program.Runnable) (hcharts : s.program.Charted)
    (fill : Nat → LocalId → Value) (fuel : Nat)
    (h : Matched s.program base none frames frames') :
    settled (runFilled s fill fuel (.ofFrames frames' globals world)) =
      settled (run s fuel (.ofFrames frames globals world)) := by
  induction fuel generalizing frames frames' globals world with
  | zero => rfl
  | succ fuel ih =>
    obtain ⟨fr, rest, fr', rest', rfl, rfl⟩ := h.exists_cons
    have htandem : Tandem s.program base _ (step s) _ _ globals world := step_tandem hp hcharts h
    obtain ⟨result, globals₁, world₁, frames₁, frames₁', hstep, hstep', halike⟩ := htandem
    rw [run, hstep, runFilled, hstep']
    rcases result with e | _ | v
    · have hsettle := settle_eq (e := e) globals₁ world₁ halike.1 halike.2
      simp only [settled, Option.map_some, hsettle]
    · -- a frame that the step has begun is filled before the run goes on
      have hdepth : (Memory.ofFrames (fr' :: rest') globals world).stack.height =
          (fr :: rest).length := h.length_eq
      dsimp only
      rw [hdepth, refill_ofFrames]
      exact ih (halike (fill fuel))
    · obtain ⟨rfl, rfl⟩ := halike
      rfl

/-- **A call comes to the same with filled frames**, from any memory. -/
theorem invokeFilled_eq (hp : s.program.Runnable) (hcharts : s.program.Charted)
    (fill : Nat → LocalId → Value) (fuel : Nat) (ref : FunctionRef) (args : List Value)
    (m : Memory) : invokeFilled s fill fuel ref args m = invoke s fuel ref args m := by
  rw [invokeFilled, invoke]
  rcases henter : (enter s ref args .halt).apply m with ⟨e | _, inner⟩
  · rfl
  · obtain ⟨-, f, hf, -, rfl⟩ := enter_eq_start henter
    obtain ⟨chart, hchart⟩ := hcharts ref f hf
    have hmatched : Matched s.program m.stack.frames none
        (.start ref f args .halt :: m.stack.frames)
        ((Frame.start ref f args .halt).refill s.program (fill fuel) :: m.stack.frames) :=
      .own (mirrors_start hf hchart .halt (fill fuel)) rfl
    have hinner : ({ m with stack := m.stack.push (.start ref f args .halt) } : Memory) =
        .ofFrames (.start ref f args .halt :: m.stack.frames) m.globals m.world :=
      Memory.eq_ofFrames _
    have hnew : m.stack.height < (Frame.start ref f args .halt :: m.stack.frames).length := by
      rw [m.stack.height_eq]
      exact Nat.lt_succ_self _
    have hrun : settled (runFilled s fill fuel (.ofFrames _ m.globals m.world)) = _ :=
      runFilled_eq hp hcharts fill fuel hmatched
    rw [hinner]
    dsimp only
    rw [refill_ofFrames, refillAbove, if_pos hnew]
    exact hrun

/-- An initialization does not see what new slots are filled with. -/
theorem initModulesFilled_eq (hp : s.program.Runnable) (hcharts : s.program.Charted)
    (fill : Nat → Nat → LocalId → Value) (fuel : Nat) (order : List ModuleIndex) (m : Memory) :
    initModulesFilled s fill fuel order m = initModules s fuel order m := by
  induction order generalizing m with
  | nil => rfl
  | cons i rest ih =>
    rw [initModulesFilled, initModules]
    cases initializer? s.program i with
    | none => exact ih m
    | some ref =>
      dsimp only
      rw [invokeFilled_eq hp hcharts]
      rcases invoke s fuel ref [] m with _ | ⟨e | v, after⟩
      · rfl
      · rfl
      · exact ih after

/-- **An evaluation comes to the same with filled frames**, if the functions of the
program can be run and read only what is assigned. -/
theorem evaluateFilled_eq (hp : s.program.Runnable) (hcharts : s.program.Charted)
    (fill : Nat → Nat → LocalId → Value) (fuel : Nat) (args : List Value) (w : World) :
    evaluateFilled s fill fuel args w = evaluate s fuel args w := by
  rw [evaluateFilled, evaluate]
  simp only [initModulesFilled_eq hp hcharts, invokeFilled_eq hp hcharts, runEntry, Option.map_map]
  rfl

/-- A program that returns a slot of which nothing is written. -/
def unwrittenProgram : Program where
  modules := #[{
    id := "m"
    functions := #[([.freshLocal, .ret (.var 0)].foldl (fun c e => Emission.leave e c)
      (Cursor.atEntry (Function.empty "main" []))).function] }]
  globals := #[]
  entry := ⟨0, 0⟩
  initOrder := []

-- without a chart it matters what the slots of a new frame begin with
example :
    let s : Setting := ⟨unwrittenProgram, ⟨[]⟩, 1⟩
    let valueOf := fun (r : Option (Except RuntimeError Outcome × World)) =>
      r.bind fun r => r.1.toOption.map (·.value)
    valueOf (evaluate s 1 [] ⟨{}, {}, .steady 0⟩) = some .null ∧
      valueOf (evaluateFilled s (fun _ _ _ => .int 7) 1 [] ⟨{}, {}, .steady 0⟩) =
        some (.int 7) := by
  decide +kernel

end Machine

end BlockIR
