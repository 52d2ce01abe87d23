import BlockIR.Proofs.Machine.Frames
import BlockIR.Proofs.Machine.Run
import BlockIR.Proofs.Program.Reached
/-!
# The stack discipline of calls

The `Course` of a call is the memories from the one with its new frame on, as
long as that frame is there. Throughout it the frames that the call began on lie
untouched below those of the call and of the calls it makes (`Over`), whatever
the program. A call that fails ends together with the calls it has made, one
after the other, and the last of them to end is the call that the run is of
(`Over.unwind`). So a call that is over, with a value or an error, leaves the
stack it began on.
-/

namespace BlockIR

open Success

/-- **What becomes of the stack that a failed call began on**: it stays if the run
is of that call, and otherwise its innermost call, the caller, fails too. -/
def Resume.unwind : Resume → Stack → Stack
  | .halt, t => t
  | .caller _, t => t.unwind

namespace Machine

variable {s : Setting} {ref : FunctionRef} {args : List Value} {resume : Resume}
variable {fr fr' : Frame} {rest base frames frames' : List Frame} {m m' m'' : Memory}
variable {result : Except RuntimeError (Option Value)}

theorem stack_eq_of_frames {t u : Stack} (h : t.frames = u.frames) : t = u := by
  obtain ⟨frames, height, hheight⟩ := t
  obtain ⟨frames', height', hheight'⟩ := u
  cases h
  cases hheight
  cases hheight'
  rfl

/-! ## Beginning a call -/

/-- **The function exists and takes that many arguments.** -/
def Admits (p : Program) (ref : FunctionRef) (args : List Value) : Prop :=
  ∃ f, p.function? ref = some f ∧ args.length = f.arity

/-- **A frame at the beginning of a call**: the arguments are in the first slots
and null in all others. -/
def Begins (p : Program) (ref : FunctionRef) (args : List Value) (resume : Resume)
    (fr : Frame) : Prop :=
  ∃ f, p.function? ref = some f ∧ args.length = f.arity ∧
    fr.function = ref ∧ fr.resume = resume ∧ fr.block = f.entry ∧ fr.next = 0 ∧
    ∀ l, fr.locals[l]? =
      if l < f.arity then args[l]? else if l < f.numLocals then some .null else none

/-- A call that may begin begins with its frame. -/
theorem begins_start {p : Program} {f : Function} (hf : p.function? ref = some f)
    (harity : args.length = f.arity) : Begins p ref args resume (.start ref f args resume) := by
  refine ⟨f, hf, harity, rfl, rfl, rfl, rfl, fun l => ?_⟩
  rw [← harity]
  simp only [Frame.start]
  by_cases hl : l < args.length
  · rw [Array.getElem?_append_left (by simpa using hl), List.getElem?_toArray, if_pos hl]
  · have hroom : l - args.length < f.numLocals - args.length ↔ l < f.numLocals := by omega
    rw [Array.getElem?_append_right (by simpa using hl), Array.getElem?_replicate]
    simp only [List.size_toArray, hroom, hl, if_false]

/-- What beginning a call comes to, by the function, the arguments and the height. -/
theorem apply_enter_of_memory (s : Setting) (ref : FunctionRef) (args : List Value)
    (resume : Resume) (m : Memory) :
    (enter s ref args resume).apply m =
      match s.program.function? ref with
      | none => (.error (.unknownFunction (s.program.describe ref)), m)
      | some f =>
        if args.length ≠ f.arity then
          (.error (.arity (s.program.describe ref) f.arity args.length), m)
        else if s.limit ≤ m.stack.height then (.error (.stackOverflow s.limit), m)
        else (.ok (), { m with stack := m.stack.push (.start ref f args resume) }) := by
  obtain ⟨⟨frames, height, hheight⟩, globals, world⟩ := m
  subst hheight
  exact apply_enter ref args resume frames

/-- A call that begins has room, and is one of a function with that many parameters. -/
theorem enter_eq_start (h : (enter s ref args resume).apply m = (.ok (), m')) :
    m.stack.height < s.limit ∧ ∃ f, s.program.function? ref = some f ∧ args.length = f.arity ∧
      m' = { m with stack := m.stack.push (.start ref f args resume) } := by
  rw [apply_enter_of_memory] at h
  cases hf : s.program.function? ref with
  | none =>
    rw [hf] at h
    cases h
  | some f =>
    simp only [hf] at h
    split at h
    · cases h
    · rename_i harity
      split at h
      · cases h
      · rename_i hdepth
        cases h
        exact ⟨Nat.lt_of_not_le hdepth, f, rfl, not_not.mp harity, rfl⟩

/-- A call that begins pushes a frame. -/
theorem enter_eq_ok (h : (enter s ref args resume).apply m = (.ok (), m')) :
    m.stack.height < s.limit ∧ ∃ fr, Begins s.program ref args resume fr ∧
      m' = { m with stack := m.stack.push fr } := by
  obtain ⟨hdepth, f, hf, harity, rfl⟩ := enter_eq_start h
  exact ⟨hdepth, _, begins_start hf harity, rfl⟩

/-- **A call that does not begin leaves the memory**, and an overflow is one of the
height. -/
theorem enter_eq_error {e : RuntimeError}
    (h : (enter s ref args resume).apply m = (.error e, m')) :
    m' = m ∧ ∀ limit, e = .stackOverflow limit →
      limit = s.limit ∧ Admits s.program ref args ∧ s.limit ≤ m.stack.height := by
  rw [apply_enter_of_memory] at h
  cases hf : s.program.function? ref with
  | none =>
    rw [hf] at h
    cases h
    exact ⟨rfl, nofun⟩
  | some f =>
    simp only [hf] at h
    split at h
    · cases h
      exact ⟨rfl, nofun⟩
    · rename_i harity
      split at h
      · rename_i hdepth
        cases h
        refine ⟨rfl, ?_⟩
        rintro limit ⟨⟩
        exact ⟨rfl, ⟨f, hf, not_not.mp harity⟩, hdepth⟩
      · cases h

/-- Without room a call that may begin overflows. -/
theorem enter_full (hadmits : Admits s.program ref args) (hdepth : s.limit ≤ m.stack.height) :
    (enter s ref args resume).apply m = (.error (.stackOverflow s.limit), m) := by
  obtain ⟨f, hf, harity⟩ := hadmits
  rw [apply_enter_of_memory, hf]
  simp only [harity, hdepth, ne_eq, not_true_eq_false, if_false, if_true]

/-! ## The frames of a call -/

/-- **The frames of a call on those it began on**: its own, and those of the
calls that it has made. -/
inductive Over (base : List Frame) (resume : Resume) : List Frame → Prop
  | own {fr : Frame} : fr.resume = resume → Over base resume (fr :: base)
  | callee {fr : Frame} {rest : List Frame} {dst : Option LocalId} :
      fr.resume = .caller dst → Over base resume rest → Over base resume (fr :: rest)

/-- The frames beneath a call stay beneath it. -/
theorem Over.suffix (h : Over base resume frames) : base <:+ frames := by
  induction h with
  | own _ => exact List.suffix_cons _ _
  | callee _ _ ih => exact ih.trans (List.suffix_cons _ _)

/-- A call in progress has a frame of its own. -/
theorem Over.length_lt (h : Over base resume frames) : base.length < frames.length := by
  induction h with
  | own _ => simp
  | callee _ _ ih =>
    rw [List.length_cons]
    omega

/-- The innermost frame may change, but not what becomes of its result. -/
theorem Over.replace (h : Over base resume (fr :: rest)) (hr : fr'.resume = fr.resume) :
    Over base resume (fr' :: rest) := by
  cases h with
  | own hown => exact .own (hr.trans hown)
  | callee hcallee hrest => exact .callee (hr.trans hcallee) hrest

/-- A result does not end the call that gets it. -/
theorem Over.deliver (h : Over base resume frames) (dst : Option LocalId) (v : Value) :
    Over base resume (frames.modifyHead (·.deliver dst v)) := by
  cases h with
  | own hown => exact (Over.own hown).replace resume_deliver
  | callee hcallee hrest => exact (Over.callee hcallee hrest).replace resume_deliver

/-- A call that fails ends, and then it is for its caller to go on. -/
theorem unwind_of_frames {u : Stack} (h : u.frames = fr :: rest) :
    u.unwind = fr.resume.unwind u.pop := by
  have htail : u.pop.frames = rest := by
    change u.frames.tail = rest
    rw [h, List.tail_cons]
  unfold Stack.unwind
  rw [h, Stack.endCalls]
  cases fr.resume with
  | halt => rfl
  | caller dst =>
    change Stack.endCalls rest u.pop = Stack.endCalls u.pop.frames u.pop
    rw [htail]

/-- **A failure ends the calls that a call has made, and then the call.** -/
theorem Over.unwind {t u : Stack} (h : Over t.frames resume u.frames) :
    u.unwind = resume.unwind t := by
  generalize hframes : u.frames = frames at h
  induction h generalizing u with
  | own hown =>
    have hpop : u.pop = t := by
      refine stack_eq_of_frames ?_
      change u.frames.tail = t.frames
      rw [hframes, List.tail_cons]
    rw [unwind_of_frames hframes, hown, hpop]
  | callee hcallee _ ih =>
    rw [unwind_of_frames hframes, hcallee]
    refine ih ?_
    change u.frames.tail = _
    rw [hframes, List.tail_cons]

/-- Failures of one call, with any calls that it has made, leave the same memory. -/
theorem settle_eq {e : RuntimeError} (globals : Array Value) (world : World)
    (h : Over base .halt frames) (h' : Over base .halt frames') :
    (Memory.ofFrames frames' globals world).settle (.error e : Except RuntimeError Value) =
      (Memory.ofFrames frames globals world).settle (.error e : Except RuntimeError Value) := by
  have hunwind : ∀ above : List Frame, Over base .halt above →
      (⟨above, above.length, rfl⟩ : Stack).unwind = ⟨base, base.length, rfl⟩ := by
    intro above hover
    exact Over.unwind (t := ⟨base, base.length, rfl⟩) (u := ⟨above, above.length, rfl⟩) hover
  simp only [Memory.settle, Memory.ofFrames, hunwind _ h, hunwind _ h']

/-- **What a step makes of the frames of a call.** It goes on; or it returns to
its caller, who keeps the result; or it ends the run; or it fails, and then only
its own frame may be gone. Only a frame of the call itself is touched, but for the
slot of the result. -/
theorem Steps.over (h : Steps s fr rest result frames) (hover : Over base resume (fr :: rest)) :
    match result with
    | .ok none => Over base resume frames ∨
        ∃ dst v, resume = .caller dst ∧ frames = base.modifyHead (·.deliver dst v)
    | .ok (some _) => resume = .halt ∧ frames = base
    | .error _ => Over base resume frames ∨ ∃ dst, resume = .caller dst ∧ frames = base := by
  have hadvance : Over base resume (fr.advance :: rest) := hover.replace rfl
  cases h with
  | stuck _ _ => exact .inl hover
  | fail _ _ => exact .inl hadvance
  | write v _ _ => exact .inl (hadvance.replace resume_deliver)
  | goto _ _ => exact .inl (hover.replace rfl)
  | call _ _ _ _ _ => exact .inl (.callee rfl hadvance)
  | full _ _ _ _ _ => exact .inl hadvance
  | halt v _ hhalt =>
    cases hover with
    | own hown => exact ⟨hown.symm.trans hhalt, rfl⟩
    | callee hcallee _ => cases hhalt.symm.trans hcallee
  | ret v _ hcaller =>
    cases hover with
    | own hown => exact .inr ⟨_, v, hown.symm.trans hcaller, rfl⟩
    | callee _ hrest => exact .inl (hrest.deliver _ v)
  | lost _ hcaller _ =>
    cases hover with
    | own hown => exact .inr ⟨_, hown.symm.trans hcaller, rfl⟩
    | callee _ hrest => exact .inl hrest

/-- A step keeps the number of frames within the limit. -/
theorem Steps.length_le (h : Steps s fr rest result frames)
    (hle : (fr :: rest).length ≤ s.limit) : frames.length ≤ s.limit := by
  have hrest : rest.length ≤ s.limit := by
    rw [List.length_cons] at hle
    omega
  cases h with
  | stuck _ _ => exact hle
  | fail _ _ => exact hle
  | write v _ _ => exact hle
  | goto _ _ => exact hle
  | call _ _ _ _ hroom => exact hroom
  | full _ _ _ _ _ => exact hle
  | halt v _ _ => exact hrest
  | ret v _ _ =>
    rw [List.length_modifyHead]
    exact hrest
  | lost _ _ _ => exact hrest

/-! ## The course of a call -/

/-- **The course of a call**, the latest memory first: it begins with a new frame
on the others, and goes on as long as that frame is there. -/
inductive Course (s : Setting) (ref : FunctionRef) (args : List Value) (resume : Resume)
    (m : Memory) : List Memory → Prop
  | start {m' : Memory} : (enter s ref args resume).apply m = (.ok (), m') →
      Course s ref args resume m [m']
  | more {m' m'' : Memory} {past : List Memory} : Course s ref args resume m (m' :: past) →
      (step s).apply m' = (.ok none, m'') → m.stack.height < m''.stack.height →
      Course s ref args resume m (m'' :: m' :: past)

variable {past trace : List Memory}

/-- A new frame is on top. -/
theorem frames_push (t : Stack) (fr : Frame) : (t.push fr).frames = fr :: t.frames := rfl

/-- A step of a memory is one of its frames. -/
theorem steps_of_memory (hstep : (step s).apply m = (result, m'))
    (hframes : m.stack.frames = fr :: rest) : Steps s fr rest result m'.stack.frames := by
  rw [m.eq_ofFrames, hframes] at hstep
  exact steps_of_step hstep

/-- **What a step makes of a call in progress**: of the frames of the calls that it
has made, which are above its own, and of its own frame. -/
inductive Affects (p : Program) : List Frame → Frame → List Frame → Frame → Prop
  /-- The call takes the step. It keeps a result, if there is one, and goes on. -/
  | write {own : Frame} {i : Instruction} (v : Value) : fetch p own = .ok i →
      Affects p [] own [] (own.advance.deliver i.def? v)
  /-- It continues at another block. -/
  | goto {own : Frame} {i : Instruction} {target : BlockId} : fetch p own = .ok i →
      target ∈ i.targets → Affects p [] own [] (own.goto target)
  /-- It makes a call. -/
  | call {own callee : Frame} {i : Instruction} : fetch p own = .ok i →
      Affects p [] own [callee] own.advance
  /-- It waits for a call that it has made. -/
  | wait {own fr fr' : Frame} {above above' : List Frame} :
      Affects p (fr :: above) own (fr' :: above') own
  /-- A call that it has made returns to it. -/
  | receive {own callee : Frame} (dst : Option LocalId) (v : Value) :
      Affects p [callee] own [] (own.deliver dst v)

/-- **A step affects every call in progress** that is not over with it. -/
theorem affects_of_step {above : List Frame} {own : Frame}
    (hframes : m.stack.frames = above ++ own :: base) (hstep : (step s).apply m = (.ok none, m'))
    (hheight : base.length < m'.stack.height) :
    ∃ above' own', m'.stack.frames = above' ++ own' :: base ∧
      Affects s.program above own above' own' := by
  rw [m'.stack.height_eq] at hheight
  cases above with
  | nil =>
    have hsteps := steps_of_memory hstep hframes
    generalize m'.stack.frames = frames' at hsteps hheight ⊢
    cases hsteps with
    | write v hi _ => exact ⟨[], _, rfl, .write v hi⟩
    | goto hi ht => exact ⟨[], _, rfl, .goto hi ht⟩
    | call hi _ _ _ _ => exact ⟨[_], _, rfl, .call hi⟩
    | ret v _ _ =>
      -- its frame would be gone
      rw [List.length_modifyHead] at hheight
      exact absurd hheight (Nat.lt_irrefl _)
  | cons fr above =>
    have hsteps := steps_of_memory hstep hframes
    generalize m'.stack.frames = frames' at hsteps hheight ⊢
    cases hsteps with
    | write v _ _ => exact ⟨_ :: above, own, rfl, .wait⟩
    | goto _ _ => exact ⟨_ :: above, own, rfl, .wait⟩
    | call _ _ _ _ _ => exact ⟨_ :: _ :: above, own, rfl, .wait⟩
    | ret v _ _ =>
      -- it gets the result if the call that returns is the last it made
      cases above with
      | nil => exact ⟨[], _, rfl, .receive _ v⟩
      | cons caller above => exact ⟨_ :: above, own, rfl, .wait⟩

theorem Over.exists_cons (h : Over base resume frames) : ∃ fr rest, frames = fr :: rest := by
  cases h with
  | own _ => exact ⟨_, _, rfl⟩
  | callee _ _ => exact ⟨_, _, rfl⟩

/-- **Throughout the course of a call** its frames are on those it began on, and
there are no more frames than the limit. -/
theorem Course.over (h : Course s ref args resume m trace) : ∀ m' ∈ trace,
    Over m.stack.frames resume m'.stack.frames ∧ m'.stack.height ≤ s.limit := by
  induction h with
  | start henter =>
    intro m' hmem
    obtain rfl := List.mem_singleton.mp hmem
    obtain ⟨hroom, fr, ⟨f, -, -, -, hresume, -⟩, rfl⟩ := enter_eq_ok henter
    exact ⟨.own hresume, hroom⟩
  | @more m' m'' past hcourse hstep hheight ih =>
    intro m₀ hmem
    rcases List.mem_cons.mp hmem with rfl | hmem
    · obtain ⟨hover, hle⟩ := ih m' List.mem_cons_self
      obtain ⟨fr, rest, hframes⟩ := hover.exists_cons
      have hsteps := steps_of_memory hstep hframes
      rw [hframes] at hover
      rw [m'.stack.height_eq, hframes] at hle
      refine ⟨?_, m₀.stack.height_eq ▸ hsteps.length_le hle⟩
      rcases hsteps.over hover with hnext | ⟨dst, v, -, hreturned⟩
      · exact hnext
      · -- a call that has returned has no frame left
        rw [m.stack.height_eq, m₀.stack.height_eq, hreturned, List.length_modifyHead] at hheight
        omega
    · exact ih m₀ hmem

/-- **How the course of a call ends**: with the stack it began on, where the
caller, if there is one, has the result. A failure leaves that stack below the
calls that fail, and they end one after the other: the call too, and after it its
caller, if there is one. -/
def Restores (t : Stack) (resume : Resume) : Except RuntimeError (Option Value) → Stack → Prop
  | .ok none, u => t.height < u.height ∨
      ∃ dst v, resume = .caller dst ∧ u = t.modifyTop (·.deliver dst v)
  | .ok (some _), u => resume = .halt ∧ u = t
  | .error _, u => t.frames <:+ u.frames ∧ u.unwind = resume.unwind t

/-- A change of the top frame is one of the first frame. -/
theorem frames_modifyTop (t : Stack) (g : Frame → Frame) :
    (t.modifyTop g).frames = t.frames.modifyHead g := by
  obtain ⟨_ | ⟨fr, rest⟩, height, hheight⟩ := t <;> rfl

/-- **When a call is over the stack is what it was**, or unwinds to that. -/
theorem Course.restores (h : Course s ref args resume m (m' :: past))
    (hstep : (step s).apply m' = (result, m'')) :
    Restores m.stack resume result m''.stack := by
  obtain ⟨hover, -⟩ := h.over m' List.mem_cons_self
  obtain ⟨fr, rest, hframes⟩ := hover.exists_cons
  have hsteps := steps_of_memory hstep hframes
  rw [hframes] at hover
  have hleaves := hsteps.over hover
  match result with
  | .ok none =>
    rcases hleaves with hnext | ⟨dst, v, hresume, hreturned⟩
    · left
      rw [m.stack.height_eq, m''.stack.height_eq]
      exact hnext.length_lt
    · refine .inr ⟨dst, v, hresume, stack_eq_of_frames ?_⟩
      rw [frames_modifyTop, hreturned]
  | .ok (some v) => exact ⟨hleaves.1, stack_eq_of_frames hleaves.2⟩
  | .error e =>
    rcases hleaves with hfails | ⟨dst, rfl, hreturned⟩
    · exact ⟨hfails.suffix, hfails.unwind⟩
    · rw [stack_eq_of_frames hreturned]
      exact ⟨List.suffix_refl _, rfl⟩

/-- The call that a run is of does not return to a caller, so its course goes on
with every step that does not end the run. -/
theorem Course.next (h : Course s ref args .halt m (m' :: past))
    (hstep : (step s).apply m' = (.ok none, m'')) :
    Course s ref args .halt m (m'' :: m' :: past) := by
  rcases h.restores hstep with hheight | ⟨dst, v, hresume, -⟩
  · exact .more h hstep hheight
  · cases hresume

/-- A run that ends does so along the course of its call. -/
theorem exists_course_of_run {fuel : Nat} {outcome : Except RuntimeError Value} {left : Memory}
    (h : Course s ref args .halt m (m' :: past)) (hrun : run s fuel m' = some (outcome, left)) :
    ∃ last past, Course s ref args .halt m (last :: past) ∧
      (step s).apply last = (outcome.map some, left) := by
  induction fuel generalizing m' past with
  | zero => cases hrun
  | succ fuel ih =>
    rw [run] at hrun
    rcases hstep : (step s).apply m' with ⟨e | _ | v, m''⟩
    · rw [hstep] at hrun
      cases hrun
      exact ⟨m', past, h, hstep⟩
    · rw [hstep] at hrun
      exact ih (h.next hstep) hrun
    · rw [hstep] at hrun
      cases hrun
      exact ⟨m', past, h, hstep⟩

/-- **What a call comes to, it comes to at the end of its course**, unless it does
not begin. -/
theorem invoke_cases {fuel : Nat} {outcome : Except RuntimeError Value}
    (h : invoke s fuel ref args m = some (outcome, m')) :
    (∃ e, outcome = .error e ∧ (enter s ref args .halt).apply m = (.error e, m')) ∨
      ∃ last past left, Course s ref args .halt m (last :: past) ∧
        (step s).apply last = (outcome.map some, left) ∧ m' = left.settle outcome := by
  rw [invoke] at h
  rcases henter : (enter s ref args .halt).apply m with ⟨e | _, inner⟩
  · rw [henter] at h
    cases h
    exact .inl ⟨e, rfl, rfl⟩
  · rw [henter] at h
    obtain ⟨⟨outcome', left⟩, hrun, heq⟩ := Option.map_eq_some_iff.mp h
    cases heq
    obtain ⟨last, past, hcourse, hstep⟩ := exists_course_of_run (.start henter) hrun
    exact .inr ⟨last, past, left, hcourse, hstep, rfl⟩

/-- The course of a call is a run from its first memory. -/
theorem Course.reaches (h : Course s ref args resume m (m' :: past)) :
    ∃ first, (enter s ref args resume).apply m = (.ok (), first) ∧ Reaches s first m' := by
  generalize htrace : m' :: past = trace at h
  induction h generalizing m' past with
  | start henter =>
    cases htrace
    exact ⟨_, henter, .refl s _⟩
  | more hcourse hstep _ ih =>
    cases htrace
    obtain ⟨first, henter, hreaches⟩ := ih rfl
    exact ⟨first, henter, hreaches.trans (reaches_of_step hstep)⟩

/-- Where the course of a call ends, the call comes to something. -/
theorem Course.exists_invoke {outcome : Except RuntimeError Value} {left : Memory}
    (h : Course s ref args .halt m (m' :: past))
    (hstep : (step s).apply m' = (outcome.map some, left)) :
    ∃ fuel, invoke s fuel ref args m = some (outcome, left.settle outcome) := by
  obtain ⟨first, henter, hreaches⟩ := h.reaches
  have hlast : run s 1 m' = some (outcome, left) := by
    rw [run, hstep]
    cases outcome <;> rfl
  obtain ⟨fuel, hrun⟩ := hreaches.exists_run hlast
  refine ⟨fuel, ?_⟩
  rw [invoke, henter]
  simp only [hrun, Option.map_some]

/-- **A step that makes the stack grow begins a call** on the frame that it moved
past its instruction. -/
theorem enter_of_grows (hstep : (step s).apply m = (.ok none, m'))
    (hframes : m.stack.frames = fr :: rest) (hgrows : m.stack.height < m'.stack.height) :
    ∃ caller ref args dst, caller.stack = m.stack.modifyTop Frame.advance ∧
      (enter s ref args (.caller dst)).apply caller = (.ok (), m') := by
  have hsteps := steps_of_memory hstep hframes
  rw [m.stack.height_eq, m'.stack.height_eq, hframes] at hgrows
  generalize hframes' : m'.stack.frames = frames' at hsteps hgrows
  cases hsteps with
  | write v _ _ => exact absurd hgrows (Nat.lt_irrefl _)
  | goto _ _ => exact absurd hgrows (Nat.lt_irrefl _)
  | @call dst ref ops args f _ _ hf harity hroom =>
    have htop : (m.stack.modifyTop Frame.advance).frames = fr.advance :: rest := by
      rw [frames_modifyTop, hframes]
      rfl
    have hdepth : ¬ s.limit ≤ (m.stack.modifyTop Frame.advance).height := by
      rw [Stack.height_eq, htop, List.length_cons]
      omega
    have hpush : (m.stack.modifyTop Frame.advance).push (.start ref f args (.caller dst)) =
        m'.stack := by
      refine stack_eq_of_frames ?_
      rw [frames_push, htop, hframes']
    refine ⟨{ m' with stack := m.stack.modifyTop Frame.advance }, ref, args, dst, rfl, ?_⟩
    rw [apply_enter_of_memory, hf]
    simp only [harity, hdepth, ne_eq, not_true_eq_false, if_false, hpush]
  | ret v _ _ =>
    rw [List.length_modifyHead, List.length_cons] at hgrows
    omega

/-! ## The depth limit -/

/-- **The next instruction calls a function that exists**, with as many arguments
as it has parameters. -/
def Attempts (s : Setting) (m : Memory) : Prop :=
  ∃ fr rest dst ref ops args, m.stack.frames = fr :: rest ∧
    fetch s.program fr = .ok (.call dst (.function ref) ops) ∧ fr.Values ops args ∧
    Admits s.program ref args

/-- **A call finds the stack full**: the call itself, or a call at some point of its
course, would begin, and the stack holds as many frames as the limit allows. -/
def FindsFull (s : Setting) (ref : FunctionRef) (args : List Value) (m : Memory) : Prop :=
  Admits s.program ref args ∧ m.stack.height = s.limit ∨
    ∃ m' past, Course s ref args .halt m (m' :: past) ∧ Attempts s m' ∧
      m'.stack.height = s.limit

/-- **No operation of the table names a full stack itself.** -/
def Unfeigned (s : Setting) (limit : Nat) : Prop :=
  ∀ name args w w', (s.table.call name args).apply w ≠ (.error (.stackOverflow limit), w')

/-- An overflow that no operation feigns is not reported by one. -/
theorem Unfeigned.not_reports {limit : Nat} (h : Unfeigned s limit) :
    ¬ Reports s (.stackOverflow limit) := by
  intro hreports
  obtain ⟨name, args, w, w', hcall⟩ := hreports limit rfl
  exact h name args w w' hcall

/-- No operation of the standard table names a full stack. -/
theorem unfeigned_standard (ht : Table.standard = .ok s.table) (limit : Nat) :
    Unfeigned s limit := by
  intro name args w w' hcall
  obtain ⟨table, htable, honest⟩ := Table.exists_standard
  obtain rfl : table = s.table := by
    rw [htable] at ht
    exact Except.ok.inj ht
  have hsound := Table.call_sound honest name args w
  unfold Effect.Sound Meets at hsound
  rw [hcall] at hsound
  cases hsound

/-- A step that finds no room for a call does nothing to the world. -/
theorem step_full (hattempts : Attempts s m) (hdepth : s.limit ≤ m.stack.height) :
    ∃ m', (step s).apply m = (.error (.stackOverflow s.limit), m') ∧ m'.world = m.world := by
  obtain ⟨fr, rest, dst, ref, ops, args, hframes, hi, hvs, hadmits⟩ := hattempts
  have hfull : s.limit ≤
      (Memory.ofFrames (fr.advance :: rest) m.globals m.world).stack.height := by
    rw [m.stack.height_eq, hframes] at hdepth
    exact hdepth
  refine ⟨.ofFrames (fr.advance :: rest) m.globals m.world, ?_, rfl⟩
  rw [m.eq_ofFrames, hframes, apply_step hi, execute_call hvs.advance]
  exact Transform.apply_bind_error (enter_full hadmits hfull)

/-- A call that finds the stack full fails for it. -/
theorem exists_invoke_of_findsFull (h : FindsFull s ref args m) :
    ∃ fuel m', invoke s fuel ref args m = some (.error (.stackOverflow s.limit), m') := by
  rcases h with ⟨hadmits, hdepth⟩ | ⟨m', past, hcourse, hattempts, hdepth⟩
  · refine ⟨0, m, ?_⟩
    rw [invoke, enter_full hadmits (Nat.le_of_eq hdepth.symm)]
  · obtain ⟨left, hstep, -⟩ := step_full hattempts (Nat.le_of_eq hdepth.symm)
    obtain ⟨fuel, hinvoke⟩ :=
      hcourse.exists_invoke (show _ = (Except.map some (.error _), left) from hstep)
    exact ⟨fuel, _, hinvoke⟩

/-- A step that names a full stack would begin a call, and there is no room for
it. -/
theorem attempts_of_step_eq_overflow {limit : Nat} (hlimit : Unfeigned s limit)
    (hstep : (step s).apply m = (.error (.stackOverflow limit), m')) :
    limit = s.limit ∧ Attempts s m ∧ s.limit ≤ m.stack.height := by
  cases hframes : m.stack.frames with
  | nil =>
    rw [m.eq_ofFrames, hframes, apply_step_nil] at hstep
    cases hstep
  | cons fr rest =>
    have hnot := hlimit.not_reports
    have hsteps := steps_of_memory hstep hframes
    generalize m'.stack.frames = frames' at hsteps
    cases hsteps with
    | stuck _ hreports => exact absurd hreports hnot
    | fail _ hreports => exact absurd hreports hnot
    | full hi hvs hf harity hdepth =>
      refine ⟨rfl, ⟨fr, rest, _, _, _, _, hframes, hi, hvs, _, hf, harity⟩, ?_⟩
      rw [m.stack.height_eq, hframes]
      exact hdepth
    | lost _ _ hreports => exact absurd hreports hnot

/-- **The stack discipline of calls.** Whatever the program, a call that begins on
a stack within the limit leaves that stack when it is over, with a value or with
an error. Throughout the course of the call the stack stays within the limit and
lies untouched below the frames of the call; where the call was made by another,
the end of the course hands the caller the result and changes nothing else of
that stack. A new frame, of the call itself or of a call that it makes, has the
arguments in its first slots and null in all others. A call that finds the stack
full fails for it, with the limit; and no call fails for it otherwise, unless an
operation of the table feigns such a failure. -/
theorem calls_restore_stack (s : Setting) (m : Memory) (hm : m.stack.height ≤ s.limit)
    (ref : FunctionRef) (args : List Value) :
    (∀ fuel outcome m', invoke s fuel ref args m = some (outcome, m') → m'.stack = m.stack) ∧
    (∀ resume m' past, Course s ref args resume m (m' :: past) →
      m'.stack.height ≤ s.limit ∧ m.stack.frames <:+ m'.stack.frames ∧
      ∀ result m'', (step s).apply m' = (result, m'') →
        Restores m.stack resume result m''.stack) ∧
    (∀ resume m', Course s ref args resume m [m'] →
      ∃ fr, m'.stack = m.stack.push fr ∧ Begins s.program ref args resume fr) ∧
    (∀ resume m' m'' past, Course s ref args resume m (m'' :: m' :: past) →
      m'.stack.height < m''.stack.height → ∃ caller ref args dst,
        caller.stack = m'.stack.modifyTop Frame.advance ∧
        Course s ref args (.caller dst) caller [m'']) ∧
    (FindsFull s ref args m →
      ∃ fuel m', invoke s fuel ref args m = some (.error (.stackOverflow s.limit), m')) ∧
    (∀ limit, Unfeigned s limit →
      ((∃ fuel m', invoke s fuel ref args m = some (.error (.stackOverflow limit), m')) ↔
        limit = s.limit ∧ FindsFull s ref args m)) := by
  refine ⟨fun fuel outcome m' h => ?_, fun resume m' past h => ?_, fun resume m' h => ?_,
    fun resume m' m'' past h hgrows => ?_, exists_invoke_of_findsFull, fun limit hlimit => ⟨?_, ?_⟩⟩
  · rcases invoke_cases h with ⟨e, -, henter⟩ | ⟨last, past, left, hcourse, hstep, rfl⟩
    · rw [(enter_eq_error henter).1]
    · have hrestores := hcourse.restores hstep
      cases outcome with
      | error e => exact hrestores.2
      | ok v => exact hrestores.2
  · obtain ⟨hover, hle⟩ := h.over m' List.mem_cons_self
    exact ⟨hle, hover.suffix, fun result m'' hstep => h.restores hstep⟩
  · cases h with
    | start henter =>
      obtain ⟨-, fr, hbegins, rfl⟩ := enter_eq_ok henter
      exact ⟨fr, rfl, hbegins⟩
  · cases h with
    | more hcourse hstep _ =>
      obtain ⟨hover, -⟩ := hcourse.over m' List.mem_cons_self
      obtain ⟨fr, rest, hframes⟩ := hover.exists_cons
      obtain ⟨caller, ref, args, dst, hcaller, henter⟩ := enter_of_grows hstep hframes hgrows
      exact ⟨caller, ref, args, dst, hcaller, .start henter⟩
  · rintro ⟨fuel, m', h⟩
    rcases invoke_cases h with ⟨e, heq, henter⟩ | ⟨last, past, left, hcourse, hstep, -⟩
    · cases heq
      obtain ⟨-, hfull⟩ := enter_eq_error henter
      obtain ⟨heq, hadmits, hdepth⟩ := hfull limit rfl
      exact ⟨heq, .inl ⟨hadmits, Nat.le_antisymm hm hdepth⟩⟩
    · obtain ⟨heq, hattempts, hdepth⟩ := attempts_of_step_eq_overflow hlimit hstep
      obtain ⟨-, hle⟩ := hcourse.over last List.mem_cons_self
      exact ⟨heq, .inr ⟨last, past, hcourse, hattempts, Nat.le_antisymm hle hdepth⟩⟩
  · rintro ⟨rfl, hfinds⟩
    exact exists_invoke_of_findsFull hfinds

/-- A function of one parameter that calls itself without end. -/
def descendingFunction : Function :=
  ([.call (.function ⟨0, 0⟩) [.var 0], .ret (.var 1)].foldl
    (fun c e => Emission.leave e c) (Cursor.atEntry (Function.empty "down" ["n"]))).function

/-- The program of that function. -/
def descendingProgram : Program where
  modules := #[{ id := "m", functions := #[descendingFunction] }]
  globals := #[]
  entry := ⟨0, 0⟩
  initOrder := [0]

/-- The program is a finished one. Under a limit of three frames, called while a
call of its own is in progress, it finds the stack full at its second call, and
leaves the call that was in progress as it was. -/
theorem calls_restore_stack_descending : ∃ table, Table.standard = .ok table ∧
    ([.ensureModule "m", .defineFunction 0 descendingFunction].foldl
      (fun a act => Assembly.Act.leave act a) {}).finish ⟨0, 0⟩ = .ok descendingProgram ∧
    ∀ world,
      let s : Setting := ⟨descendingProgram, table, 3⟩
      let m : Memory := .ofFrames [.start ⟨0, 0⟩ descendingFunction [.int 7] .halt] #[] world
      m.stack.height ≤ s.limit ∧
      (∃ m', invoke s 5 ⟨0, 0⟩ [.int 5] m = some (.error (.stackOverflow 3), m') ∧
        m'.stack = m.stack) ∧
      ∃ m' past, Course s ⟨0, 0⟩ [.int 5] .halt m (m' :: past) ∧ Attempts s m' ∧
        m'.stack.height = s.limit := by
  obtain ⟨table, htable, -⟩ := Table.exists_standard
  refine ⟨table, htable, by decide +kernel, fun world => ?_⟩
  intro s m
  have hm : m.stack.height ≤ s.limit := by
    change 1 ≤ 3
    omega
  obtain ⟨hrestores, -, -, -, -, hfull⟩ := calls_restore_stack s m hm ⟨0, 0⟩ [.int 5]
  obtain ⟨m', hinvoke⟩ : ∃ m', invoke s 5 ⟨0, 0⟩ [.int 5] m =
      some (.error (.stackOverflow 3), m') := ⟨_, rfl⟩
  refine ⟨hm, ⟨m', hinvoke, hrestores _ _ _ hinvoke⟩, ?_⟩
  obtain ⟨-, ⟨-, hheight⟩ | hcourse⟩ := (hfull 3 (unfeigned_standard htable 3)).mp ⟨5, m', hinvoke⟩
  · cases hheight
  · exact hcourse

end Machine

end BlockIR
