import BlockIR.Machine.Evaluate
import BlockIR.Proofs.Builtin.Standard
import BlockIR.Proofs.Function.Check
import BlockIR.Proofs.Machine.Step
/-!
# Runs without defects

`Active` is the invariant of a run: every frame down to the call that the run is
of stands at an instruction of a function that exists and has room for the
function's locals, and the result of every call has a slot to go to. A step
keeps it (`step_sound`) and fails only for reasons of the program's own, so a run
of any length does (`run_sound`), and with it an evaluation (`evaluate_sound`).
What is asked of the program is that its functions can be run and that the
globals it names exist; a call may still be of a function that does not exist,
unless the program's calls and initializers are bound.
-/

namespace BlockIR

open Success

namespace Instruction

/-- The global that an instruction reads or writes. -/
def global? : Instruction → Option GlobalId
  | loadGlobal _ g | storeGlobal g _ => some g
  | _ => none

/-- The function that an instruction calls. -/
def callee? : Instruction → Option FunctionRef
  | call _ (.function ref) _ => some ref
  | _ => none

/-- An instruction touches the slots that its operands read. -/
theorem local_mem_locals {i : Instruction} {op : Operand} {l : LocalId} (hop : op ∈ i.operands)
    (hl : l ∈ op.local?) : l ∈ i.locals :=
  List.mem_append_left _ (List.mem_filterMap.mpr ⟨op, hop, hl⟩)

/-- An instruction touches the slot that it writes. -/
theorem def_mem_locals {i : Instruction} {l : LocalId} (hl : l ∈ i.def?) : l ∈ i.locals :=
  List.mem_append_right _ (Option.mem_toList.mpr hl)

end Instruction

namespace Program

/-- An instruction that some function of the program has in a block. -/
def HasInstr (p : Program) (i : Instruction) : Prop :=
  ∃ ref f b k, p.function? ref = some f ∧ f.instrAt? b k = some i

/-- Every function of the program can be run. -/
def Runnable (p : Program) : Prop :=
  ∀ ref f, p.function? ref = some f → f.Runnable

/-- **Every global that the code names exists.** -/
def GlobalsBound (p : Program) : Prop :=
  ∀ i, p.HasInstr i → ∀ g ∈ i.global?, g < p.globals.size

/-- **Every function that the code calls exists**, and so does every
initializer. -/
structure FunctionsBound (p : Program) : Prop where
  callee : ∀ i, p.HasInstr i → ∀ ref ∈ i.callee?, (p.function? ref).isSome = true
  init : ∀ m ref, Machine.initializer? p m = some ref → (p.function? ref).isSome = true

/-- An error that is no defect, unless it is a call of an unknown function in a
program whose functions are not bound. -/
def Excuses (p : Program) (e : RuntimeError) : Prop :=
  e.isDefect = false ∨ ¬ p.FunctionsBound ∧ ∃ callee, e = .unknownFunction callee

end Program

/-- **A frame in order**: it stands at an instruction of a function that exists,
and has a slot for every local of the function. -/
def Frame.Sound (p : Program) (fr : Frame) : Prop :=
  ∃ f, p.function? fr.function = some f ∧ f.numLocals ≤ fr.locals.size ∧
    fr.next < f.length fr.block

namespace Machine

variable {s : Setting} {p : Program} {fr fr' caller : Frame} {rest frames : List Frame}
variable {globals : Array Value} {world : World}

/-- **The frames of a run in order**, down to the call that the run is of. What
lies below that is of no matter to it. -/
inductive Active (p : Program) : List Frame → Prop
  | halt {fr : Frame} {below : List Frame} :
      fr.Sound p → fr.resume = .halt → Active p (fr :: below)
  | caller {fr caller : Frame} {rest : List Frame} {dst : Option LocalId} :
      fr.Sound p → fr.resume = .caller dst → (∀ l ∈ dst, l < caller.locals.size) →
      Active p (caller :: rest) → Active p (fr :: caller :: rest)

/-- The frame on top of an active stack is sound. -/
theorem Active.top (h : Active p (fr :: rest)) : fr.Sound p := by
  cases h with
  | halt hs _ => exact hs
  | caller hs _ _ _ => exact hs

/-- The innermost frame may change, as long as it stays in order and keeps where
its result goes. -/
theorem Active.replace (h : Active p (fr :: rest)) (hs : fr'.Sound p)
    (hr : fr'.resume = fr.resume) : Active p (fr' :: rest) := by
  cases h with
  | halt _ hhalt => exact .halt hs (hr.trans hhalt)
  | caller _ hcaller hd hrest => exact .caller hs (hr.trans hcaller) hd hrest

/-! ## Frames in order -/

/-- A frame stays sound under a write. -/
theorem sound_write {l : LocalId} {v : Value} (h : fr.Sound p) : (fr.write l v).Sound p := by
  obtain ⟨f, hf, hsize, hnext⟩ := h
  exact ⟨f, hf, by rw [Frame.size_write]; exact hsize, hnext⟩

/-- A frame stays sound when it gets a result. -/
theorem sound_deliver {dst : Option LocalId} {v : Value} (h : fr.Sound p) :
    (fr.deliver dst v).Sound p := by
  cases dst with
  | none => exact h
  | some l => exact sound_write h

@[simp] theorem resume_deliver {dst : Option LocalId} {v : Value} :
    (fr.deliver dst v).resume = fr.resume := by
  cases dst <;> rfl

/-- The frame that a call starts with is sound. -/
theorem sound_start {ref : FunctionRef} {f : Function} {args : List Value} {resume : Resume}
    (hf : p.function? ref = some f) (hrun : f.Runnable) :
    (Frame.start ref f args resume).Sound p := by
  refine ⟨f, hf, ?_, hrun.nonempty 0 hrun.enterable⟩
  simp only [Frame.start, Array.size_append, List.size_toArray, Array.size_replicate]
  omega

/-- What an instruction can count on in a frame that stands at it. -/
structure Ready (p : Program) (fr : Frame) (i : Instruction) : Prop where
  fetch : fetch p fr = .ok i
  has : p.HasInstr i
  value : ∀ op ∈ i.operands, ∃ v, fr.value? op = some v
  dst : ∀ l ∈ i.def?, l < fr.locals.size
  advance : i.isTerminator = false → fr.advance.Sound p
  goto : ∀ t ∈ i.targets, (fr.goto t).Sound p

/-- **A sound frame has an instruction to execute.** -/
theorem exists_ready (hp : p.Runnable) (h : fr.Sound p) : ∃ i, Ready p fr i := by
  obtain ⟨f, hf, hsize, hnext⟩ := h
  have hrun := hp _ f hf
  obtain ⟨i, hi, hterm, hlocals, htargets⟩ := hrun.instr fr.block fr.next hnext
  refine ⟨i, fetch_eq_ok hf hi, ⟨_, f, _, _, hf, hi⟩, fun op hop => ?_, fun l hl => ?_,
    fun hlast => ?_, fun t ht => ?_⟩
  · cases op with
    | const c => exact ⟨c.value, rfl⟩
    | var l =>
      have hl := hlocals l (Instruction.local_mem_locals hop rfl)
      exact ⟨_, Array.getElem?_eq_getElem (Nat.lt_of_lt_of_le hl hsize)⟩
  · exact Nat.lt_of_lt_of_le (hlocals l (Instruction.def_mem_locals hl)) hsize
  · refine ⟨f, hf, hsize, ?_⟩
    have hne : fr.next + 1 ≠ f.length fr.block := by
      intro heq
      rw [hterm.mpr heq] at hlast
      cases hlast
    change fr.next + 1 < f.length fr.block
    omega
  · exact ⟨f, hf, hsize, hrun.nonempty t (htargets t ht)⟩

/-- Operands that each have a value have values. -/
theorem exists_values {ops : List Operand} (h : ∀ op ∈ ops, ∃ v, fr.value? op = some v) :
    ∃ vs, fr.Values ops vs := by
  induction ops with
  | nil => exact ⟨[], .nil⟩
  | cons op rest ih =>
    obtain ⟨v, hv⟩ := h op List.mem_cons_self
    obtain ⟨vs, hvs⟩ := ih fun op' hop' => h op' (List.mem_cons_of_mem _ hop')
    exact ⟨v :: vs, .cons hv hvs⟩

/-! ## One step -/

/-- **An action proceeds**: it leaves the frames of the run in order, unless the
run is over, and fails only for a reason that the program may have. -/
def Proceeds (p : Program) (x : Exec (Option Value)) (m : Memory) : Prop :=
  Meets x m
    (fun result m' => m'.globals.size = p.globals.size ∧ (result = none → Active p m'.stack.frames))
    fun e _ => p.Excuses e

/-- A step that goes on proceeds when it leaves an active stack and all globals. -/
theorem proceeds_of_none {x : Exec (Option Value)} {m : Memory}
    (hx : x.apply m = (.ok none, .ofFrames frames globals world)) (h : Active p frames)
    (hsize : globals.size = p.globals.size) : Proceeds p x m :=
  Meets.of_ok hx ⟨hsize, fun _ => h⟩

/-- An instruction that ends with an effect on the world proceeds if the effect
reports no defect. -/
theorem proceeds_of_effect {α : Type} {x : Exec (Option Value)} {m : Memory} {e : Effect α}
    {next : α → Frame} (he : e.Sound world fun _ => True)
    (hx : x.apply m = conclude e fr next rest globals world)
    (h : ∀ a, Active p (next a :: rest)) (hsize : globals.size = p.globals.size) :
    Proceeds p x m := by
  unfold Effect.Sound Meets at he
  rcases hr : e.apply world with ⟨err | a, world'⟩
  · rw [hr] at he
    exact Meets.of_error (hx.trans (conclude_error hr))
      (.inl (RuntimeError.isDefect_of_isReport he))
  · exact proceeds_of_none (hx.trans (conclude_ok hr)) (h a) hsize

/-- A call that begins leaves the frames in order, with the new one on top. -/
theorem meets_enter (hp : s.program.Runnable) {ref : FunctionRef} {args : List Value}
    {resume : Resume}
    (hbound : s.program.FunctionsBound → (s.program.function? ref).isSome = true) (m : Memory) :
    Meets (enter s ref args resume) m
      (fun _ m' => ∃ top, m' = .ofFrames (top :: m.stack.frames) m.globals m.world ∧
        top.Sound s.program ∧ top.resume = resume)
      fun e _ => s.program.Excuses e := by
  have happly := congrArg (enter s ref args resume).apply m.eq_ofFrames
  rw [apply_enter] at happly
  unfold Meets
  rw [happly]
  cases hf : s.program.function? ref with
  | none =>
    refine .inr ⟨fun h => ?_, _, rfl⟩
    have hsome := hbound h
    rw [hf] at hsome
    cases hsome
  | some f =>
    by_cases harity : args.length = f.arity
    · by_cases hdepth : s.limit ≤ m.stack.frames.length
      · simp [harity, hdepth, Program.Excuses, RuntimeError.isDefect]
      · simp only [harity, hdepth, ne_eq, not_true_eq_false, if_false]
        exact ⟨_, rfl, sound_start hf (hp ref f hf), rfl⟩
    · simp [harity, Program.Excuses, RuntimeError.isDefect]

/-- The check for an integer fails only with a report. -/
theorem int_sound (role : OperandRole) (v : Value) (w : World) :
    (Operation.int role v).Sound w fun _ => True := by
  cases v with
  | int _ => exact trivial
  | str _ => exact rfl
  | array _ => exact rfl
  | null => exact rfl

/-- The check for an array fails only with a report. -/
theorem array_sound (role : OperandRole) (v : Value) (w : World) :
    (Operation.array role v).Sound w fun _ => True := by
  cases v with
  | array _ => exact trivial
  | int _ => exact rfl
  | str _ => exact rfl
  | null => exact rfl

/-- Making an array fails only with a report. -/
theorem newArray_sound (v : Value) (w : World) : (Operation.newArray v).Sound w fun _ => True := by
  refine Meets.bind (int_sound _ v w) fun n t _ => ?_
  by_cases hn : n < 0
  · simp only [hn, if_true]
    exact rfl
  · simp only [hn, if_false]
    exact trivial

/-- A load fails only with a report. -/
theorem load_sound (a i : Value) (w : World) : (Operation.load a i).Sound w fun _ => True := by
  refine Meets.bind (array_sound _ a w) fun address t _ => ?_
  refine Meets.bind (int_sound _ i t) fun n t' _ => ?_
  unfold Meets
  rw [Effect.load, Transform.apply_query, Heap.load]
  split <;> rename_i h <;> split at h <;> cases h
  · trivial
  · rfl

/-- A store fails only with a report. -/
theorem store_sound (a i v : Value) (w : World) :
    (Operation.store a i v).Sound w fun _ => True := by
  refine Meets.bind (array_sound _ a w) fun address t _ => ?_
  refine Meets.bind (int_sound _ i t) fun n t' _ => ?_
  have hrun : (Effect.store address n v).apply t' =
      ((t'.heap.store address n v).1, { t' with heap := (t'.heap.store address n v).2 }) := rfl
  unfold Meets
  rw [hrun, Heap.store]
  cases Heap.position? (t'.heap.length address) n with
  | none => exact rfl
  | some _ => exact trivial

/-- **A step proceeds**, whatever the instruction. -/
theorem step_proceeds (hp : s.program.Runnable) (hg : s.program.GlobalsBound)
    (ht : ∀ e ∈ s.table.entries, e.Honest) (h : Active s.program (fr :: rest))
    (hsize : globals.size = s.program.globals.size) :
    Proceeds s.program (step s) (.ofFrames (fr :: rest) globals world) := by
  obtain ⟨i, hi⟩ := exists_ready hp h.top
  have hvalue : ∀ op ∈ i.operands, ∃ v, fr.advance.value? op = some v := by
    simpa only [Frame.value?_advance] using hi.value
  have hdst : ∀ l ∈ i.def?, l < fr.advance.locals.size := hi.dst
  have hnext : i.isTerminator = false → Active s.program (fr.advance :: rest) :=
    fun hlast => h.replace (hi.advance hlast) rfl
  have hwrite : i.isTerminator = false → ∀ l v,
      Active s.program (fr.advance.write l v :: rest) :=
    fun hlast l v => h.replace (sound_write (hi.advance hlast)) rfl
  have hgoto : ∀ t ∈ i.targets, Active s.program (fr.advance.goto t :: rest) :=
    fun t htarget => h.replace (hi.goto t htarget) rfl
  -- each instruction reads only slots that are there, and leaves the frame at a
  -- place that has an instruction
  unfold Proceeds Meets
  rw [apply_step hi.fetch]
  change Proceeds s.program (execute s i) (.ofFrames (fr.advance :: rest) globals world)
  cases i with
  | copy dst src =>
    obtain ⟨v, hv⟩ := hvalue src List.mem_cons_self
    exact proceeds_of_none (execute_copy hv (hdst dst rfl)) (hwrite rfl dst v) hsize
  | newArray dst size =>
    obtain ⟨v, hv⟩ := hvalue size List.mem_cons_self
    exact proceeds_of_effect (newArray_sound v world) (execute_newArray hv (hdst dst rfl))
      (hwrite rfl dst) hsize
  | loadArray dst array index =>
    obtain ⟨a, ha⟩ := hvalue array List.mem_cons_self
    obtain ⟨n, hn⟩ := hvalue index (List.mem_cons_of_mem _ List.mem_cons_self)
    exact proceeds_of_effect (load_sound a n world) (execute_loadArray ha hn (hdst dst rfl))
      (hwrite rfl dst) hsize
  | storeArray array index value =>
    obtain ⟨a, ha⟩ := hvalue array List.mem_cons_self
    obtain ⟨n, hn⟩ := hvalue index (List.mem_cons_of_mem _ List.mem_cons_self)
    obtain ⟨v, hv⟩ := hvalue value
      (List.mem_cons_of_mem _ (List.mem_cons_of_mem _ List.mem_cons_self))
    exact proceeds_of_effect (store_sound a n v world) (execute_storeArray ha hn hv)
      (fun _ => hnext rfl) hsize
  | loadGlobal dst g =>
    have hlt : g < globals.size := hsize.symm ▸ hg _ hi.has g rfl
    exact proceeds_of_none
      (execute_loadGlobal (Array.getElem?_eq_getElem hlt) (hdst dst rfl)) (hwrite rfl dst _) hsize
  | storeGlobal g src =>
    obtain ⟨v, hv⟩ := hvalue src List.mem_cons_self
    have hlt : g < globals.size := hsize.symm ▸ hg _ hi.has g rfl
    exact proceeds_of_none (execute_storeGlobal hv hlt) (hnext rfl)
      (Array.size_setIfInBounds.trans hsize)
  | call dst callee args =>
    obtain ⟨vs, hvs⟩ := exists_values hvalue
    cases callee with
    | builtin name =>
      exact proceeds_of_effect (Table.call_sound ht name vs world) (execute_builtin hvs hdst)
        (fun v => h.replace (sound_deliver (hi.advance rfl)) resume_deliver) hsize
    | function ref =>
      refine Meets.congr (execute_call hvs)
        (Meets.bind (meets_enter hp (fun hb => hb.callee _ hi.has ref rfl) _) ?_)
      rintro - - ⟨top, rfl, hsound, hresume⟩
      exact ⟨hsize, fun _ => .caller hsound hresume hdst (hnext rfl)⟩
  | binary dst op lhs rhs =>
    obtain ⟨a, ha⟩ := hvalue lhs List.mem_cons_self
    obtain ⟨b, hb⟩ := hvalue rhs (List.mem_cons_of_mem _ List.mem_cons_self)
    exact proceeds_of_effect (Table.call_sound ht _ _ world) (execute_binary ha hb (hdst dst rfl))
      (hwrite rfl dst) hsize
  | jump target =>
    exact proceeds_of_none (execute_jump target) (hgoto target List.mem_cons_self) hsize
  | branch cond thenTarget elseTarget =>
    obtain ⟨v, hv⟩ := hvalue cond List.mem_cons_self
    cases v with
    | int n =>
      refine proceeds_of_none (execute_branch hv) (hgoto _ ?_) hsize
      rw [Instruction.mem_targets_branch]
      split
      · exact .inr rfl
      · exact .inl rfl
    | str _ => exact Meets.of_error (execute_branch hv) (.inl rfl)
    | array _ => exact Meets.of_error (execute_branch hv) (.inl rfl)
    | null => exact Meets.of_error (execute_branch hv) (.inl rfl)
  | ret value =>
    obtain ⟨v, hv⟩ := hvalue value List.mem_cons_self
    cases h with
    | halt _ hhalt =>
      have hhalt' : fr.advance.resume = .halt := hhalt
      exact Meets.of_ok ((execute_ret hv).trans (apply_leave_halt hhalt'))
        ⟨hsize, fun hnone => nomatch hnone⟩
    | caller _ hcaller hd hrest =>
      have hcaller' : fr.advance.resume = .caller _ := hcaller
      exact proceeds_of_none ((execute_ret hv).trans (apply_leave_deliver hcaller' hd))
        (hrest.replace (sound_deliver hrest.top) resume_deliver) hsize

/-! ## Whole runs -/

/-- **What has finished, has finished in order**: with a slot for every global,
or with an error that the program may have. -/
def Settles (p : Program) {α : Type} (x : Finish α) : Prop :=
  ∀ result m, x = some (result, m) →
    match result with
    | .ok _ => m.globals.size = p.globals.size
    | .error e => p.Excuses e

/-- A run settles, however many steps it takes. -/
theorem run_settles (hp : s.program.Runnable) (hg : s.program.GlobalsBound)
    (ht : ∀ e ∈ s.table.entries, e.Honest) : ∀ (fuel : Nat) (m : Memory),
    Active s.program m.stack.frames → m.globals.size = s.program.globals.size →
    Settles s.program (run s fuel m) := by
  intro fuel
  induction fuel with
  | zero =>
    intro m _ _ result m' hrun
    cases hrun
  | succ fuel ih =>
    intro m hactive hsize result m' hrun
    have hstep : Proceeds s.program (step s) m := by
      rw [m.eq_ofFrames]
      cases hframes : m.stack.frames with
      | nil =>
        rw [hframes] at hactive
        cases hactive
      | cons fr rest =>
        rw [hframes] at hactive
        exact step_proceeds hp hg ht hactive hsize
    unfold Proceeds Meets at hstep
    rw [run] at hrun
    rcases hs : (step s).apply m with ⟨e | _ | v, m''⟩
    · rw [hs] at hstep hrun
      cases hrun
      exact hstep
    · rw [hs] at hstep hrun
      exact ih m'' (hstep.2 rfl) hstep.1 result m' hrun
    · rw [hs] at hstep hrun
      cases hrun
      exact hstep.1

/-- A call of a function that is there settles. -/
theorem invoke_settles (hp : s.program.Runnable) (hg : s.program.GlobalsBound)
    (ht : ∀ e ∈ s.table.entries, e.Honest) {ref : FunctionRef}
    (hbound : s.program.FunctionsBound → (s.program.function? ref).isSome = true) (fuel : Nat)
    (args : List Value) {m : Memory} (hsize : m.globals.size = s.program.globals.size) :
    Settles s.program (invoke s fuel ref args m) := by
  intro result m' hrun
  have henter : Meets (enter s ref args .halt) m _ _ := meets_enter hp hbound m
  unfold Meets at henter
  rw [invoke] at hrun
  rcases he : (enter s ref args .halt).apply m with ⟨e | _, inner⟩
  · rw [he] at henter hrun
    cases hrun
    exact henter
  · rw [he] at henter hrun
    obtain ⟨top, rfl, hsound, hhalt⟩ := henter
    obtain ⟨⟨result', after⟩, hafter, heq⟩ := Option.map_eq_some_iff.mp hrun
    cases heq
    have hactive : Active s.program (top :: m.stack.frames) := .halt hsound hhalt
    have h := run_settles hp hg ht fuel (.ofFrames _ m.globals m.world) hactive hsize _ _ hafter
    cases result with
    | ok v => exact h
    | error e => exact h

/-- The modules are initialized in order. -/
theorem initModules_settles (hp : s.program.Runnable) (hg : s.program.GlobalsBound)
    (ht : ∀ e ∈ s.table.entries, e.Honest) (fuel : Nat) : ∀ (order : List ModuleIndex) (m : Memory),
    m.globals.size = s.program.globals.size →
    Settles s.program (initModules s fuel order m) := by
  intro order
  induction order with
  | nil =>
    intro m hsize result m' hrun
    cases hrun
    exact hsize
  | cons i rest ih =>
    intro m hsize result m' hrun
    rw [initModules] at hrun
    cases hinit : initializer? s.program i with
    | none =>
      rw [hinit] at hrun
      exact ih m hsize result m' hrun
    | some ref =>
      rw [hinit] at hrun
      have hinvoke := invoke_settles hp hg ht (fun hb => hb.init i ref hinit) fuel [] hsize
      rcases hcall : invoke s fuel ref [] m with _ | ⟨e | v, after⟩
      · simp only [hcall] at hrun
        cases hrun
      · simp only [hcall] at hrun
        cases hrun
        exact hinvoke _ _ hcall
      · simp only [hcall] at hrun
        exact ih after (hinvoke _ _ hcall) result m' hrun

/-- **An evaluation finishes in order**: its outcome has a value for every global,
and it fails only for a reason that the program may have. -/
theorem evaluate_settles (hp : s.program.Runnable) (hg : s.program.GlobalsBound)
    (ht : ∀ e ∈ s.table.entries, e.Honest)
    (hentry : (s.program.function? s.program.entry).isSome = true) {fuel : Nat}
    {args : List Value} {w w' : World} {result : Except RuntimeError Outcome}
    (hrun : evaluate s fuel args w = some (result, w')) :
    (∀ o, result = .ok o → o.globals.size = s.program.globals.size) ∧
      ∀ e, result = .error e → s.program.Excuses e := by
  have hstart : (startMemory s.program w).globals.size = s.program.globals.size :=
    Array.size_replicate
  have hinit := initModules_settles hp hg ht fuel s.program.initOrder _ hstart
  rw [evaluate] at hrun
  rcases hcheck : checkEntry s.program args with e' | _
  · simp only [hcheck] at hrun
    cases hrun
    refine ⟨by rintro _ ⟨⟩, ?_⟩
    rintro _ ⟨⟩
    obtain ⟨f, hf⟩ := Option.isSome_iff_exists.mp hentry
    simp only [checkEntry, hf] at hcheck
    split at hcheck
    · cases hcheck
    · cases hcheck
      exact .inl rfl
  · simp only [hcheck] at hrun
    rcases hmods : initModules s fuel s.program.initOrder (startMemory s.program w) with
      _ | ⟨e' | _, m⟩
    · simp only [hmods] at hrun
      cases hrun
    · simp only [hmods] at hrun
      cases hrun
      refine ⟨by rintro _ ⟨⟩, ?_⟩
      rintro _ ⟨⟩
      exact hinit _ _ hmods
    · simp only [hmods, runEntry, Option.map_map] at hrun
      have hsettles := invoke_settles hp hg ht (fun _ => hentry) fuel args (hinit _ _ hmods)
      obtain ⟨⟨called, m'⟩, hinvoke, heq⟩ := Option.map_eq_some_iff.mp hrun
      cases called with
      | ok v =>
        cases heq
        refine ⟨?_, by rintro _ ⟨⟩⟩
        rintro _ ⟨⟩
        exact hsettles _ _ hinvoke
      | error e' =>
        cases heq
        refine ⟨by rintro _ ⟨⟩, ?_⟩
        rintro _ ⟨⟩
        exact hsettles _ _ hinvoke

/-- The outcome of an evaluation with the standard operations has a value for
every global. -/
theorem size_globals_of_evaluateStandard {p : Program} (hp : p.Runnable) (hg : p.GlobalsBound)
    (hentry : (p.function? p.entry).isSome = true) {limits : Limits} {fuel : Nat}
    {args : List Value} {w w' : World} {o : Outcome}
    (hrun : evaluateStandard p limits fuel args w = some (.ok o, w')) :
    o.globals.size = p.globals.size := by
  obtain ⟨table, htable, hhonest⟩ := Table.exists_standard
  rw [evaluateStandard, htable] at hrun
  exact (evaluate_settles hp hg hhonest hentry hrun).1 o rfl

/-- **With the standard operations, a program whose functions can be run and
whose globals are bound never ends with a defect** other than a call of a
function that does not exist, and not with that if its functions are bound. -/
theorem evaluateStandard_excuses {p : Program} (hp : p.Runnable) (hg : p.GlobalsBound)
    (hentry : (p.function? p.entry).isSome = true) {limits : Limits} {fuel : Nat}
    {args : List Value} {w w' : World} {e : RuntimeError}
    (hrun : evaluateStandard p limits fuel args w = some (.error e, w')) : p.Excuses e := by
  obtain ⟨table, htable, hhonest⟩ := Table.exists_standard
  rw [evaluateStandard, htable] at hrun
  exact (evaluate_settles hp hg hhonest hentry hrun).2 e rfl

end Machine

end BlockIR
