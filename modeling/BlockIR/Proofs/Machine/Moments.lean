import BlockIR.Proofs.Machine.Run
import Mathlib.Data.List.Chain
/-!
# The moments of an evaluation

An evaluation is followed here from one memory to the next. Every action is given
a record of the memories it goes through (`Record`), and what it comes to is what
the action comes to without one (`evaluate_eq_record`). From one moment to the
next a call from outside begins, or a step is made, or the calls that have failed
end (`Next`); what these three keep, an evaluation keeps.
-/

namespace BlockIR

namespace Machine

variable {s : Setting} {α β : Type} {m m' : Memory} {fuel : Nat}

/-- **What leads from one moment of an evaluation to the next.** -/
inductive Next (s : Setting) (m : Memory) : Memory → Prop
  /-- A call from outside begins, or is refused. -/
  | enter (ref : FunctionRef) (args : List Value) : Next s m ((enter s ref args .halt).apply m).2
  /-- The innermost call makes a step, or fails. -/
  | step : Next s m ((step s).apply m).2
  /-- The calls that have failed end. -/
  | unwind : Next s m { m with stack := m.stack.unwind }

/-- **What an action comes to, and the memories on the way**, the last one
included but not the one it starts from. -/
structure Record (α : Type) where
  moments : List Memory
  finish : Finish α

namespace Record

/-- A single act. -/
def act (x : Exec α) (m : Memory) : Record α where
  moments := [(x.apply m).2]
  finish := some (x.apply m)

/-- Nothing is left to be done. -/
def done (a : α) (m : Memory) : Record α where
  moments := []
  finish := some (.ok a, m)

/-- What follows an action, unless that failed or did not finish. -/
def andThen (x : Record α) (f : α → Memory → Record β) : Record β :=
  match x.finish with
  | none => ⟨x.moments, none⟩
  | some (.error e, m) => ⟨x.moments, some (.error e, m)⟩
  | some (.ok a, m) => ⟨x.moments ++ (f a m).moments, (f a m).finish⟩

/-- The calls of a failed action end. -/
def settle (x : Record α) : Record α :=
  match x.finish with
  | some (.error e, m) =>
    let left : Memory := { m with stack := m.stack.unwind }
    ⟨x.moments ++ [left], some (.error e, left)⟩
  | _ => x

/-- A result is seen together with the memory that is left. -/
def map (f : Memory → α → β) (x : Record α) : Record β where
  moments := x.moments
  finish := x.finish.map fun r => (r.1.map (f r.2), r.2)

/-- What a sequence of records comes to is what its parts come to in turn. -/
theorem finish_andThen (x : Record α) (f : α → Memory → Record β) :
    (x.andThen f).finish = x.finish.andThen fun a m => (f a m).finish := by
  obtain ⟨moments, _ | ⟨e | a, m⟩⟩ := x <;> rfl

/-- A settled record comes to the same with the memory settled. -/
theorem finish_settle (x : Record α) :
    x.settle.finish = x.finish.map fun r => (r.1, r.2.settle r.1) := by
  obtain ⟨moments, _ | ⟨e | a, m⟩⟩ := x <;> rfl

/-! ## Records that lead on -/

/-- **A record leads on from a memory**: from each moment to the next, and to the
memory that the action leaves. -/
structure LeadsOn (s : Setting) (m : Memory) (x : Record α) : Prop where
  chain : (m :: x.moments).IsChain (Next s)
  last : ∀ r, x.finish = some r → (m :: x.moments).getLast? = some r.2

/-- A record of one action leads on when the action does. -/
theorem LeadsOn.act {x : Exec α} (h : Next s m (x.apply m).2) : (act x m).LeadsOn s m where
  chain := .cons_cons h (.singleton _)
  last _ hfinish := Option.some.inj hfinish ▸ rfl

/-- A record of nothing leads on. -/
theorem LeadsOn.done (a : α) (m : Memory) : (done a m).LeadsOn s m where
  chain := .singleton m
  last _ hfinish := Option.some.inj hfinish ▸ rfl

/-- A record that breaks off at once leads on. -/
theorem LeadsOn.unfinished (m : Memory) : (⟨[], none⟩ : Record α).LeadsOn s m where
  chain := .singleton m
  last _ hfinish := by cases hfinish

/-- What is made of a result does not matter for what leads to it. -/
theorem LeadsOn.map {x : Record α} (h : x.LeadsOn s m) (f : Memory → α → β) :
    (x.map f).LeadsOn s m where
  chain := h.chain
  last _ hfinish := by
    obtain ⟨r, hx, rfl⟩ := Option.map_eq_some_iff.mp hfinish
    exact h.last r hx

/-- Moments that lead on from the last one may be added. -/
theorem isChain_append {xs ys : List Memory} (hxs : (m :: xs).IsChain (Next s))
    (hlast : (m :: xs).getLast? = some m') (hys : (m' :: ys).IsChain (Next s)) :
    (m :: (xs ++ ys)).IsChain (Next s) := by
  refine List.IsChain.append hxs hys.tail fun x hx y hy => ?_
  obtain rfl : m' = x := Option.some.inj (hlast.symm.trans hx)
  exact hys.rel_head? hy

/-- The last memory of two stretches is the last of the second. -/
theorem getLast?_append {xs ys : List Memory} (hlast : (m :: xs).getLast? = some m') :
    (m :: (xs ++ ys)).getLast? = (m' :: ys).getLast? := by
  rw [← List.cons_append, List.getLast?_append, hlast, List.getLast?_cons]
  cases ys.getLast? <;> rfl

/-- **Records lead on in sequence** when each of the two does. -/
theorem LeadsOn.andThen {x : Record α} {f : α → Memory → Record β} (hx : x.LeadsOn s m)
    (hf : ∀ a m', (f a m').LeadsOn s m') : (x.andThen f).LeadsOn s m := by
  obtain ⟨moments, _ | ⟨e | a, m'⟩⟩ := x
  · exact ⟨hx.chain, fun _ hfinish => by cases hfinish⟩
  · exact ⟨hx.chain, fun _ hfinish => Option.some.inj hfinish ▸ hx.last _ rfl⟩
  · -- what follows starts from the memory at which the first action has ended
    have hlast := hx.last _ rfl
    exact ⟨isChain_append hx.chain hlast (hf a m').chain, fun r hfinish =>
      (getLast?_append hlast).trans ((hf a m').last r hfinish)⟩

/-- A settled record leads on: it takes the frames off one after the other. -/
theorem LeadsOn.settle {x : Record α} (hx : x.LeadsOn s m) : x.settle.LeadsOn s m := by
  obtain ⟨moments, _ | ⟨e | a, m'⟩⟩ := x
  · exact hx
  · have hlast := hx.last _ rfl
    exact ⟨isChain_append hx.chain hlast (.cons_cons .unwind (.singleton _)),
      fun _ hfinish => (getLast?_append hlast).trans (Option.some.inj hfinish ▸ rfl)⟩
  · exact hx

end Record

/-! ## Evaluations with a record -/

/-- A run, step by step. -/
def recordRun (s : Setting) : Nat → Memory → Record Value
  | 0, _ => ⟨[], none⟩
  | fuel + 1, m => (Record.act (step s) m).andThen fun r m' =>
      r.elim (recordRun s fuel m') fun v => .done v m'

/-- A call from outside. -/
def recordInvoke (s : Setting) (fuel : Nat) (ref : FunctionRef) (args : List Value) (m : Memory) :
    Record Value :=
  (Record.act (enter s ref args .halt) m).andThen fun _ inner =>
    (recordRun s fuel inner).settle

/-- The initialization of modules, up to the first failure. -/
def recordInit (s : Setting) (fuel : Nat) : List ModuleIndex → Memory → Record Unit
  | [], m => .done () m
  | i :: rest, m =>
    match initializer? s.program i with
    | none => recordInit s fuel rest m
    | some ref => (recordInvoke s fuel ref [] m).andThen fun _ => recordInit s fuel rest

/-- **An evaluation, moment by moment.** -/
def recordEvaluate (s : Setting) (fuel : Nat) (args : List Value) (w : World) : Record Outcome :=
  match checkEntry s.program args with
  | .error e => ⟨[], some (.error e, startMemory s.program w)⟩
  | .ok _ =>
    (recordInit s fuel s.program.initOrder (startMemory s.program w)).andThen fun _ m =>
      (recordInvoke s fuel s.program.entry args m).map fun m v => ⟨v, m.globals⟩

/-- **The moments of an evaluation**, from the memory it starts with to the one it
leaves. An evaluation that does not finish has those that it comes to. -/
def moments (s : Setting) (fuel : Nat) (args : List Value) (w : World) : List Memory :=
  startMemory s.program w :: (recordEvaluate s fuel args w).moments

/-- The record of a run comes to what the run comes to. -/
theorem finish_recordRun (s : Setting) (fuel : Nat) (m : Memory) :
    (recordRun s fuel m).finish = run s fuel m := by
  induction fuel generalizing m with
  | zero => rfl
  | succ fuel ih =>
    rw [recordRun, Record.finish_andThen, run_succ]
    refine congrArg (Finish.andThen _) (funext fun r => funext fun m' => ?_)
    cases r with
    | none => exact ih m'
    | some v => rfl

/-- The record of a call comes to what the call comes to. -/
theorem finish_recordInvoke (s : Setting) (fuel : Nat) (ref : FunctionRef) (args : List Value)
    (m : Memory) : (recordInvoke s fuel ref args m).finish = invoke s fuel ref args m := by
  rw [recordInvoke, Record.finish_andThen, invoke_eq]
  refine congrArg (Finish.andThen _) (funext fun _ => funext fun inner => ?_)
  rw [Record.finish_settle, finish_recordRun]

/-- The record of an initialization comes to what the initialization comes to. -/
theorem finish_recordInit (s : Setting) (fuel : Nat) (order : List ModuleIndex) (m : Memory) :
    (recordInit s fuel order m).finish = initModules s fuel order m := by
  induction order generalizing m with
  | nil => rfl
  | cons i rest ih =>
    cases href : initializer? s.program i with
    | none =>
      simp only [recordInit, initModules, href]
      exact ih m
    | some ref =>
      simp only [recordInit, initModules_cons href, href]
      rw [Record.finish_andThen, finish_recordInvoke]
      exact congrArg (Finish.andThen _) (funext fun _ => funext ih)

/-- **An evaluation comes to what its record says.** -/
theorem evaluate_eq_record (s : Setting) (fuel : Nat) (args : List Value) (w : World) :
    evaluate s fuel args w =
      (recordEvaluate s fuel args w).finish.map fun r => (r.1, r.2.world) := by
  unfold recordEvaluate
  cases hentry : checkEntry s.program args with
  | error e =>
    simp only [evaluate, hentry]
    rfl
  | ok _ =>
    rw [evaluate_of_checkEntry hentry, Record.finish_andThen, finish_recordInit]
    refine congrArg (fun k => ((initModules s fuel _ _).andThen k).map _)
      (funext fun _ => funext fun m => ?_)
    rw [Record.map, finish_recordInvoke]
    rfl

/-- The record of a run leads on. -/
theorem leadsOn_recordRun (s : Setting) (fuel : Nat) (m : Memory) :
    (recordRun s fuel m).LeadsOn s m := by
  induction fuel generalizing m with
  | zero => exact .unfinished m
  | succ fuel ih =>
    refine .andThen (.act .step) fun r m' => ?_
    cases r with
    | none => exact ih m'
    | some v => exact .done v m'

/-- The record of a call leads on. -/
theorem leadsOn_recordInvoke (s : Setting) (fuel : Nat) (ref : FunctionRef) (args : List Value)
    (m : Memory) : (recordInvoke s fuel ref args m).LeadsOn s m :=
  .andThen (.act (.enter ref args)) fun _ inner => (leadsOn_recordRun s fuel inner).settle

/-- The record of an initialization leads on. -/
theorem leadsOn_recordInit (s : Setting) (fuel : Nat) (order : List ModuleIndex) (m : Memory) :
    (recordInit s fuel order m).LeadsOn s m := by
  induction order generalizing m with
  | nil => exact .done () m
  | cons i rest ih =>
    unfold recordInit
    split
    · exact ih m
    · exact .andThen (leadsOn_recordInvoke s fuel _ [] m) fun _ m' => ih m'

/-- **The record of an evaluation leads on** from the memory that it starts with. -/
theorem leadsOn_recordEvaluate (s : Setting) (fuel : Nat) (args : List Value) (w : World) :
    (recordEvaluate s fuel args w).LeadsOn s (startMemory s.program w) := by
  unfold recordEvaluate
  split
  · exact ⟨.singleton _, fun _ hfinish => Option.some.inj hfinish ▸ rfl⟩
  · exact .andThen (leadsOn_recordInit s fuel _ _) fun _ m =>
      (leadsOn_recordInvoke s fuel _ args m).map _

/-- **An evaluation goes from moment to moment.** -/
theorem isChain_moments (s : Setting) (fuel : Nat) (args : List Value) (w : World) :
    (moments s fuel args w).IsChain (Next s) :=
  (leadsOn_recordEvaluate s fuel args w).chain

/-- **The last moment has the world that an evaluation leaves.** -/
theorem getLast?_moments {args : List Value} {w w' : World} {result : Except RuntimeError Outcome}
    (h : evaluate s fuel args w = some (result, w')) :
    (moments s fuel args w).getLast?.map Memory.world = some w' := by
  rw [evaluate_eq_record] at h
  obtain ⟨⟨_, m⟩, hfinish, heq⟩ := Option.map_eq_some_iff.mp h
  cases heq
  rw [moments, (leadsOn_recordEvaluate s fuel args w).last _ hfinish, Option.map_some]

end Machine

end BlockIR
