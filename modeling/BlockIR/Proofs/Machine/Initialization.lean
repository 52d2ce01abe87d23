import BlockIR.Proofs.Machine.Run
import BlockIR.Proofs.Traversal
/-!
# The calls of initializers

An evaluation is followed here by the calls of initializers that it makes, each
with the memory it is made in and what it comes to. What the evaluation comes to
is not changed by keeping the log (`result_logEvaluate`). The calls are of the
modules that have an initializer, in the initialization order, up to the first
that does not complete.
-/

namespace BlockIR

namespace Machine

variable {s : Setting} {m : Memory} {fuel : Nat} {order : List ModuleIndex}

/-- **A call of an initializer**: the module, the memory before, and what the call
comes to. -/
structure InitCall where
  module : ModuleIndex
  before : Memory
  finish : Finish Value

/-- The call returned. -/
def InitCall.Completed (c : InitCall) : Prop := ∃ v after, c.finish = some (.ok v, after)

/-- What an action comes to, and the calls of initializers on the way. -/
structure InitLog (α : Type) where
  calls : List InitCall
  result : α

/-- Initialize modules in order, up to the first failure, and log the calls. -/
def logInit (s : Setting) (fuel : Nat) : List ModuleIndex → Memory → InitLog (Finish Unit)
  | [], m => ⟨[], some (.ok (), m)⟩
  | i :: rest, m =>
    match initializer? s.program i with
    | none => logInit s fuel rest m
    | some ref =>
      match invoke s fuel ref [] m with
      | none => ⟨[⟨i, m, none⟩], none⟩
      | some (.error e, m') => ⟨[⟨i, m, some (.error e, m')⟩], some (.error e, m')⟩
      | some (.ok v, m') =>
        let after := logInit s fuel rest m'
        ⟨⟨i, m, some (.ok v, m')⟩ :: after.calls, after.result⟩

/-- **An evaluation with a log** of the initializers that it calls. -/
def logEvaluate (s : Setting) (fuel : Nat) (args : List Value) (w : World) :
    InitLog (Option (Except RuntimeError Outcome × World)) :=
  match checkEntry s.program args with
  | .error e => ⟨[], some (.error e, w)⟩
  | .ok _ =>
    let log := logInit s fuel s.program.initOrder (startMemory s.program w)
    ⟨log.calls, (log.result.andThen fun _ => runEntry s fuel args).map fun r => (r.1, r.2.world)⟩

/-- The module has an initializer. -/
def hasInit (s : Setting) (i : ModuleIndex) : Bool := (initializer? s.program i).isSome

/-- **A log of initializing modules in order**: the calls that were made are those of
the first modules with an initializer, all but the last of them completed, and if
all modules were initialized then all were called. -/
structure LogsInit (s : Setting) (fuel : Nat) (order : List ModuleIndex)
    (log : InitLog (Finish Unit)) : Prop where
  made : ∀ c ∈ log.calls, ∃ ref, initializer? s.program c.module = some ref ∧
    invoke s fuel ref [] c.before = c.finish
  inOrder : log.calls.map InitCall.module <+: order.filter (hasInit s)
  completed : ∀ before c after, log.calls = before ++ c :: after → ∀ c' ∈ before, c'.Completed
  all : ∀ m', log.result = some (.ok (), m') →
    log.calls.map InitCall.module = order.filter (hasInit s) ∧ ∀ c ∈ log.calls, c.Completed

namespace LogsInit

/-- Nothing was called, for whatever reason. -/
theorem unbegun : LogsInit s fuel order ⟨[], none⟩ where
  made _ hc := absurd hc List.not_mem_nil
  inOrder := List.nil_prefix
  completed before c after heq := by cases before <;> cases heq
  all _ hok := by cases hok

theorem nil (m : Memory) : LogsInit s fuel [] ⟨[], some (.ok (), m)⟩ where
  made _ hc := absurd hc List.not_mem_nil
  inOrder := List.prefix_refl _
  completed before c after heq := by cases before <;> cases heq
  all _ _ := ⟨rfl, fun _ hc => absurd hc List.not_mem_nil⟩

/-- A module without an initializer is passed over. -/
theorem skip {log : InitLog (Finish Unit)} {i : ModuleIndex} (h : LogsInit s fuel order log)
    (hnone : initializer? s.program i = none) : LogsInit s fuel (i :: order) log := by
  have hfilter : (i :: order).filter (hasInit s) = order.filter (hasInit s) :=
    List.filter_cons_of_neg (by simp [hasInit, hnone])
  exact ⟨h.made, hfilter ▸ h.inOrder, h.completed, hfilter ▸ h.all⟩

/-- Nothing is called after a call that did not complete. -/
theorem stop {i : ModuleIndex} {ref : FunctionRef} {finish : Finish Value} {result : Finish Unit}
    (href : initializer? s.program i = some ref) (hcall : invoke s fuel ref [] m = finish)
    (hresult : ∀ m', result ≠ some (.ok (), m')) :
    LogsInit s fuel (i :: order) ⟨[⟨i, m, finish⟩], result⟩ where
  made c hc := by
    obtain rfl := List.mem_singleton.mp hc
    exact ⟨ref, href, hcall⟩
  inOrder := by
    rw [List.filter_cons_of_pos (by simp [hasInit, href])]
    exact ⟨order.filter (hasInit s), rfl⟩
  completed before c after heq c' hc' := by
    cases before with
    | nil => cases hc'
    | cons _ rest => cases rest <;> cases heq
  all m' hok := absurd hok (hresult m')

/-- A call that completed is followed by the others. -/
theorem cons {log : InitLog (Finish Unit)} {i : ModuleIndex} {ref : FunctionRef}
    {v : Value} {m' : Memory} (h : LogsInit s fuel order log)
    (href : initializer? s.program i = some ref)
    (hcall : invoke s fuel ref [] m = some (.ok v, m')) :
    LogsInit s fuel (i :: order) ⟨⟨i, m, some (.ok v, m')⟩ :: log.calls, log.result⟩ := by
  have hfilter : (i :: order).filter (hasInit s) = i :: order.filter (hasInit s) :=
    List.filter_cons_of_pos (by simp [hasInit, href])
  have hdone : InitCall.Completed ⟨i, m, some (.ok v, m')⟩ := ⟨v, m', rfl⟩
  refine ⟨?_, ?_, ?_, fun m'' hok => ?_⟩
  · exact List.forall_mem_cons.mpr ⟨⟨ref, href, hcall⟩, h.made⟩
  · rw [hfilter]
    exact (List.prefix_cons_inj i).mpr h.inOrder
  · intro before c after heq c' hc'
    cases before with
    | nil => cases hc'
    | cons first rest =>
      obtain ⟨rfl, hrest⟩ := List.cons.inj heq
      rcases List.mem_cons.mp hc' with rfl | hc'
      · exact hdone
      · exact h.completed rest c after hrest c' hc'
  · obtain ⟨hall, hcompleted⟩ := h.all m'' hok
    exact ⟨by rw [hfilter, ← hall]; rfl, List.forall_mem_cons.mpr ⟨hdone, hcompleted⟩⟩

/-- **Modules that come before a called one have completed.** -/
theorem exists_completed {log : InitLog (Finish Unit)} {before after : List InitCall}
    {c : InitCall} {i : ModuleIndex} (h : LogsInit s fuel order log) (hnodup : order.Nodup)
    (hcalls : log.calls = before ++ c :: after) (hprecedes : Precedes order i c.module)
    (hinit : hasInit s i = true) : ∃ c' ∈ before, c'.module = i ∧ c'.Completed := by
  have hc : c ∈ log.calls := hcalls ▸ List.mem_append_right _ List.mem_cons_self
  obtain ⟨ref, href, -⟩ := h.made c hc
  have hhas : hasInit s c.module = true := by rw [hasInit, href]; rfl
  obtain ⟨more, hmore⟩ := h.inOrder
  -- a split of the calls is a split of the modules that have an initializer
  have heq : order.filter (hasInit s) = before.map InitCall.module ++
      c.module :: (after.map InitCall.module ++ more) := by
    rw [← hmore, hcalls]
    simp
  have hmem := (hprecedes.filter hinit hhas).mem_before (hnodup.filter _) heq
  obtain ⟨c', hc', rfl⟩ := List.mem_map.mp hmem
  exact ⟨c', hc', rfl, h.completed before c after hcalls c' hc'⟩

end LogsInit

/-- **Initialization makes the calls that its log says.** -/
theorem logsInit_logInit (s : Setting) (fuel : Nat) (order : List ModuleIndex) (m : Memory) :
    LogsInit s fuel order (logInit s fuel order m) := by
  induction order generalizing m with
  | nil => exact .nil m
  | cons i rest ih =>
    cases href : initializer? s.program i with
    | none =>
      rw [logInit, href]
      exact (ih m).skip href
    | some ref =>
      simp only [logInit, href]
      cases hcall : invoke s fuel ref [] m with
      | none => exact .stop href hcall fun _ => by rintro ⟨⟩
      | some r =>
        obtain ⟨e | v, m'⟩ := r
        · exact .stop href hcall fun _ => by rintro ⟨⟩
        · exact (ih m').cons href hcall

/-- The log changes nothing about what initialization comes to. -/
theorem result_logInit (s : Setting) (fuel : Nat) (order : List ModuleIndex) (m : Memory) :
    (logInit s fuel order m).result = initModules s fuel order m := by
  induction order generalizing m with
  | nil => rfl
  | cons i rest ih =>
    cases href : initializer? s.program i with
    | none =>
      simp only [logInit, initModules, href]
      exact ih m
    | some ref =>
      simp only [logInit, initModules_cons href, href]
      rcases invoke s fuel ref [] m with _ | ⟨e | v, m'⟩
      · rfl
      · rfl
      · exact ih m'

/-- **The log changes nothing about what an evaluation comes to.** -/
theorem result_logEvaluate (s : Setting) (fuel : Nat) (args : List Value) (w : World) :
    (logEvaluate s fuel args w).result = evaluate s fuel args w := by
  cases h : checkEntry s.program args with
  | error e => rw [logEvaluate, h, evaluate, h]
  | ok _ =>
    rw [evaluate_of_checkEntry h, ← result_logInit]
    simp only [logEvaluate, h]

/-- **An evaluation makes the calls of an initialization**, and all of them if it
returns a value. -/
theorem exists_logsInit (s : Setting) (fuel : Nat) (args : List Value) (w : World) :
    ∃ log, LogsInit s fuel s.program.initOrder log ∧ (logEvaluate s fuel args w).calls = log.calls ∧
      ∀ o w', evaluate s fuel args w = some (.ok o, w') → ∃ m, log.result = some (.ok (), m) := by
  cases h : checkEntry s.program args with
  | error e =>
    refine ⟨⟨[], none⟩, .unbegun, by rw [logEvaluate, h], fun o w' heval => ?_⟩
    rw [evaluate, h] at heval
    cases heval
  | ok _ =>
    refine ⟨_, logsInit_logInit s fuel s.program.initOrder (startMemory s.program w),
      by simp only [logEvaluate, h], fun o w' heval => ?_⟩
    rw [evaluate_of_checkEntry h, ← result_logInit] at heval
    generalize (logInit s fuel s.program.initOrder (startMemory s.program w)).result = result
      at heval ⊢
    rcases result with _ | ⟨e | _, m⟩
    · cases heval
    · cases heval
    · exact ⟨m, rfl⟩

/-- **An evaluation initializes modules in order.** The log of the initializers that
it calls changes nothing about it and is of calls that are made. No module is
initialized twice, and none before those ahead of it have been; and an evaluation
that returns a value has initialized all of them. -/
structure InitializesInOrder (s : Setting) (fuel : Nat) (args : List Value) (w : World) : Prop where
  result : (logEvaluate s fuel args w).result = evaluate s fuel args w
  made : ∀ c ∈ (logEvaluate s fuel args w).calls, ∃ ref,
    initializer? s.program c.module = some ref ∧ invoke s fuel ref [] c.before = c.finish
  once : ((logEvaluate s fuel args w).calls.map InitCall.module).Nodup
  inTurn : ∀ before c after, (logEvaluate s fuel args w).calls = before ++ c :: after →
    ∀ i, Precedes s.program.initOrder i c.module → hasInit s i = true →
      ∃ c' ∈ before, c'.module = i ∧ c'.Completed
  all : ∀ o w', evaluate s fuel args w = some (.ok o, w') → ∀ i ∈ s.program.initOrder,
    hasInit s i = true → ∃ c ∈ (logEvaluate s fuel args w).calls, c.module = i ∧ c.Completed

theorem initializesInOrder (hnodup : s.program.initOrder.Nodup) (fuel : Nat) (args : List Value)
    (w : World) : InitializesInOrder s fuel args w := by
  obtain ⟨log, hlog, hcalls, hall⟩ := exists_logsInit s fuel args w
  refine ⟨result_logEvaluate s fuel args w, hcalls ▸ hlog.made, ?_, fun before c after heq i => ?_,
    fun o w' heval i hi hinit => ?_⟩
  · rw [hcalls]
    exact (hnodup.filter _).sublist hlog.inOrder.sublist
  · exact hlog.exists_completed hnodup (hcalls ▸ heq)
  · obtain ⟨m, hm⟩ := hall o w' heval
    obtain ⟨hmodules, hcompleted⟩ := hlog.all m hm
    have hmem : i ∈ log.calls.map InitCall.module := by
      rw [hmodules]
      exact List.mem_filter.mpr ⟨hi, hinit⟩
    obtain ⟨c, hc, rfl⟩ := List.mem_map.mp hmem
    exact ⟨c, hcalls ▸ hc, rfl, hcompleted c hc⟩

end Machine

end BlockIR
