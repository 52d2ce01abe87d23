import BlockIR.Proofs.Machine.Simulation
import BlockIR.Proofs.Program.Blur
import BlockIR.Proofs.Program.Reached
/-!
# Operators and their builtin operations

An operator in place of the call of its builtin operation, or the call in place of
the operator, makes no difference to a run: both read the same operands, call the
same operation and write the same slot, in one step. So a program runs as it does
with some of its operators recast as calls (`evaluate_recast`), under any table of
operations. Blurring the difference, which is to recast all of them, is how two
programs that differ in it are compared.
-/

namespace BlockIR

open Success

/-- **The call that carries an operator out**, of a binary instruction. Other
instructions stay. -/
def Instruction.viaBuiltin : Instruction → Instruction
  | .binary dst op lhs rhs => .call (some dst) (.builtin op.builtin) [lhs, rhs]
  | i => i

/-- **The function with the operators of some instructions recast** as calls, each
in its place. -/
def Function.recast (chosen : InstrId → Bool) (f : Function) : Function :=
  { f with slots := f.slots.mapIdx fun id s =>
      if chosen id then { s with instr := s.instr.viaBuiltin } else s }

/-- Recast the operators of instructions one after the other. -/
def Function.recastEach (ids : List InstrId) : Edit Unit :=
  ids.forM fun id => do
    let i ← Transform.query (·.instr id)
    let _ ← Function.substitute id i.viaBuiltin

/-- The module with the operators of some instructions of its functions recast. -/
def Module.recast (chosen : Nat → InstrId → Bool) (m : Module) : Module :=
  { m with functions := m.functions.mapIdx fun index f => f.recast (chosen index) }

/-- The assembly with the operators of some instructions recast. -/
def Assembly.recast (chosen : FunctionRef → InstrId → Bool) (a : Assembly) : Assembly :=
  { a with modules := a.modules.mapIdx fun m row => row.recast fun index => chosen ⟨m, index⟩ }

/-- **The program with the operators of some instructions recast** as calls. -/
def Program.recast (chosen : FunctionRef → InstrId → Bool) (p : Program) : Program :=
  { p with modules := p.modules.mapIdx fun m row => row.recast fun index => chosen ⟨m, index⟩ }

namespace Function

variable {f : Function} {id : InstrId}

/-- Recasting adds no instruction. -/
theorem size_recast (chosen : InstrId → Bool) (f : Function) :
    (f.recast chosen).slots.size = f.slots.size := Array.size_mapIdx

/-- Substituting the call for the operator of one instruction. -/
theorem apply_recastOne (h : id < f.slots.size) :
    (do let i ← Transform.query (·.instr id)
        let _ ← substitute id i.viaBuiltin : Edit Unit).apply f =
      (.ok (), f.recast (· == id)) := by
  obtain ⟨s, hs⟩ : ∃ s, f.slots[id]? = some s := ⟨_, Array.getElem?_eq_getElem h⟩
  have hinstr : f.instr id = .ok s.instr := by
    rw [instr, Function.slot, hs]
    rfl
  have hrecast : f.modifySlot id (fun t => { t with instr := s.instr.viaBuiltin }) =
      f.recast (· == id) := by
    refine congrArg (fun slots => { f with slots := slots }) (Array.ext_getElem? fun k => ?_)
    rw [Array.getElem?_modify, Array.getElem?_mapIdx]
    by_cases hk : id = k
    · subst hk
      simp [hs]
    · simp [hk, Ne.symm hk]
  have hquery : (Transform.query (·.instr id) : Edit Instruction).apply f = (.ok s.instr, f) :=
    congrArg (fun r => (r, f)) hinstr
  have hsubstitute : (substitute id s.instr.viaBuiltin).apply f =
      (.ok s.instr, f.recast (· == id)) := by
    rw [substitute, Transform.apply_bind_ok hquery, ← hrecast]
    rfl
  rw [Transform.apply_bind_ok hquery, Transform.apply_bind_ok hsubstitute]
  rfl

/-- What goes by way of an operation already stays. -/
theorem viaBuiltin_viaBuiltin (i : Instruction) : i.viaBuiltin.viaBuiltin = i.viaBuiltin := by
  cases i <;> rfl

/-- Recasting twice recasts what is chosen once. -/
theorem recast_recast (chosen chosen' : InstrId → Bool) (f : Function) :
    (f.recast chosen).recast chosen' = f.recast fun id => chosen id || chosen' id := by
  refine congrArg (fun slots => { f with slots := slots }) (Array.ext_getElem? fun k => ?_)
  simp only [recast, Array.getElem?_mapIdx, Option.map_map]
  refine congrArg (Option.map · f.slots[k]?) (funext fun s => ?_)
  rw [Function.comp_apply]
  by_cases hk : chosen k = true <;> by_cases hk' : chosen' k = true <;>
    simp [hk, hk', viaBuiltin_viaBuiltin]

/-- **Recasting one after the other recasts them all**, in place. -/
theorem apply_recastEach {ids : List InstrId} (h : ∀ id ∈ ids, id < f.slots.size) :
    (recastEach ids).apply f = (.ok (), f.recast ids.contains) := by
  induction ids generalizing f with
  | nil =>
    have hnone : f.recast [].contains = f := by
      refine congrArg (fun slots => { f with slots := slots }) (Array.ext_getElem? fun k => ?_)
      rw [Array.getElem?_mapIdx]
      simp
    rw [hnone]
    rfl
  | cons id rest ih =>
    have hrest : ∀ id' ∈ rest, id' < (f.recast (· == id)).slots.size := by
      intro id' hid'
      rw [size_recast]
      exact h id' (List.mem_cons_of_mem _ hid')
    rw [recastEach, List.forM_eq_forM, List.forM_cons,
      Transform.apply_bind_ok (apply_recastOne (h id List.mem_cons_self))]
    refine (ih hrest).trans ?_
    rw [recast_recast]
    refine congrArg (fun chosen => (Except.ok (), f.recast chosen)) (funext fun k => ?_)
    rw [List.contains_cons]

end Function

/-- **Operators not told from the calls that carry them out.** -/
def Blur.operators : Blur where
  operator dst op lhs rhs := .call (some dst) (.builtin op.builtin) [lhs, rhs]
  location l := l
  isTerminator_operator _ _ _ _ := rfl
  locals_operator _ _ _ _ := rfl
  operator_stays := by
    intro dst op lhs rhs dst' op' lhs' rhs' h
    cases h
  location_location _ := rfl
  location_unknown := rfl

namespace Blur

/-- This blur shows operators as calls of their operations. -/
theorem instr_operators (i : Instruction) : operators.instr i = i.viaBuiltin := by
  cases i <;> rfl

/-- Changes of the places of an array that a map does not see. -/
theorem map_mapIdx_of_unseen {α β : Type} {g : α → β} {change : Nat → α → α}
    (h : ∀ k x, g (change k x) = g x) (xs : Array α) : (xs.mapIdx change).map g = xs.map g := by
  refine Array.ext_getElem? fun k => ?_
  rw [Array.getElem?_map, Array.getElem?_mapIdx, Array.getElem?_map, Option.map_map]
  exact congrArg (Option.map · xs[k]?) (funext (h k))

/-- Recasting a function is not seen through the blur. -/
theorem operators_recast_function (chosen : InstrId → Bool) (f : Function) :
    operators.function (f.recast chosen) = operators.function f := by
  refine congrArg (fun slots => { f with slots := slots })
    (map_mapIdx_of_unseen (fun id s => ?_) f.slots)
  split
  · simp only [slot, ← instr_operators, instr_instr]
  · rfl

/-- Recasting a module is not seen through the blur. -/
theorem operators_recast_module (chosen : Nat → InstrId → Bool) (m : Module) :
    operators.module (m.recast chosen) = operators.module m :=
  congrArg (fun functions => { m with functions := functions })
    (map_mapIdx_of_unseen (fun _ f => operators_recast_function _ f) m.functions)

/-- Recasting an assembly is not seen through the blur. -/
theorem operators_recast_assembly (chosen : FunctionRef → InstrId → Bool) (a : Assembly) :
    operators.assembly (a.recast chosen) = operators.assembly a :=
  congrArg (fun modules => { a with modules := modules })
    (map_mapIdx_of_unseen (fun _ row => operators_recast_module _ row) a.modules)

/-- **Recasting some operators is not told from recasting none.** -/
theorem operators_recast (chosen : FunctionRef → InstrId → Bool) (p : Program) :
    operators.program (p.recast chosen) = operators.program p :=
  congrArg (fun modules => { p with modules := modules })
    (map_mapIdx_of_unseen (fun _ row => operators_recast_module _ row) p.modules)

/-- A change that does not depend on the position is a plain map. -/
theorem map_eq_mapIdx {α β : Type} {g : α → β} {change : Nat → α → β}
    (h : ∀ k x, g x = change k x) (xs : Array α) : xs.map g = xs.mapIdx change := by
  refine Array.ext_getElem? fun k => ?_
  rw [Array.getElem?_map, Array.getElem?_mapIdx]
  exact congrArg (Option.map · xs[k]?) (funext (h k))

/-- Blurring the difference is recasting all operators. -/
theorem operators_program (p : Program) : operators.program p = p.recast fun _ _ => true := by
  have hslot : ∀ (id : InstrId) (s : Slot), operators.slot s =
      if true then { s with instr := s.instr.viaBuiltin } else s := by
    intro id s
    rw [if_pos rfl, ← instr_operators]
    rfl
  have hfunction : ∀ (index : Nat) (f : Function), operators.function f = f.recast fun _ => true :=
    fun _ f => congrArg (fun slots => { f with slots := slots }) (map_eq_mapIdx hslot f.slots)
  have hmodule : ∀ (m : ModuleIndex) (row : Module),
      operators.module row = row.recast fun _ _ => true := fun _ row =>
    congrArg (fun functions => { row with functions := functions })
      (map_eq_mapIdx hfunction row.functions)
  exact congrArg (fun modules => { p with modules := modules }) (map_eq_mapIdx hmodule p.modules)

end Blur

namespace Machine

variable {p : Program} {table : Table} {limit : Nat}

/-- **An operator is carried out as the call is.** -/
theorem execute_operators (s : Setting) (i : Instruction) :
    execute s (Blur.operators.instr i) = execute s i := by
  cases i with
  | binary dst op lhs rhs =>
    show execute s (.call (some dst) (.builtin op.builtin) [lhs, rhs]) = _
    simp only [execute, operands, deliver, List.mapM_cons, List.mapM_nil, bind_assoc, pure_bind]
  | _ => rfl

/-- The blur leaves the names of functions. -/
theorem describe_blurred (β : Blur) (p : Program) (ref : FunctionRef) :
    (β.program p).describe ref = p.describe ref := by
  refine Program.describe_congr ?_ ?_
  · rw [Blur.program, Array.getElem?_map, Option.map_map]
    rfl
  · rw [Blur.function?_program, Option.map_map]
    rfl

/-- What is fetched from a blurred program is the blurred instruction. -/
theorem fetch_blurred (β : Blur) (p : Program) (fr : Frame) :
    fetch (β.program p) fr = (fetch p fr).map β.instr := by
  unfold fetch
  rw [Blur.function?_program, describe_blurred]
  cases p.function? fr.function with
  | none => rfl
  | some f =>
    have hblocks : (β.function f).blocks = f.blocks := rfl
    simp only [Option.map_some, hblocks]
    cases f.blocks[fr.block]? with
    | none => rfl
    | some block =>
      simp only
      cases block.instrs[fr.next]? with
      | none => rfl
      | some id =>
        simp only [Blur.slots_function]
        cases f.slots[id]? with
        | none => rfl
        | some slot => rfl

/-- Calls begin with the same frames. -/
theorem enter_blurred (β : Blur) (p : Program) (table : Table) (limit : Nat) :
    enter ⟨β.program p, table, limit⟩ = enter ⟨p, table, limit⟩ := by
  funext ref args resume
  unfold enter
  simp only [Blur.function?_program, describe_blurred]
  cases p.function? ref with
  | none => rfl
  | some f => rfl

/-- What an instruction does depends on the program only for calls and names. -/
theorem execute_blurred (β : Blur) (p : Program) (table : Table) (limit : Nat) (i : Instruction) :
    execute ⟨β.program p, table, limit⟩ i = execute ⟨p, table, limit⟩ i := by
  cases i with
  | call dst callee args =>
    cases callee with
    | builtin name => rfl
    | function ref => simp only [execute, enter_blurred]
  | _ => rfl

/-! ## Runs -/

section

variable (p : Program) (table : Table) (limit : Nat)

/-- The setting of a program in which all operators are recast. -/
abbrev recastSetting : Setting := ⟨Blur.operators.program p, table, limit⟩

/-- **A step is the same.** -/
theorem step_operators : step (recastSetting p table limit) = step ⟨p, table, limit⟩ := by
  unfold step
  refine bind_congr fun fr => ?_
  rw [fetch_blurred]
  cases fetch p fr with
  | error e => rfl
  | ok i =>
    refine bind_congr fun _ => ?_
    rw [execute_blurred, execute_operators]

/-- A run does not see whether operators are calls of their operations. -/
theorem run_operators (fuel : Nat) (m : Memory) :
    run (recastSetting p table limit) fuel m = run ⟨p, table, limit⟩ fuel m := by
  induction fuel generalizing m with
  | zero => rfl
  | succ fuel ih =>
    rw [run, run, step_operators]
    rcases (step ⟨p, table, limit⟩).apply m with ⟨e | _ | v, m'⟩
    · rfl
    · exact ih m'
    · rfl

/-- A call does not see it. -/
theorem invoke_operators (fuel : Nat) (ref : FunctionRef) (args : List Value) (m : Memory) :
    invoke (recastSetting p table limit) fuel ref args m =
      invoke ⟨p, table, limit⟩ fuel ref args m := by
  unfold invoke
  rw [enter_blurred]
  simp only [run_operators]

/-- A module has the same initializer. -/
theorem initializer?_operators (m : ModuleIndex) :
    initializer? (Blur.operators.program p) m = initializer? p m := by
  unfold initializer? Blur.program
  rw [Array.getElem?_map]
  cases p.modules[m]? with
  | none => rfl
  | some row => rfl

/-- An initialization does not see it. -/
theorem initModules_operators (fuel : Nat) (order : List ModuleIndex) (m : Memory) :
    initModules (recastSetting p table limit) fuel order m =
      initModules ⟨p, table, limit⟩ fuel order m := by
  induction order generalizing m with
  | nil => rfl
  | cons i rest ih =>
    rw [initModules, initModules, initializer?_operators]
    cases initializer? p i with
    | none => exact ih m
    | some ref =>
      simp only [invoke_operators]
      rcases invoke ⟨p, table, limit⟩ fuel ref [] m with _ | ⟨e | v, m'⟩
      · rfl
      · rfl
      · exact ih m'

/-- The check of the entry does not see it. -/
theorem checkEntry_operators (args : List Value) :
    checkEntry (Blur.operators.program p) args = checkEntry p args := by
  have hentry : (Blur.operators.program p).entry = p.entry := rfl
  unfold checkEntry
  rw [hentry, Blur.function?_program, describe_blurred]
  cases p.function? p.entry with
  | none => rfl
  | some f => rfl

/-- **An evaluation is the same with all operators recast.** -/
theorem evaluate_operators (fuel : Nat) (args : List Value) (w : World) :
    evaluate (recastSetting p table limit) fuel args w =
      evaluate ⟨p, table, limit⟩ fuel args w := by
  have hentry : (Blur.operators.program p).entry = p.entry := rfl
  have horder : (Blur.operators.program p).initOrder = p.initOrder := rfl
  have hstart : startMemory (Blur.operators.program p) w = startMemory p w := rfl
  unfold evaluate
  simp only [checkEntry_operators, horder, hstart, initModules_operators, runEntry, hentry,
    invoke_operators]

end

/-- **An evaluation is the same with some operators recast.** -/
theorem evaluate_recast (chosen : FunctionRef → InstrId → Bool) (p : Program) (table : Table)
    (limit fuel : Nat) (args : List Value) (w : World) :
    evaluate ⟨p.recast chosen, table, limit⟩ fuel args w =
      evaluate ⟨p, table, limit⟩ fuel args w := by
  rw [← evaluate_operators, recastSetting, Blur.operators_recast]
  exact evaluate_operators p table limit fuel args w

end Machine

/-! ## The check -/

/-- A recast assembly is finished to the recast program. -/
theorem Assembly.finish_recast {a : Assembly} {entry : FunctionRef} {p : Program}
    (hp : a.finish entry = .ok p) (chosen : FunctionRef → InstrId → Bool) :
    (a.recast chosen).finish entry = .ok (p.recast chosen) := by
  have hblurred : ((a.recast chosen).finish entry).map Blur.operators.program =
      (a.finish entry).map Blur.operators.program := by
    rw [← Blur.finish_assembly, ← Blur.finish_assembly, Blur.operators_recast_assembly]
  obtain ⟨-, -, rfl⟩ := finish_eq_ok.mp hp
  rw [hp] at hblurred
  cases hrecast : (a.recast chosen).finish entry with
  | error e =>
    rw [hrecast] at hblurred
    cases hblurred
  | ok q =>
    obtain ⟨-, -, rfl⟩ := finish_eq_ok.mp hrecast
    -- the order of initialization is the only part that is computed from the modules
    have horder : InitOrder.ofModules (a.recast chosen).modules =
        InitOrder.ofModules a.modules := by
      rw [← Blur.operators.initOrder_map, ← Blur.operators.initOrder_map a.modules]
      exact congrArg (fun a => InitOrder.ofModules (Assembly.modules a))
        (Blur.operators_recast_assembly chosen a)
    rw [horder]
    rfl

end BlockIR
