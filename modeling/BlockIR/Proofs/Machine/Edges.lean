import BlockIR.Proofs.Machine.Assigned
import BlockIR.Proofs.Machine.DeadWrite
/-!
# Control keeps to the edges

The edges of a function that passes the check are those that its terminators
take, so a call passes from one block to another only along an edge
(`Course.advances`). Code in blocks that no path of edges leads to is never run:
a function with the same code in the others may stand in the place of the
function, and the program comes to the same (`simulation_replaced`).
-/

namespace BlockIR

open Success

namespace Function

variable {f g : Function} {b t : BlockId} {k : Nat} {i : Instruction}

/-- The instructions of a block in execution order, without their numbers. -/
def codeOf (f : Function) (b : BlockId) : Except StructureError (List Instruction) :=
  return (← f.instructionsOf b).map (·.2)

/-- **A block that a path of edges leads to** from the block control enters at. -/
inductive Accessible (f : Function) : BlockId → Prop
  | entry : Accessible f f.entry
  | along {b t : BlockId} {succs : List BlockId} : Accessible f b → f.successors b = .ok succs →
      t ∈ succs → Accessible f t

/-- Where all that is listed is in the arena, no index is skipped. -/
theorem getElem?_filterMap_slots {ids : List InstrId} {slots : Array Slot}
    (h : ∀ id ∈ ids, ∃ slot, slots[id]? = some slot) (k : Nat) :
    ((ids.filterMap fun id => (slots[id]?).map fun slot => (id, slot.instr)).map (·.2))[k]? =
      (ids[k]?).bind fun id => (slots[id]?).map fun slot => slot.instr := by
  induction ids generalizing k with
  | nil => rfl
  | cons id rest ih =>
    obtain ⟨slot, hslot⟩ := h id List.mem_cons_self
    rw [List.filterMap_cons, hslot]
    cases k with
    | zero => simp [hslot]
    | succ k => simpa using ih (fun id' hid' => h id' (List.mem_cons_of_mem _ hid')) k

/-- The code of a block reads off which instruction stands where. -/
theorem instrAt?_of_codeOf (hc : f.check = .ok ()) {code : List Instruction}
    (hcode : f.codeOf b = .ok code) (k : Nat) : f.instrAt? b k = code[k]? := by
  obtain ⟨listed, hlisted, hpure⟩ := bind_eq_ok.mp hcode
  obtain ⟨block, hblock, hfilter⟩ := bind_eq_ok.mp hlisted
  have hb := block_eq_ok.mp hblock
  have harena : ∀ id ∈ block.instrs, ∃ slot, f.slots[id]? = some slot := by
    intro id hid
    obtain ⟨j, hj⟩ := List.getElem?_of_mem hid
    obtain ⟨slot, hslot, -⟩ := (check_eq_ok_iff.mp hc b block hb).instrs j id hj
    exact ⟨slot, hslot⟩
  cases hfilter
  cases hpure
  rw [instrAt?_of_block hb, getElem?_filterMap_slots harena]

theorem exists_codeOf (hb : b < f.blocks.size) : ∃ code, f.codeOf b = .ok code := by
  obtain ⟨block, hblock⟩ := exists_block hb
  refine ⟨_, bind_eq_ok.mpr ⟨_, bind_eq_ok.mpr ⟨block, block_eq_ok.mpr hblock, rfl⟩, rfl⟩⟩

/-- **What an instruction leads to is among the successors of its block.** -/
theorem Drafted.exists_successors (hf : f.Drafted) (hi : f.instrAt? b k = some i)
    (ht : t ∈ i.targets) : ∃ succs, f.successors b = .ok succs ∧ t ∈ succs := by
  refine ⟨_, successors_eq_ok.mpr ⟨lt_size_of_instrAt? hi, rfl⟩, (hf.taken b t).mpr ?_⟩
  cases hterm : i.isTerminator with
  | false =>
    rw [Instruction.targets_eq_nil hterm] at ht
    cases ht
  | true =>
    have hlast : f.length b - 1 = k := by
      rw [← hf.early b k i hi hterm]
      rfl
    have hterminator : f.terminator? b = some i :=
      terminator?_eq_some.mpr ⟨hlast.symm ▸ hi, hterm⟩
    rw [targetsOf, hterminator]
    exact ht

theorem Accessible.of_target (h : f.Accessible b) (hf : f.Drafted)
    (hi : f.instrAt? b k = some i) (ht : t ∈ i.targets) : f.Accessible t := by
  obtain ⟨succs, hsuccs, hmem⟩ := hf.exists_successors hi ht
  exact .along h hsuccs hmem

/-- **A function with the same face as another**, and the same code wherever a path
of the other's edges leads. -/
structure Replaces (g f : Function) : Prop where
  name : g.name = f.name
  params : g.params = f.params
  numLocals : g.numLocals = f.numLocals
  code : ∀ b, f.Accessible b → g.codeOf b = f.codeOf b

end Function

namespace Machine

variable {s : Setting} {f g : Function} {ref : FunctionRef} {args : List Value} {resume : Resume}
variable {fr own own' : Frame} {base : List Frame} {m m' m'' : Memory} {past : List Memory}

/-! ## The course of a call -/

/-- **A call goes on**: in its block, or at the beginning of one that an edge leads
to from there. -/
inductive Advances (f : Function) (own own' : Frame) : Prop
  | within : own'.block = own.block → own.next ≤ own'.next → 0 < own'.next → Advances f own own'
  | along {succs : List BlockId} : f.successors own.block = .ok succs → own'.block ∈ succs →
      own'.next = 0 → Advances f own own'

/-- The frame of a call of a function, on those it began on and below those of the
calls it has made. It has made one only if it is past an instruction. -/
structure Stands (ref : FunctionRef) (base above : List Frame) (own : Frame)
    (frames : List Frame) : Prop where
  frames : frames = above ++ own :: base
  function : own.function = ref
  next : above = [] ∨ 0 < own.next

/-- **A step takes a call along an edge**, or leaves it in its block. -/
theorem Stands.step {above : List Frame} (h : Stands ref base above own m.stack.frames)
    (hf : s.program.function? ref = some f) (hdraft : f.Drafted)
    (hstep : (Machine.step s).apply m = (.ok none, m')) (hheight : base.length < m'.stack.height) :
    ∃ above' own', Stands ref base above' own' m'.stack.frames ∧ Advances f own own' := by
  obtain ⟨hframes, rfl, hnext⟩ := h
  obtain ⟨above', own', hframes', haffects⟩ := affects_of_step hframes hstep hheight
  refine ⟨above', own', ?_⟩
  cases haffects with
  | write v hi =>
    refine ⟨⟨hframes', function_deliver, .inl rfl⟩, .within block_deliver ?_ ?_⟩
    · rw [next_deliver]
      exact Nat.le_succ own.next
    · rw [next_deliver]
      exact Nat.succ_pos own.next
  | goto hi ht =>
    obtain ⟨succs, hsuccs, hmem⟩ := hdraft.exists_successors (instrAt?_of_fetch hf hi) ht
    exact ⟨⟨hframes', rfl, .inl rfl⟩, .along hsuccs hmem rfl⟩
  | call hi =>
    exact ⟨⟨hframes', rfl, .inr (Nat.succ_pos own.next)⟩,
      .within rfl (Nat.le_succ own.next) (Nat.succ_pos own.next)⟩
  | wait =>
    -- it waits past the instruction that made the call
    have hpos : 0 < own.next := hnext.resolve_left (List.cons_ne_nil _ _)
    exact ⟨⟨hframes', rfl, .inr hpos⟩, .within rfl (Nat.le_refl _) hpos⟩
  | receive dst v =>
    have hpos : 0 < own.next := hnext.resolve_left (List.cons_ne_nil _ _)
    refine ⟨⟨hframes', function_deliver, .inl rfl⟩, .within block_deliver ?_ ?_⟩
    · exact Nat.le_of_eq next_deliver.symm
    · rw [next_deliver]
      exact hpos

theorem Course.exists_stands (h : Course s ref args resume m (m' :: past))
    (hf : s.program.function? ref = some f) (hdraft : f.Drafted) :
    ∃ above own, Stands ref m.stack.frames above own m'.stack.frames := by
  generalize htrace : m' :: past = trace at h
  induction h generalizing m' past with
  | start henter =>
    cases htrace
    obtain ⟨-, f', -, -, rfl⟩ := enter_eq_start henter
    exact ⟨[], _, rfl, rfl, .inl rfl⟩
  | more _ hstep hheight ih =>
    cases htrace
    obtain ⟨above, own, hstands⟩ := ih rfl
    rw [m.stack.height_eq] at hheight
    obtain ⟨above', own', hstands', -⟩ := hstands.step hf hdraft hstep hheight
    exact ⟨above', own', hstands'⟩

/-- **From one moment of a call to the next, control keeps to the edges.** -/
theorem Course.advances (h : Course s ref args resume m (m'' :: m' :: past))
    (hf : s.program.function? ref = some f) (hdraft : f.Drafted) :
    ∃ above own above' own', Stands ref m.stack.frames above own m'.stack.frames ∧
      Stands ref m.stack.frames above' own' m''.stack.frames ∧ Advances f own own' := by
  cases h with
  | more hcourse hstep hheight =>
    obtain ⟨above, own, hstands⟩ := hcourse.exists_stands hf hdraft
    rw [m.stack.height_eq] at hheight
    obtain ⟨above', own', hstands', hadvances⟩ := hstands.step hf hdraft hstep hheight
    exact ⟨above, own, above', own', hstands, hstands', hadvances⟩

/-! ## Code that is never run -/

/-- **A frame of both programs**, in order and at a block that a path of edges leads
to. -/
structure Common (p : Program) (ref : FunctionRef) (f : Function) (fr fr' : Frame) : Prop where
  same : fr' = fr
  sound : fr.Sound p
  accessible : fr.function = ref → f.Accessible fr.block

section

variable (hp : s.program.Runnable) (hf : s.program.function? ref = some f) (hdraft : f.Drafted)
variable (hcheck : f.check = .ok ()) (hcheck' : g.check = .ok ()) (hg : g.Replaces f)

/-- The setting with a function in the place of another. -/
abbrev replaced (s : Setting) (ref : FunctionRef) (g : Function) : Setting :=
  { s with program := s.program.withFunction ref g }

include hcheck hcheck' hg in
/-- On a path of edges the same instruction stands in both functions. -/
theorem instrAt?_replaced {b : BlockId} (hb : f.Accessible b) {k : Nat} {i : Instruction}
    (hi : f.instrAt? b k = some i) : g.instrAt? b k = some i := by
  obtain ⟨code, hcode⟩ := Function.exists_codeOf (Function.lt_size_of_instrAt? hi)
  rw [Function.instrAt?_of_codeOf hcheck hcode] at hi
  rw [Function.instrAt?_of_codeOf hcheck' ((hg.code b hb).trans hcode)]
  exact hi

include hf hcheck hcheck' hg in
theorem fetch_replaced (hfr : Common s.program ref f fr fr) {i : Instruction}
    (hi : fetch s.program fr = .ok i) : fetch (replaced s ref g).program fr = .ok i := by
  by_cases hfunction : fr.function = ref
  · have hfr' : s.program.function? fr.function = some f := hfunction.symm ▸ hf
    have hg' : (replaced s ref g).program.function? fr.function = some g := by
      rw [Program.function?_withFunction, if_pos hfunction.symm, hfr']
      rfl
    exact fetch_eq_ok hg' (instrAt?_replaced hcheck hcheck' hg (hfr.accessible hfunction)
      (instrAt?_of_fetch hfr' hi))
  · obtain ⟨f', hf', -, -⟩ := hfr.sound
    have hsame : (replaced s ref g).program.function? fr.function = some f' := by
      rw [Program.function?_withFunction, if_neg (Ne.symm hfunction), hf']
    exact fetch_eq_ok hsame (instrAt?_of_fetch hf' hi)

include hp hf hdraft hcheck hcheck' hg in
theorem aligned_replaced (hfr : Common s.program ref f fr fr) :
    ∃ i, Aligned s (replaced s ref g) (Common s.program ref f) fr fr i i := by
  obtain ⟨i, hi⟩ := exists_ready hp hfr.sound
  refine ⟨i, hi.fetch, fetch_replaced hf hcheck hcheck' hg hfr hi.fetch, rfl, hi.value, hi.value,
    resolve_of_table rfl _ i, fun l hl => ⟨hi.dst l hl, hi.dst l hl⟩, fun hlast v => ?_,
    fun t ht => ?_⟩
  · refine ⟨rfl, sound_deliver (hi.advance hlast), fun hfunction => ?_⟩
    rw [block_deliver]
    rw [function_deliver] at hfunction
    exact hfr.accessible hfunction
  · refine ⟨rfl, hi.goto t ht, fun hfunction => ?_⟩
    have hfr' : s.program.function? fr.function = some f := by
      rw [show fr.function = ref from hfunction]
      exact hf
    exact (hfr.accessible hfunction).of_target hdraft (instrAt?_of_fetch hfr' hi.fetch) ht

include hg in
/-- A call begins with the same frame in both functions. -/
theorem start_replaced (ref : FunctionRef) (args : List Value) (resume : Resume) :
    Frame.start ref g args resume = .start ref f args resume := by
  rw [Frame.start, Frame.start, hg.numLocals]
  rfl

include hp hf hdraft hcheck hcheck' hg in
/-- **The program runs alike with the other function.** -/
theorem simulation_replaced : Simulation s (replaced s ref g) (Common s.program ref f) where
  toSameOutline := Program.sameOutline_withFunction hf hg.name
  limit := rfl
  absent ref' hnone := by
    rw [Program.function?_withFunction, hnone]
    split <;> rfl
  start ref' f' hf' := by
    have hcommon : ∀ args resume, Common s.program ref f (.start ref' f' args resume)
        (.start ref' f' args resume) := fun args resume =>
      ⟨rfl, sound_start hf' (hp _ _ hf'), fun _ => .entry⟩
    by_cases hne : ref' = ref
    · subst hne
      obtain rfl : f' = f := Option.some.inj (hf'.symm.trans hf)
      refine ⟨g, ?_, congrArg List.length hg.params, fun args resume => ?_⟩
      · rw [Program.function?_withFunction, if_pos rfl, hf]
        rfl
      · rw [start_replaced hg]
        exact hcommon args resume
    · refine ⟨f', ?_, rfl, hcommon⟩
      rw [Program.function?_withFunction, if_neg (Ne.symm hne), hf']
  proceed fr fr' hR := by
    obtain rfl := hR.same
    obtain ⟨i, hi⟩ := aligned_replaced hp hf hdraft hcheck hcheck' hg hR
    exact ⟨_, i, i, fun _ _ _ => .refl _ _, hi⟩

end

end Machine

/-- **The edges bound what is executed.** Let a function be one of a finished
program. Whatever the operations, the limit, the arguments and the memory, in the
course of a call of the function control passes from block to block only along
edges. So a checked function with the same name, parameters and number of local
slots, and the same code in every block that a path of edges leads to from the
entry, may stand in its place: an evaluation of the one program has an outcome
exactly when that of the other has it. -/
theorem edges_bound_execution {a : Assembly} {entry : FunctionRef} {p : Program} (ha : a.Reached)
    (hp : a.finish entry = .ok p) {ref : FunctionRef} {f : Function}
    (hf : p.function? ref = some f) :
    (∀ table limit args resume m m' m'' past,
      Machine.Course ⟨p, table, limit⟩ ref args resume m (m'' :: m' :: past) →
      ∃ above own above' own', Machine.Stands ref m.stack.frames above own m'.stack.frames ∧
        Machine.Stands ref m.stack.frames above' own' m''.stack.frames ∧
        Machine.Advances f own own') ∧
    ∀ g, g.check = .ok () → g.Replaces f → ∀ table limit args w r,
      (∃ fuel, Machine.evaluate ⟨p.withFunction ref g, table, limit⟩ fuel args w = some r) ↔
        ∃ fuel, Machine.evaluate ⟨p, table, limit⟩ fuel args w = some r := by
  have hrunnable := Assembly.runnable_of_finish ha hp
  obtain ⟨hnumbered, hcheck⟩ : f.Numbered ∧ f.check = .ok () := by
    obtain ⟨-, hall, rfl⟩ := Assembly.finish_eq_ok.mp hp
    exact ⟨(ha.all ref f hf).numbered.1, hall ref f hf⟩
  obtain ⟨hdraft, -⟩ := Function.drafted_of_check hnumbered hcheck
  constructor
  · intro table limit args resume m m' m'' past hcourse
    exact hcourse.advances hf hdraft
  · intro g hcheck' hg table limit args w r
    exact ((Machine.simulation_replaced (s := ⟨p, table, limit⟩) hrunnable hf hdraft hcheck
      hcheck' hg).evaluate_coincide args w r).symm

/-- A function that jumps to its second block and returns its argument there. What
its third block returns is of no matter. -/
def strayFunction (n : Int64) : Function :=
  ([.newBlock "end", .newBlock "stray", .jump 1, .moveTo 1, .ret (.var 0), .moveTo 2,
    .ret (.const (.int n))].foldl
    (fun c e => Emission.leave e c) (Cursor.atEntry (Function.empty "main" ["x"]))).function

/-- The assembly of that function. -/
def strayAssembly (n : Int64) : Assembly :=
  [.ensureModule "m", .defineFunction 0 (strayFunction n)].foldl
    (fun a act => Assembly.Act.leave act a) {}

theorem strayAssembly_reached (n : Int64) : (strayAssembly n).Reached := by
  have hreached : (strayFunction n).Reached := by
    unfold strayFunction
    simp only [List.foldl]
    iterate 7 refine .emission _ ?_
    exact .empty "main" ["x"]
  refine .act (.defineFunction 0 (strayFunction n)) ?_ (.act (.ensureModule "m") ?_ .empty)
  · rintro f ⟨⟩
    exact hreached
  · rintro f ⟨⟩

/-- Nothing leads to the third block. -/
theorem accessible_stray {b : BlockId} (h : (strayFunction 1).Accessible b) : b = 0 ∨ b = 1 := by
  induction h with
  | entry => exact .inl rfl
  | along _ hsuccs hmem ih =>
    rcases ih with rfl | rfl
    · have hzero : (strayFunction 1).successors 0 = .ok [1] := by decide +kernel
      cases hzero.symm.trans hsuccs
      exact .inr (List.mem_singleton.mp hmem)
    · have hone : (strayFunction 1).successors 1 = .ok [] := by decide +kernel
      cases hone.symm.trans hsuccs
      cases hmem

theorem replaces_stray : (strayFunction 2).Replaces (strayFunction 1) := by
  refine ⟨by decide +kernel, by decide +kernel, by decide +kernel, fun b hb => ?_⟩
  rcases accessible_stray hb with rfl | rfl
  · decide +kernel
  · decide +kernel

/-- The program of that function. -/
def strayProgram : Program where
  modules := #[{ id := "m", functions := #[strayFunction 1] }]
  globals := #[]
  entry := ⟨0, 0⟩
  initOrder := [0]

/-- With another return in the third block the program comes to the same, and in a
call of the function control passes from the first block to the second. -/
theorem edges_bound_execution_stray :
    (strayAssembly 1).finish ⟨0, 0⟩ = .ok strayProgram ∧
      strayProgram.function? ⟨0, 0⟩ = some (strayFunction 1) ∧
      (strayFunction 2).check = .ok () ∧ (strayFunction 2).Replaces (strayFunction 1) ∧
      (∃ own own', own.block = 0 ∧ own'.block = 1 ∧
        Machine.Advances (strayFunction 1) own own') ∧
      ∃ fuel o w', Machine.evaluate ⟨strayProgram.withFunction ⟨0, 0⟩ (strayFunction 2), ⟨[]⟩, 1⟩
        fuel [.int 5] ⟨{}, {}, .steady 0⟩ = some (.ok o, w') ∧ o.value = .int 5 := by
  have hp : (strayAssembly 1).finish ⟨0, 0⟩ = .ok strayProgram := by decide +kernel
  have hf : strayProgram.function? ⟨0, 0⟩ = some (strayFunction 1) := rfl
  have hcheck : (strayFunction 2).check = .ok () := by decide +kernel
  have hsingle : ∀ {above : List Frame} {own : Frame} {b : BlockId},
      (above ++ [own]).map (·.block) = [b] → own.block = b := by
    intro above own b h
    cases above <;> simp_all
  obtain ⟨hkeeps, hsame⟩ := edges_bound_execution (strayAssembly_reached 1) hp hf
  refine ⟨hp, hf, hcheck, replaces_stray, ?_, ?_⟩
  · let s : Setting := ⟨strayProgram, ⟨[]⟩, 1⟩
    let m : Memory := Machine.startMemory strayProgram ⟨{}, {}, .steady 0⟩
    let begun := (Machine.enter s ⟨0, 0⟩ [.int 5] .halt).apply m
    let gone := (Machine.step s).apply begun.2
    have hbegun : begun = (.ok (), begun.2) := Prod.ext (by decide +kernel) rfl
    have hgone : gone = (.ok none, gone.2) := Prod.ext (by decide +kernel) rfl
    have hcourse : Machine.Course s ⟨0, 0⟩ [.int 5] .halt m [gone.2, begun.2] :=
      .more (.start hbegun) hgone (by decide +kernel)
    obtain ⟨above, own, above', own', hown, hown', hadvances⟩ :=
      hkeeps ⟨[]⟩ 1 [.int 5] .halt m begun.2 gone.2 [] hcourse
    have hfirst : begun.2.stack.frames.map (·.block) = [0] := by decide +kernel
    have hsecond : gone.2.stack.frames.map (·.block) = [1] := by decide +kernel
    have hbase : m.stack.frames = [] := rfl
    rw [hown.frames, hbase] at hfirst
    rw [hown'.frames, hbase] at hsecond
    exact ⟨own, own', hsingle hfirst, hsingle hsecond, hadvances⟩
  · have hdone : (Machine.evaluate ⟨strayProgram, ⟨[]⟩, 1⟩ 9 [.int 5] ⟨{}, {}, .steady 0⟩).map
        (fun r => r.1.map (·.value)) = some (.ok (.int 5)) := by decide +kernel
    obtain ⟨⟨e | o, w'⟩, hrun, hresult⟩ := Option.map_eq_some_iff.mp hdone
    · cases hresult
    · obtain ⟨fuel, hfuel⟩ := (hsame _ hcheck replaces_stray ⟨[]⟩ 1 _ _ _).mpr ⟨9, hrun⟩
      exact ⟨fuel, o, w', hfuel, Except.ok.inj hresult⟩

end BlockIR
