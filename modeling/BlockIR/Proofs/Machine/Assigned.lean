import BlockIR.Proofs.Function.Assigned
import BlockIR.Proofs.Machine.Calls
/-!
# Calls read only what they have written

At every moment of its course, what the chart of its code has assigned where a
call stands are parameters and slots that an instruction of the call has written
(`Accounts`). A step of the call itself adds the slot that its instruction
writes, and the calls it makes change nothing but the slot of their result. So in
charted code a call reads a slot only after it has written it.
-/

namespace BlockIR

/-- Every function of the program has a chart. -/
def Program.Charted (p : Program) : Prop :=
  ∀ ref f, p.function? ref = some f → ∃ chart, f.Charted chart

/-- The slot of a parameter of a function. -/
def Program.IsParam (p : Program) (ref : FunctionRef) (l : LocalId) : Prop :=
  ∃ f, p.function? ref = some f ∧ l < f.arity

namespace Machine

variable {s : Setting} {p : Program} {f : Function} {chart : Chart} {ref : FunctionRef}
variable {args : List Value} {resume : Resume} {fr own : Frame} {base frames : List Frame}
variable {m m' : Memory} {past past' : List Memory} {i : Instruction} {l : LocalId} {depth : Nat}

@[simp] theorem function_deliver {dst : Option LocalId} {v : Value} :
    (fr.deliver dst v).function = fr.function := by
  cases dst <;> rfl

@[simp] theorem block_deliver {dst : Option LocalId} {v : Value} :
    (fr.deliver dst v).block = fr.block := by
  cases dst <;> rfl

@[simp] theorem next_deliver {dst : Option LocalId} {v : Value} :
    (fr.deliver dst v).next = fr.next := by
  cases dst <;> rfl

/-- The instruction that the innermost call carries out next. -/
def Upcoming (p : Program) (m : Memory) (i : Instruction) : Prop :=
  ∃ fr rest, m.stack.frames = fr :: rest ∧ fetch p fr = .ok i

/-- **A call has written a slot**: one of its own instructions did, when its frame
was innermost, on as many others as it began on. -/
def Wrote (p : Program) (depth : Nat) (past : List Memory) (l : LocalId) : Prop :=
  ∃ m ∈ past, m.stack.height = depth + 1 ∧ ∃ i, Upcoming p m i ∧ l ∈ i.def?

/-- What was written stays so when more has passed. -/
theorem Wrote.mono (h : Wrote p depth past l) (hsubset : past ⊆ past') : Wrote p depth past' l := by
  obtain ⟨m, hm, hwrote⟩ := h
  exact ⟨m, hsubset hm, hwrote⟩

/-! ## The frame of a call -/

/-- **What a call has assigned it has written**, but for the parameters. -/
structure Accounts (p : Program) (f : Function) (chart : Chart) (depth : Nat) (past : List Memory)
    (own : Frame) : Prop where
  function : p.function? own.function = some f
  written : ∀ l, f.Assigned chart own.block own.next l → l < f.arity ∨ Wrote p depth past l

/-- What the chart says stays accounted for when more has passed. -/
theorem Accounts.mono (h : Accounts p f chart depth past own) (hsubset : past ⊆ past') :
    Accounts p f chart depth past' own :=
  ⟨h.function, fun l hl => (h.written l hl).imp_right fun hwrote => hwrote.mono hsubset⟩

/-- The result of a call does not put what is accounted for in doubt. -/
theorem Accounts.deliver (h : Accounts p f chart depth past own) (dst : Option LocalId)
    (v : Value) : Accounts p f chart depth past (own.deliver dst v) := by
  constructor
  · rw [function_deliver]
    exact h.function
  · rw [block_deliver, next_deliver]
    exact h.written

/-- Past an instruction the call has written the slot of the instruction too. -/
theorem Accounts.advance (h : Accounts p f chart depth past own) (hi : fetch p own = .ok i)
    (hframes : m.stack.frames = own :: base) (hdepth : base.length = depth) :
    Accounts p f chart depth (m :: past) own.advance := by
  refine ⟨h.function, fun l hl => ?_⟩
  rcases hl.of_succ (instrAt?_of_fetch h.function hi) with hold | hnew
  · exact (h.written l hold).imp_right fun hwrote => hwrote.mono (List.subset_cons_self _ _)
  · refine .inr ⟨m, List.mem_cons_self, ?_, i, ⟨own, base, hframes, hi⟩, hnew⟩
    rw [m.stack.height_eq, hframes, List.length_cons, hdepth]

/-- What is assigned at the end of a block is so at each of its targets. -/
theorem Accounts.goto (h : Accounts p f chart depth past own) (hchart : f.Charted chart)
    (hi : fetch p own = .ok i) {t : BlockId} (ht : t ∈ i.targets) :
    Accounts p f chart depth past (own.goto t) :=
  ⟨h.function, fun l hl => h.written l (hchart.assigned_of_target (instrAt?_of_fetch h.function hi) ht hl)⟩

/-- **At the start of a call its parameters are accounted for.** -/
theorem accounts_start (hf : p.function? ref = some f) (hchart : f.Charted chart) :
    Accounts p f chart depth past (.start ref f args resume) :=
  ⟨hf, fun _ hl => .inl (hchart.isParam hl)⟩

/-! ## The course of a call -/

/-- The frame of a call, on those it began on and below those of the calls it has
made. -/
def Holds (p : Program) (f : Function) (chart : Chart) (base : List Frame) (past : List Memory)
    (frames : List Frame) : Prop :=
  ∃ above own, frames = above ++ own :: base ∧ Accounts p f chart base.length past own

/-- **A step keeps the account of a call** that is not over with it. -/
theorem Holds.step (h : Holds s.program f chart base past m.stack.frames) (hchart : f.Charted chart)
    (hstep : (Machine.step s).apply m = (.ok none, m')) (hheight : base.length < m'.stack.height) :
    Holds s.program f chart base (m :: past) m'.stack.frames := by
  obtain ⟨above, own, hframes, haccounts⟩ := h
  have hlater := haccounts.mono (List.subset_cons_self m past)
  obtain ⟨above', own', hframes', haffects⟩ := affects_of_step hframes hstep hheight
  refine ⟨above', own', hframes', ?_⟩
  cases haffects with
  | write v hi => exact (haccounts.advance hi hframes rfl).deliver _ v
  | goto hi ht => exact hlater.goto hchart hi ht
  | call hi => exact haccounts.advance hi hframes rfl
  | wait => exact hlater
  | receive dst v => exact hlater.deliver dst v

/-- The call in progress is one of a function. -/
theorem Course.exists_function (h : Course s ref args resume m past) :
    ∃ f, s.program.function? ref = some f := by
  induction h with
  | start henter =>
    obtain ⟨-, f, hf, -⟩ := enter_eq_start henter
    exact ⟨f, hf⟩
  | more _ _ _ ih => exact ih

/-- All along its course a call has what it reads accounted for. -/
theorem Course.holds (h : Course s ref args resume m (m' :: past))
    (hf : s.program.function? ref = some f) (hchart : f.Charted chart) :
    Holds s.program f chart m.stack.frames past m'.stack.frames := by
  generalize htrace : m' :: past = trace at h
  induction h generalizing m' past with
  | start henter =>
    cases htrace
    obtain ⟨-, f', hf', -, rfl⟩ := enter_eq_start henter
    obtain rfl : f' = f := Option.some.inj (hf'.symm.trans hf)
    exact ⟨[], _, rfl, accounts_start hf hchart⟩
  | more _ hstep hheight ih =>
    cases htrace
    rw [m.stack.height_eq] at hheight
    exact (ih rfl).step hchart hstep hheight

/-- **A call reads only parameters and slots that it has written.** -/
theorem Course.reads_written (h : Course s ref args resume m (m' :: past))
    (hcharts : s.program.Charted) (hown : m'.stack.height = m.stack.height + 1)
    (hi : Upcoming s.program m' i) {op : Operand} (hop : op ∈ i.operands) (hl : l ∈ op.local?) :
    s.program.IsParam ref l ∨ Wrote s.program m.stack.height past l := by
  obtain ⟨f, hf⟩ := h.exists_function
  obtain ⟨chart, hchart⟩ := hcharts ref f hf
  obtain ⟨above, own, hframes, haccounts⟩ := h.holds hf hchart
  obtain ⟨fr, rest, htop, hfetch⟩ := hi
  -- no other frame is on that of the call
  have habove : above = [] := by
    rw [m'.stack.height_eq, m.stack.height_eq, hframes, List.length_append, List.length_cons]
      at hown
    exact List.length_eq_zero_iff.mp (by omega)
  subst habove
  cases htop.symm.trans hframes
  rw [m.stack.height_eq]
  refine (haccounts.written l ?_).imp_left fun hparam => ⟨f, hf, hparam⟩
  exact hchart.reads _ _ i (instrAt?_of_fetch haccounts.function hfetch) op hop l hl

/-- **Every frame of a course is that of a call with a course of its own**, up to
the same moment. -/
theorem Course.exists_course (h : Course s ref args resume m (m' :: past)) {k : Nat}
    (hlow : m.stack.height < k) (hhigh : k ≤ m'.stack.height) :
    ∃ ref args resume base recent, Course s ref args resume base (m' :: recent) ∧
      base.stack.height + 1 = k ∧ recent <+: past := by
  generalize htrace : m' :: past = trace at h
  induction h generalizing m' past with
  | start henter =>
    cases htrace
    obtain ⟨-, fr, -, rfl⟩ := enter_eq_ok henter
    refine ⟨ref, args, resume, m, [], .start henter, ?_, List.prefix_refl _⟩
    exact Nat.le_antisymm hlow hhigh
  | @more m₁ m₂ past₁ hcourse hstep hheight ih =>
    cases htrace
    rcases Nat.lt_or_ge m₁.stack.height k with hlt | hge
    · -- the step has begun the call
      obtain ⟨hover, -⟩ := hcourse.over m₁ List.mem_cons_self
      obtain ⟨fr, rest, hframes⟩ := hover.exists_cons
      obtain ⟨caller, ref', args', dst, hcaller, henter⟩ :=
        enter_of_grows hstep hframes (Nat.lt_of_lt_of_le hlt hhigh)
      have hdepth : caller.stack.height = m₁.stack.height := by
        rw [Stack.height_eq, hcaller, frames_modifyTop, List.length_modifyHead, Stack.height_eq]
      refine ⟨ref', args', .caller dst, caller, [], .start henter, ?_, List.nil_prefix⟩
      obtain ⟨-, fr', -, rfl⟩ := enter_eq_ok henter
      have hpushed : k ≤ caller.stack.height + 1 := hhigh
      omega
    · obtain ⟨ref', args', resume', base, recent, hcourse', hbase, hrecent⟩ := ih hge rfl
      refine ⟨ref', args', resume', base, m₁ :: recent, .more hcourse' hstep (by omega), hbase, ?_⟩
      exact List.cons_prefix_cons.mpr ⟨rfl, hrecent⟩

end Machine

end BlockIR
