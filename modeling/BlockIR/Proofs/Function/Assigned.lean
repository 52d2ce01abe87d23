import BlockIR.Proofs.Function.Edit
/-!
# Definite assignment

A `Chart` says of every block which local slots are assigned when control enters
it. Code is `Charted` when it reads only slots that the chart, the parameters or
an earlier instruction of the block account for, and when control enters a block
only with the slots that the chart promises there. Code that grows stays charted
as long as each new instruction reads what is assigned where it is put; a new
block, which nothing leads to yet, may be promised anything.
-/

namespace BlockIR

/-- Which local slots are assigned when control enters a block. -/
abbrev Chart := BlockId → LocalId → Prop

/-- The chart with the same slots at every block from a number on. -/
def Chart.above (chart : Chart) (n : BlockId) (slots : LocalId → Prop) : Chart :=
  fun b => if b < n then chart b else slots

theorem Chart.above_of_lt {chart : Chart} {n b : BlockId} {slots : LocalId → Prop} (h : b < n) :
    chart.above n slots b = chart b :=
  if_pos h

theorem Chart.above_of_le {chart : Chart} {n b : BlockId} {slots : LocalId → Prop} (h : n ≤ b) :
    chart.above n slots b = slots :=
  if_neg (Nat.not_lt.mpr h)

theorem Chart.of_above (chart : Chart) {n b : BlockId} {slots : LocalId → Prop} {l : LocalId}
    (h : n ≤ b) (hl : slots l) : chart.above n slots b l := by
  rw [above_of_le h]
  exact hl

namespace Function

variable {f g : Function} {chart chart' : Chart} {b : BlockId} {k : Nat} {l : LocalId}
variable {i : Instruction} {location : Location}

/-- **A slot is assigned before an index of a block**: it is a parameter, the
chart has it, or an earlier instruction of the block writes it. -/
def Assigned (f : Function) (chart : Chart) (b : BlockId) (k : Nat) (l : LocalId) : Prop :=
  l < f.arity ∨ chart b l ∨ ∃ j < k, ∃ i, f.instrAt? b j = some i ∧ l ∈ i.def?

/-- **Code that reads only what is assigned**, and enters a block only with the
slots that the chart has there. -/
structure Charted (f : Function) (chart : Chart) : Prop where
  entry : ∀ l, chart f.entry l → l < f.arity
  reads : ∀ b k i, f.instrAt? b k = some i → ∀ op ∈ i.operands, ∀ l ∈ op.local?,
    f.Assigned chart b k l
  leads : ∀ b k i, f.instrAt? b k = some i → ∀ t ∈ i.targets, ∀ l, chart t l →
    f.Assigned chart b k l

/-- What is assigned stays so, further on and in more code. -/
theorem Assigned.mono {k' : Nat} (h : f.Assigned chart b k l) (hparams : g.params = f.params)
    (hcode : g.Holds f) (hk : k ≤ k') : g.Assigned chart b k' l := by
  rcases h with hparam | hentry | ⟨j, hj, i, hi, hl⟩
  · left
    rw [arity, hparams]
    exact hparam
  · exact .inr (.inl hentry)
  · exact .inr (.inr ⟨j, Nat.lt_of_lt_of_le hj hk, i, hcode b j i hi, hl⟩)

/-- Only the chart's entry for the block is of matter. -/
theorem Assigned.rechart (h : f.Assigned chart b k l) (hchart : chart' b = chart b) :
    f.Assigned chart' b k l := by
  rw [Assigned, hchart]
  exact h

/-- Past an instruction, its slot is assigned and nothing else that was not. -/
theorem Assigned.of_succ (h : f.Assigned chart b (k + 1) l) (hi : f.instrAt? b k = some i) :
    f.Assigned chart b k l ∨ l ∈ i.def? := by
  rcases h with hparam | hentry | ⟨j, hj, i', hi', hl⟩
  · exact .inl (.inl hparam)
  · exact .inl (.inr (.inl hentry))
  · rcases Nat.lt_or_eq_of_le (Nat.le_of_lt_succ hj) with hlt | rfl
    · exact .inl (.inr (.inr ⟨j, hlt, i', hi', hl⟩))
    · cases hi'.symm.trans hi
      exact .inr hl

/-- At the start of a block only the chart and the parameters count. -/
theorem Assigned.of_zero (h : f.Assigned chart b 0 l) : l < f.arity ∨ chart b l := by
  rcases h with hparam | hentry | ⟨j, hj, -⟩
  · exact .inl hparam
  · exact .inr hentry
  · exact absurd hj (Nat.not_lt_zero j)

/-- A call begins with its parameters assigned. -/
theorem Charted.isParam (h : f.Charted chart) (hl : f.Assigned chart f.entry 0 l) :
    l < f.arity :=
  hl.of_zero.elim id (h.entry l)

/-- A block is entered with no more than is assigned where control comes from. -/
theorem Charted.assigned_of_target (h : f.Charted chart) (hi : f.instrAt? b k = some i)
    {t : BlockId} (ht : t ∈ i.targets) (hl : f.Assigned chart t 0 l) : f.Assigned chart b k l :=
  hl.of_zero.elim .inl (h.leads b k i hi t ht l)

theorem Charted.congr (h : f.Charted chart) (hparams : g.params = f.params)
    (hcode : ∀ b, g.AgreeAt f b) : g.Charted chart := by
  have harity : g.arity = f.arity := congrArg List.length hparams
  have hassigned : ∀ {b k l}, f.Assigned chart b k l → g.Assigned chart b k l := fun hl =>
    hl.mono hparams (holds_of_agreeAt hcode) (Nat.le_refl _)
  refine ⟨fun l hl => ?_, fun b k i hi op hop l hl => ?_, fun b k i hi t ht l hl => ?_⟩
  · rw [harity]
    exact h.entry l hl
  · rw [(hcode b).instrAt?] at hi
    exact hassigned (h.reads b k i hi op hop l hl)
  · rw [(hcode b).instrAt?] at hi
    exact hassigned (h.leads b k i hi t ht l hl)

/-- The targets of drafted code are blocks of it. -/
theorem Drafted.target_lt (hf : f.Drafted) (hi : f.instrAt? b k = some i) {t : BlockId}
    (ht : t ∈ i.targets) : t < f.blocks.size := by
  have hterm : i.isTerminator = true := by
    cases hlast : i.isTerminator with
    | true => rfl
    | false =>
      rw [Instruction.targets_eq_nil hlast] at ht
      cases ht
  have hlast : f.length b - 1 = k := by
    have := hf.early b k i hi hterm
    omega
  have hend : f.terminator? b = some i := terminator?_eq_some.mpr ⟨hlast.symm ▸ hi, hterm⟩
  have htaken : t ∈ f.targetsOf b := by
    rw [targetsOf, hend]
    exact ht
  exact lt_size_of_mem_predsOf ((hf.paired b t).mpr ((hf.taken b t).mpr htaken))

/-- A chart may change where there is no block. -/
theorem Charted.rechart (h : f.Charted chart) (hf : f.Drafted) (hpos : 0 < f.blocks.size)
    (hchart : ∀ b, b < f.blocks.size → chart' b = chart b) : f.Charted chart' := by
  refine ⟨fun l hl => ?_, fun b k i hi op hop l hl => ?_, fun b k i hi t ht l hl => ?_⟩
  · rw [hchart f.entry hpos] at hl
    exact h.entry l hl
  · exact (h.reads b k i hi op hop l hl).rechart (hchart b (lt_size_of_instrAt? hi))
  · rw [hchart t (hf.target_lt hi ht)] at hl
    exact (h.leads b k i hi t ht l hl).rechart (hchart b (lt_size_of_instrAt? hi))

/-- **An instruction may be appended where all that it reads is assigned**, and
all that its targets are entered with. -/
theorem charted_push (h : f.Charted chart) (hf : f.Drafted) (hb : b < f.blocks.size)
    (hreads : ∀ op ∈ i.operands, ∀ l ∈ op.local?, f.Assigned chart b (f.length b) l)
    (hleads : ∀ t ∈ i.targets, ∀ l, chart t l → f.Assigned chart b (f.length b) l) :
    (f.push b i location).Charted chart := by
  have hassigned : ∀ {b' k l}, f.Assigned chart b' k l →
      (f.push b i location).Assigned chart b' k l := fun hl =>
    hl.mono rfl (holds_push hf hb) (Nat.le_refl _)
  refine ⟨h.entry, fun c k j hj op hop l hl => hassigned ?_, fun c k j hj t ht l hl =>
    hassigned ?_⟩
  · rcases instrAt?_push_cases hf hb hj with hold | ⟨rfl, rfl, rfl⟩
    · exact h.reads c k j hold op hop l hl
    · exact hreads op hop l hl
  · rcases instrAt?_push_cases hf hb hj with hold | ⟨rfl, rfl, rfl⟩
    · exact h.leads c k j hold t ht l hl
    · exact hleads t ht l hl

theorem charted_close (h : f.Charted chart) (hf : f.Drafted) (hopen : f.IsOpen b)
    (htargets : ∀ t ∈ i.targets, t < f.blocks.size)
    (hreads : ∀ op ∈ i.operands, ∀ l ∈ op.local?, f.Assigned chart b (f.length b) l)
    (hleads : ∀ t ∈ i.targets, ∀ l, chart t l → f.Assigned chart b (f.length b) l) :
    (f.close b i location).Charted chart :=
  (charted_push h hf hopen.lt_size hreads hleads).congr (joined_close hf hopen htargets).params
    (joined_close hf hopen htargets).agreeAt

/-- A function without code is charted. -/
theorem charted_empty (name : String) (params : List String) :
    (Function.empty name params).Charted fun _ _ => False := by
  refine ⟨nofun, fun b k i hi => ?_, fun b k i hi => ?_⟩ <;>
  · obtain ⟨block, id, slot, -, -, hslot, -⟩ := instrAt?_eq_some.mp hi
    cases hslot

end Function

end BlockIR
