import BlockIR.Proofs.Machine.Filled
import BlockIR.Proofs.Source.Assigned
import BlockIR.Proofs.Source.Safety
/-!
# Lowered programs read only what they have written

New blocks are entered with the slots of the names in scope: a branch, a loop and
the meeting of two arms all keep the scopes of the statement they belong to. So
the code of every function of a lowered program has a chart, and with it every
call reads only parameters and slots that it has written. What other slots begin
with is of no matter to an evaluation.
-/

namespace BlockIR

open Success

namespace Source

namespace Lower

open Draft

variable {symbols : Symbols} {env : Environment} {function : String} {names : List String}
variable {chart : Chart} {d d' : Draft} {i : Instruction}

/-! ## Statements -/

theorem exprOrNull_ensures (hsymbols : symbols.Matches env) (e : Option Expr)
    (hd : d.Working symbols function names) (h : d.Charted chart) :
    Ensures (exprOrNull symbols e) d (Computes symbols chart d) := by
  cases e with
  | none => exact .pure ⟨⟨.refl hd.sound hd.isOpen, by rintro _ ⟨⟩⟩, h, by rintro _ ⟨⟩⟩
  | some e => exact expr_ensures hsymbols e hd h

/-- A chart for the names in scope at every new block. -/
theorem charted_above (hd : d.Sound symbols) (h : d.Charted chart) :
    d.Charted (chart.above d.cursor.function.blocks.size d.Named) :=
  h.rechart hd fun _ hb => Chart.above_of_lt hb

/-- A statement begins in an open block; a new one is entered with the names in
scope, as nothing leads there. -/
theorem reopen_ensures (env : Environment) {x : Lower Unit} (hd : d.Sound symbols)
    (h : d.Charted chart)
    (hx : ∀ d₁ chart₁, d₁.Working symbols d.cursor.function.name (namesOf d.scopes) →
      d₁.Charted chart₁ → Ensures x d₁ fun _ d' => Charts chart₁ d₁ d') :
    Ensures (reopen >>= fun _ => x) d fun _ d' => Charts chart d d' := by
  have hreopen : Yields env d.cursor.function.name reopen d _ _ := reopen_yields ⟨hd, rfl, rfl⟩
  refine .bind (.of_yields hreopen fun _ d₁ _ h₁ => h₁) ?_
  rintro _ d₁ ⟨hp₁, -, hw₁, hsame, hnew⟩
  by_cases hopen : d.IsOpen
  · obtain rfl := hsame hopen
    exact hx _ chart hw₁ h
  · -- nothing leads to the new block, so it may be charted at will
    obtain ⟨name, rfl⟩ := hnew hopen
    have habove := charted_above hd h
    have hwide : (d.on (d.cursor.extend name)).Charted
        (chart.above d.cursor.function.blocks.size d.Named) :=
      habove.of_extends (habove.code.congr rfl (Function.agreeAt_extend _ _)) rfl rfl
        (Cursor.extends_extend _ _)
    have hmoved := hwide.moveTo fun l hl => chart.of_above (Nat.le_refl _) hl
    exact (hx _ _ hw₁ hmoved).imp fun _ d' hcharts =>
      hcharts.trans (fun b hb => Chart.above_of_lt hb) hp₁.extend.size

/-- The arm of a branch, which meets the other where the names in scope are
assigned. -/
theorem Arm.charts {x : Lower Unit} {target : BlockId} {inner : Draft}
    (harm : Arm symbols x target d inner d')
    (hx : Ensures x (openScope d) fun _ d' => Charts chart (openScope d) d')
    (htarget : target < d.cursor.function.blocks.size) (hmeet : ∀ l, chart target l → d.Named l) :
    Charts chart d d' := by
  obtain ⟨chart₁, hagree, hc⟩ := hx () inner harm.run
  have hclosed : (closeScope inner).Charted chart₁ := by
    refine ⟨hc.code, fun l hl => hc.named l ?_⟩
    obtain ⟨entry, hentry, heq⟩ := hl
    obtain ⟨scope, hscope, hentry⟩ := List.mem_flatten.mp hentry
    exact ⟨entry, List.mem_flatten.mpr ⟨scope, List.mem_of_mem_tail hscope, hentry⟩, heq⟩
  refine ⟨chart₁, hagree, ?_⟩
  by_cases hopen : (closeScope inner).IsOpen
  · -- the names that the arm declared itself are out of scope by now
    rw [harm.ends.1 hopen]
    have hlt := Nat.lt_of_lt_of_le htarget harm.progress.extend.size
    refine charted_close (hclosed.locate _) (harm.progress.sound.locate _) hopen
      (List.forall_mem_singleton.mpr hlt) nofun (List.forall_mem_singleton.mpr fun l hl => ?_)
    rw [hagree target htarget] at hl
    refine hclosed.named l ?_
    rw [named_eq harm.scopes]
    exact hmeet l hl
  · rw [harm.ends.2 hopen]
    exact hclosed

/-- What a body keeps of the chart, for any draft it may begin with. -/
def BodyCharts (symbols : Symbols) (x : Lower Unit) : Prop :=
  ∀ d chart, d.Sound symbols → d.Charted chart → Ensures x d fun _ d' => Charts chart d d'

theorem charted_openScope (h : d.Charted chart) : (openScope d).Charted chart :=
  ⟨h.code, h.named⟩

/-- **Three new blocks, and a way to some of them.** All three are entered with the
names in scope. -/
theorem charted_fork {wide : Draft} (hf : Forked symbols d wide) (hd : d.Sound symbols)
    (h : d.Charted chart) (hops : ∀ o ∈ i.operands, d.Gives chart o)
    (htargets : ∀ t ∈ i.targets, d.cursor.function.blocks.size ≤ t ∧
      t < d.cursor.function.blocks.size + 3) :
    (wide.on (wide.cursor.close i)).Charted
      (chart.above d.cursor.function.blocks.size d.Named) := by
  have habove := charted_above hd h
  have hwide : wide.Charted (chart.above d.cursor.function.blocks.size d.Named) :=
    habove.of_extends (habove.code.congr hf.extend.params hf.agree) hf.scopes hf.spot hf.extend
  refine charted_close hwide hf.sound hf.isOpen (fun t ht => ?_) (fun o ho l hl => ?_)
    fun t ht l hl => ?_
  · rw [hf.size]
    exact (htargets t ht).2
  · have hold : d.Assigns (chart.above d.cursor.function.blocks.size d.Named) l :=
      Function.Assigned.rechart (hops o ho l hl) (Chart.above_of_lt hd.spot)
    exact hold.of_extends hf.spot hf.extend
  · rw [Chart.above_of_le (htargets t ht).1, ← named_eq hf.scopes] at hl
    exact hwide.named l hl

theorem size_fork {wide : Draft} (hf : Forked symbols d wide)
    (htargets : ∀ t ∈ i.targets, t < d.cursor.function.blocks.size + 3) :
    (wide.on (wide.cursor.close i)).cursor.function.blocks.size =
      d.cursor.function.blocks.size + 3 :=
  (Function.size_close hf.sound.drafted hf.isOpen (hf.size.symm ▸ htargets)).trans hf.size

/-- **A branch keeps the chart.** Its arms begin, and meet, with the names in scope
before it. -/
theorem Branched.charts {c : Operand} {thenPart elsePart : Lower Unit} {n : BlockId}
    {forked inner₁ after₁ inner₂ after₂ : Draft}
    (hb : Branched symbols c thenPart elsePart n d forked inner₁ after₁ inner₂ after₂)
    (hd : d.Sound symbols) (h : d.Charted chart) (hc : d.Gives chart c)
    (hthen : BodyCharts symbols thenPart) (helse : BodyCharts symbols elsePart) :
    Charts chart d (after₂.on (after₂.cursor.moveTo (n + 2))) := by
  have hnew : ∀ b, n ≤ b → chart.above n d.Named b = d.Named := fun b => Chart.above_of_le
  have htargets : ∀ t ∈ (Instruction.branch c n (n + 1)).targets, n ≤ t ∧ t < n + 3 := by
    intro t ht
    rcases Instruction.mem_targets_branch.mp ht with rfl | rfl
    · exact ⟨Nat.le_refl _, Nat.lt_add_of_pos_right (by decide)⟩
    · exact ⟨Nat.le_add_right _ _, Nat.add_lt_add_left (by decide) _⟩
  obtain ⟨wide, hf, hforked⟩ := hb.fork
  have hforked₀ : forked.Charted (chart.above n d.Named) := by
    rw [hforked]
    rw [hb.first] at htargets ⊢
    exact charted_fork hf hd h (List.forall_mem_singleton.mpr hc) htargets
  have hsize₀ : forked.cursor.function.blocks.size = n + 3 := by
    rw [hforked]
    rw [hb.first] at htargets ⊢
    exact size_fork hf fun t ht => (htargets t ht).2
  -- the first arm begins in the first of the new blocks
  have hthen₀ : (forked.on (forked.cursor.moveTo n)).Charted (chart.above n d.Named) := by
    refine hforked₀.moveTo fun l hl => ?_
    rw [hnew n (Nat.le_refl n), ← named_eq hb.scopes]
    exact hl
  have hjoin₀ : n + 2 < (forked.on (forked.cursor.moveTo n)).cursor.function.blocks.size :=
    hsize₀ ▸ Nat.lt_succ_self (n + 2)
  obtain ⟨chart₁, hagree₁, hc₁⟩ := Arm.charts hb.thenArm
    (hthen _ _ (openScope_sound (hb.sound.moveTo hb.thenFresh.isOpen)) (charted_openScope hthen₀))
    hjoin₀ fun l hl => by
      rw [hnew (n + 2) (Nat.le_add_right n 2), ← named_eq hb.scopes] at hl
      exact hl
  have hkept₁ : ∀ b, n ≤ b → b < n + 3 → chart₁ b = d.Named := fun b hle hlt =>
    (hagree₁ b (hsize₀.symm ▸ hlt)).trans (hnew b hle)
  -- the second arm begins in the second one, whatever the first has added
  have hscopes₁ : after₁.scopes = d.scopes := hb.thenArm.sealed.scopes.trans hb.scopes
  have helse₁ : (after₁.on (after₁.cursor.moveTo (n + 1))).Charted chart₁ := by
    refine hc₁.moveTo fun l hl => ?_
    rw [hkept₁ (n + 1) (Nat.le_add_right n 1) (Nat.lt_succ_of_lt (Nat.lt_succ_self _)),
      ← named_eq hscopes₁]
    exact hl
  have hsize₁ : n + 3 ≤ after₁.cursor.function.blocks.size :=
    hsize₀ ▸ hb.thenArm.sealed.extend.size
  have hsound₁ := hb.thenArm.sealed.sound.moveTo hb.elseFresh.isOpen
  obtain ⟨chart₂, hagree₂, hc₂⟩ := Arm.charts hb.elseArm
    (helse _ _ (openScope_sound hsound₁) (charted_openScope helse₁))
    (Nat.lt_of_lt_of_le (Nat.lt_succ_self (n + 2)) hsize₁) fun l hl => by
      rw [hkept₁ (n + 2) (Nat.le_add_right n 2) (Nat.lt_succ_self _), ← named_eq hscopes₁] at hl
      exact hl
  have hkept₂ : ∀ b, b < n + 3 → chart₂ b = chart₁ b := fun b hlt =>
    hagree₂ b (Nat.lt_of_lt_of_le hlt hsize₁)
  -- the arms meet in the third one
  have hscopes₂ : after₂.scopes = d.scopes := hb.elseArm.sealed.scopes.trans hscopes₁
  refine ⟨chart₂, fun b hlt => ?_, hc₂.moveTo fun l hl => ?_⟩
  · rw [← hb.first] at hlt
    have hlt₃ : b < n + 3 := Nat.lt_of_lt_of_le hlt (Nat.le_add_right n 3)
    rw [hkept₂ b hlt₃, hagree₁ b (hsize₀.symm ▸ hlt₃), Chart.above_of_lt hlt]
  · rw [hkept₂ (n + 2) (Nat.lt_succ_self _),
      hkept₁ (n + 2) (Nat.le_add_right n 2) (Nat.lt_succ_self _), ← named_eq hscopes₂]
    exact hl

/-- **A loop keeps the chart.** Its test is entered with the names in scope before
it, from before the loop as from its body. -/
theorem Looped.charts {condition : Lower Operand} {bodyPart : Lower Unit} {n : BlockId}
    {forked tested branched inner after : Draft} {c : Operand}
    (hl : Looped symbols condition bodyPart n d forked tested branched inner after c)
    (hd : d.Sound symbols) (h : d.Charted chart)
    (hcond : ∀ d chart, d.Sound symbols → d.IsOpen → d.Charted chart →
      Ensures condition d fun o d' => d'.Charted chart ∧ d'.Gives chart o)
    (hbody : BodyCharts symbols bodyPart) :
    Charts chart d (after.on (after.cursor.moveTo (n + 2))) := by
  have hnew : ∀ b, n ≤ b → chart.above n d.Named b = d.Named := fun b => Chart.above_of_le
  have htest : n < n + 3 := Nat.lt_add_of_pos_right (by decide)
  obtain ⟨wide, hf, hforked⟩ := hl.fork
  have hforked₀ : forked.Charted (chart.above n d.Named) := by
    rw [hforked, hl.first]
    exact charted_fork hf hd h nofun (List.forall_mem_singleton.mpr
      ⟨Nat.le_refl _, Nat.lt_add_of_pos_right (by decide)⟩)
  have hsize₀ : forked.cursor.function.blocks.size = n + 3 := by
    rw [hforked, hl.first]
    exact size_fork hf (List.forall_mem_singleton.mpr (Nat.lt_add_of_pos_right (by decide)))
  -- the condition is evaluated in the first of the new blocks
  have htest₀ : (forked.on (forked.cursor.moveTo n)).Charted (chart.above n d.Named) := by
    refine hforked₀.moveTo fun l hl' => ?_
    rw [hnew n (Nat.le_refl n), ← named_eq hl.scopes]
    exact hl'
  obtain ⟨hc₁, hc⟩ := hcond _ _ (hl.sound.moveTo hl.testFresh.isOpen) hl.testFresh.isOpen htest₀
    c tested hl.run
  -- an expression adds no block, so the chart still has the three
  have hsize₁ : tested.cursor.function.blocks.size = n + 3 := hl.test.emitted.size.trans hsize₀
  have hscopes₁ : tested.scopes = d.scopes := hl.test.emitted.scopes.trans hl.scopes
  have htargets : ∀ t ∈ (Instruction.branch c (n + 1) (n + 2)).targets, n ≤ t ∧ t < n + 3 := by
    intro t ht
    rcases Instruction.mem_targets_branch.mp ht with rfl | rfl
    · exact ⟨Nat.le_add_right _ _, Nat.add_lt_add_left (by decide) _⟩
    · exact ⟨Nat.le_add_right _ _, Nat.add_lt_add_left (by decide) _⟩
  have hc₂ : branched.Charted (chart.above n d.Named) := by
    rw [hl.choice]
    refine charted_close hc₁ hl.test.emitted.sound hl.test.emitted.isOpen (fun t ht => ?_)
      (List.forall_mem_singleton.mpr hc) fun t ht l hl' => hc₁.named l ?_
    · rw [hsize₁]
      exact (htargets t ht).2
    · rw [hnew t (htargets t ht).1, ← named_eq hscopes₁] at hl'
      exact hl'
  have hsize₂ : n + 3 ≤ branched.cursor.function.blocks.size := hsize₁ ▸ hl.close.extend.size
  have hscopes₂ : branched.scopes = d.scopes := hl.close.scopes.trans hscopes₁
  -- the body goes back to the test
  have hbody₂ : (branched.on (branched.cursor.moveTo (n + 1))).Charted
      (chart.above n d.Named) := by
    refine hc₂.moveTo fun l hl' => ?_
    rw [hnew (n + 1) (Nat.le_add_right n 1), ← named_eq hscopes₂]
    exact hl'
  have hsound₂ := hl.close.sound.moveTo hl.bodyFresh.isOpen
  obtain ⟨chart₃, hagree₃, hc₃⟩ := Arm.charts hl.arm
    (hbody _ _ (openScope_sound hsound₂) (charted_openScope hbody₂))
    (Nat.lt_of_lt_of_le htest hsize₂) fun l hl' => by
      rw [hnew n (Nat.le_refl n), ← named_eq hscopes₂] at hl'
      exact hl'
  have hkept : ∀ b, b < n + 3 → chart₃ b = chart.above n d.Named b := fun b hlt =>
    hagree₃ b (Nat.lt_of_lt_of_le hlt hsize₂)
  have hscopes₃ : after.scopes = d.scopes := hl.arm.sealed.scopes.trans hscopes₂
  refine ⟨chart₃, fun b hlt => ?_, hc₃.moveTo fun l hl' => ?_⟩
  · rw [← hl.first] at hlt
    rw [hkept b (Nat.lt_of_lt_of_le hlt (Nat.le_add_right n 3)), Chart.above_of_lt hlt]
  · rw [hkept (n + 2) (Nat.lt_succ_self _), hnew (n + 2) (Nat.le_add_right n 2),
      ← named_eq hscopes₃]
    exact hl'

theorem assign_ensures (hsymbols : symbols.Matches env) {o : Operand}
    (hd : d.Working symbols function names) (h : d.Charted chart) (ho : d.Gives chart o)
    (v : Variable) : Ensures (assign symbols o v) d fun _ d' => d'.Charted chart := by
  cases v with
  | named name =>
    rw [assign]
    have hlookup : Yields env function (lookup name) d _ _ :=
      lookup_yields hd.sound hd.function name
    refine .bind (.of_yields hlookup fun l d' _ hl => hl) ?_
    rintro l _ ⟨rfl, -⟩
    exact .of_ok (emit_append_eq_ok hd.isOpen _)
      (charted_append h hd.sound hd.isOpen rfl (List.forall_mem_singleton.mpr ho))
  | global module name =>
    rw [assign]
    have hglobal : Yields env function (symbols.global module name : Lower GlobalId) d _ _ :=
      global_yields hsymbols module name
    refine .bind (.of_yields hglobal fun g d' _ hg => hg) ?_
    rintro g _ ⟨rfl, -⟩
    exact .of_ok (emit_append_eq_ok hd.isOpen _)
      (charted_append h hd.sound hd.isOpen rfl (List.forall_mem_singleton.mpr ho))

/-- A name is declared with a copy to its slot. -/
theorem declare_ensures {o : Operand} (hd : d.Sound symbols) (hopen : d.IsOpen)
    (h : d.Charted chart) (ho : d.Gives chart o) (name : String) :
    Ensures (do
      let l ← onCursor Emit.freshLocal
      emit (Emit.copy l o)
      bind name l) d fun _ d' => d'.Charted chart := by
  have hwide := emitted_widen hd hopen
  have hcopy : (d.on (d.cursor.assign fun l => .copy l o)).Charted chart ∧ _ :=
    charted_assign h hd hopen rfl (List.forall_mem_singleton.mpr ho) rfl
  obtain ⟨hc, hslot⟩ := hcopy
  refine .step (onCursor_eq_ok Emit.freshLocal d) (.step (emit_append_eq_ok hwide.isOpen _) ?_)
  cases hscopes : d.scopes with
  | nil => exact absurd hscopes hd.nonempty
  | cons top outer =>
    refine .of_ok (bind_eq_ok name _ hscopes) ⟨hc.code, ?_⟩
    rintro l ⟨entry, hentry, rfl⟩
    rcases List.mem_cons.mp hentry with rfl | hentry
    · exact hslot _ rfl
    · refine hc.named _ ⟨entry, ?_, rfl⟩
      rw [scopes_on, hscopes]
      exact hentry

mutual

/-- **The code of a statement reads only what is assigned.** -/
theorem stmt_ensures (hsymbols : symbols.Matches env) : ∀ (s : Stmt),
    BodyCharts symbols (stmt symbols s)
  | .declare name init, d, chart, hd, h => by
    rw [stmt]
    refine reopen_ensures env hd h fun d₁ chart₁ hw₁ h₁ => ?_
    refine .bind (exprOrNull_ensures hsymbols init hw₁ h₁) ?_
    rintro v d₂ ⟨h₂, hc₂, hv⟩
    exact (declare_ensures h₂.emitted.sound h₂.emitted.isOpen hc₂ hv name).imp
      fun _ _ hc => hc.charts
  | .assign v value, d, chart, hd, h => by
    rw [stmt]
    refine reopen_ensures env hd h fun d₁ chart₁ hw₁ h₁ => ?_
    refine .bind (expr_ensures hsymbols value hw₁ h₁) ?_
    rintro o d₂ ⟨h₂, hc₂, ho⟩
    exact (assign_ensures hsymbols (hw₁.emitted h₂.emitted) hc₂ ho v).imp fun _ _ hc => hc.charts
  | .assignIndex array index value, d, chart, hd, h => by
    rw [stmt]
    refine reopen_ensures env hd h fun d₁ chart₁ hw₁ h₁ => ?_
    refine .bind (expr_ensures hsymbols array hw₁ h₁) ?_
    rintro a d₂ ⟨h₂, hc₂, ha⟩
    have hw₂ := hw₁.emitted h₂.emitted
    refine .bind (expr_ensures hsymbols index hw₂ hc₂) ?_
    rintro n d₃ ⟨h₃, hc₃, hn⟩
    have hw₃ := hw₂.emitted h₃.emitted
    refine .bind (expr_ensures hsymbols value hw₃ hc₃) ?_
    rintro v d₄ ⟨h₄, hc₄, hv⟩
    have hw₄ := hw₃.emitted h₄.emitted
    have ha₄ := (ha.of_emitted h₃.emitted).of_emitted h₄.emitted
    have hstore : (d₄.on (d₄.cursor.append (.storeArray a n v))).Charted chart₁ :=
      charted_append hc₄ hw₄.sound hw₄.isOpen rfl (List.forall_mem_cons.mpr
        ⟨ha₄, List.forall_mem_cons.mpr
          ⟨hn.of_emitted h₄.emitted, List.forall_mem_singleton.mpr hv⟩⟩)
    exact .of_ok (emit_append_eq_ok hw₄.isOpen _) hstore.charts
  | .ite cond thenBody elseBody, d, chart, hd, h => by
    rw [stmt]
    refine reopen_ensures env hd h fun d₁ chart₁ hw₁ h₁ => ?_
    refine .bind (expr_ensures hsymbols cond hw₁ h₁) ?_
    rintro c d₂ ⟨h₂, hc₂, hc⟩
    have hw₂ := hw₁.emitted h₂.emitted
    refine .of_yields (ite_yields hw₂ h₂.operand (fun d' hd => body_yields hsymbols thenBody hd)
      fun d' hd => body_yields hsymbols elseBody hd) ?_
    rintro _ _ - ⟨-, -, n, forked, inner₁, after₁, inner₂, after₂, hb, rfl⟩
    have hcharts := hb.charts hw₂.sound hc₂ hc (body_ensures hsymbols thenBody)
      (body_ensures hsymbols elseBody)
    exact hcharts.trans (fun _ _ => rfl) h₂.emitted.extend.size
  | .loop cond loopBody, d, chart, hd, h => by
    rw [stmt]
    refine reopen_ensures env hd h fun d₁ chart₁ hw₁ h₁ => ?_
    refine .of_yields (loop_yields hw₁ (fun d' hd => expr_yields hsymbols cond hd)
      fun d' hd => body_yields hsymbols loopBody hd) ?_
    rintro _ _ - ⟨-, -, n, forked, tested, branched, inner, after, c, hl, rfl⟩
    refine hl.charts hw₁.sound h₁ (fun d₂ chart₂ hd₂ hopen₂ h₂ => ?_)
      (body_ensures hsymbols loopBody)
    exact (expr_ensures hsymbols cond ⟨⟨hd₂, rfl, rfl⟩, hopen₂⟩ h₂).imp fun _ _ hc => hc.2
  | .ret value, d, chart, hd, h => by
    rw [stmt]
    refine reopen_ensures env hd h fun d₁ chart₁ hw₁ h₁ => ?_
    refine .bind (exprOrNull_ensures hsymbols value hw₁ h₁) ?_
    rintro v d₂ ⟨h₂, hc₂, hv⟩
    have hret : (d₂.on (d₂.cursor.close (.ret v))).Charted chart₁ :=
      charted_close hc₂ h₂.emitted.sound h₂.emitted.isOpen nofun
        (List.forall_mem_singleton.mpr hv) nofun
    exact .of_ok (emit_eq_ok (Emit.apply_ret h₂.emitted.isOpen v)) hret.charts
  | .expr e, d, chart, hd, h => by
    rw [stmt]
    refine reopen_ensures env hd h fun d₁ chart₁ hw₁ h₁ => ?_
    refine .bind (expr_ensures hsymbols e hw₁ h₁) ?_
    rintro o d₂ ⟨-, hc₂, -⟩
    exact .pure hc₂.charts
  | .located location inner, d, chart, hd, h => by
    rw [stmt]
    refine reopen_ensures env hd h fun d₁ chart₁ hw₁ h₁ => ?_
    refine .step (onCursor_eq_ok (Emit.locate location) d₁) ?_
    refine .bind (stmt_ensures hsymbols inner _ _ (hw₁.sound.locate location)
      (h₁.locate location)) ?_
    rintro _ d₂ ⟨chart₂, hagree, hc₂⟩
    exact .step (onCursor_eq_ok (Emit.locate d₁.cursor.location) d₂)
      (.pure ⟨chart₂, hagree, hc₂.locate _⟩)

/-- **The code of statements reads only what is assigned.** -/
theorem body_ensures (hsymbols : symbols.Matches env) : ∀ (ss : List Stmt),
    BodyCharts symbols (body symbols ss)
  | [], d, chart, _, h => .pure h.charts
  | s :: rest, d, chart, hd, h => by
    rw [body]
    have hyields : Yields env d.cursor.function.name (stmt symbols s) d _ _ :=
      stmt_yields hsymbols s ⟨hd, rfl, rfl⟩
    refine .bind (.and_yields (stmt_ensures hsymbols s d chart hd h) hyields) ?_
    rintro _ d₁ ⟨h₁, chart₁, hagree, hc₁⟩
    exact (body_ensures hsymbols rest d₁ chart₁ h₁.progress.sound hc₁).imp fun _ d₂ hcharts =>
      hcharts.trans hagree h₁.progress.extend.size

end

/-! ## Functions -/

/-- A function begins with its parameters assigned. -/
theorem charted_start {name : String} {params : List String} {scope : Scope}
    (hslots : ∀ entry ∈ scope, entry.2 < params.length) :
    (start name params scope).Charted fun _ _ => False := by
  refine ⟨Function.charted_empty name params, ?_⟩
  rintro _ ⟨entry, hentry, rfl⟩
  left
  exact hslots entry (by simpa [start] using hentry)

/-- **The code of a function reads only what is assigned** if the code of its body
does: the return at its end reads nothing. -/
theorem intoFunction_charted {name : String} {params : List String} {scope : Scope}
    {x : Lower Unit} {refs : List Reference} {code : Function}
    (hcode : intoFunction name params scope x = .ok code)
    (hyields : Yields env name x (start name params scope) refs fun _ d =>
      Progress symbols (start name params scope) d)
    (hx : Ensures x (start name params scope) fun _ d =>
      Charts chart (start name params scope) d) : ∃ chart, code.Charted chart := by
  obtain ⟨d, d', hbody, hclose, rfl⟩ := intoFunction_eq_ok hcode
  have hd := (hyields.of_eq_ok hbody).2.sound
  obtain ⟨chart', -, hc⟩ := hx () d hbody
  have hclosing : Yields env name closeBody d _ _ := closeBody_yields hd
  obtain ⟨-, -, -, hends⟩ := hclosing.of_eq_ok hclose
  refine ⟨chart', ?_⟩
  by_cases hopen : d.IsOpen
  · rw [hends.1 hopen]
    have hret : (d.on ((d.cursor.locate .builtin).close (.ret .null))).Charted chart' :=
      charted_close (hc.locate .builtin) (hd.locate .builtin) hopen (by rintro _ ⟨⟩)
        (List.forall_mem_singleton.mpr (by rintro _ ⟨⟩)) (by rintro _ ⟨⟩)
    exact hret.code
  · rw [hends.2 hopen]
    exact hc.code

end Lower

section

variable {symbols : Symbols} {env : Environment} {chart : Chart}

theorem FunctionDef.lower_charted {f : FunctionDef} {code : Function}
    (hsymbols : symbols.Matches env) (hcode : f.lower symbols = .ok code) :
    ∃ chart, code.Charted chart := by
  have hstart : (Lower.start f.name f.params (Lower.paramScope f.params)).Sound symbols :=
    Lower.start_sound _ Lower.paramScope_slots (Lower.paramScope_distinct _)
  exact Lower.intoFunction_charted hcode (Lower.body_yields hsymbols f.body ⟨hstart, rfl, rfl⟩)
    (Lower.body_ensures hsymbols f.body _ _ hstart (Lower.charted_start Lower.paramScope_slots))

theorem GlobalDef.lowerInit_ensures {id function : String} {d : Draft}
    (hsymbols : symbols.Matches env) (g : GlobalDef) (hd : d.Working symbols function [])
    (h : d.Charted chart) :
    Ensures (GlobalDef.lowerInit symbols id g) d fun _ d' => d'.Charted chart := by
  unfold GlobalDef.lowerInit
  cases g.init with
  | none => exact .pure h
  | some init =>
    have hw : (d.on (d.cursor.locate g.location)).Working symbols function [] :=
      ⟨⟨hd.sound.locate _, hd.function, hd.names⟩, hd.isOpen⟩
    refine .step (Lower.onCursor_eq_ok (Emit.locate g.location) d) ?_
    refine .bind (Lower.expr_ensures hsymbols init hw (h.locate g.location)) ?_
    rintro v d₁ ⟨h₁, hc₁, hv⟩
    exact Lower.assign_ensures hsymbols (hw.emitted h₁.emitted) hc₁ hv (.global id g.name)

theorem lowerInits_ensures {id function : String} (hsymbols : symbols.Matches env) :
    ∀ (globals : List GlobalDef) {d : Draft}, (∀ g ∈ globals, env.global id g.name) →
    d.Working symbols function [] → d.Charted chart →
    Ensures (globals.forM (GlobalDef.lowerInit symbols id)) d fun _ d' => d'.Charted chart
  | [], d, _, _, h => .pure h
  | g :: rest, d, hown, hd, h => by
    change Ensures (GlobalDef.lowerInit symbols id g >>= fun _ =>
      rest.forM (GlobalDef.lowerInit symbols id)) d _
    refine .bind (.and_yields (GlobalDef.lowerInit_ensures hsymbols g hd h)
      (GlobalDef.lowerInit_yields hsymbols g (hown g List.mem_cons_self) hd)) ?_
    rintro _ d₁ ⟨⟨-, hd₁⟩, h₁⟩
    exact lowerInits_ensures hsymbols rest (fun g' hg' => hown g' (List.mem_cons_of_mem _ hg'))
      hd₁ h₁

theorem Module.lowerInit_charted {id : String} {m : Module} {code : Function}
    (hsymbols : symbols.Matches env) (hown : ∀ g ∈ m.globals, env.global id g.name)
    (hcode : m.lowerInit symbols id = .ok code) : ∃ chart, code.Charted chart := by
  have hstart : (Lower.start initName [] []).Working symbols initName [] :=
    ⟨⟨Lower.start_sound _ nofun List.nodup_nil, rfl, rfl⟩, Function.isOpen_empty _ _⟩
  have hcharts := lowerInits_ensures hsymbols m.globals hown hstart (Lower.charted_start nofun)
  exact Lower.intoFunction_charted hcode (lowerInits_yields hsymbols m.globals hown hstart)
    (hcharts.imp fun _ _ hc => hc.charts)

/-- **Every function of a lowered program reads only what is assigned.** -/
theorem Program.Lowering.charted {p : Program} {entry : String} {modules : List (String × Module)}
    {d : Declared} {lowered : BlockIR.Program} (h : p.Lowering entry modules d lowered)
    {ref : FunctionRef} {code : Function} (hcode : lowered.function? ref = some code) :
    ∃ chart, code.Charted chart := by
  have hsymbols := h.lists.matches h.covers
  obtain ⟨id, m, hm, ⟨f, -, hcode⟩ | ⟨-, -, hcode⟩⟩ := h.code ref code hcode
  · exact FunctionDef.lower_charted hsymbols hcode
  · have hincludes := (h.lists.mem_iff id m).mp (List.mem_of_getElem? hm)
    exact Module.lowerInit_charted hsymbols (fun g hg => ⟨m, hincludes, g, hg, rfl⟩) hcode

end

namespace Program

open Machine

/-- **Lowered code reads only what it has written.** At every moment of the course
of a call the innermost call has a course of its own, up to the same moment; and
whenever a call is innermost, the instruction that it carries out next reads only
parameters of its function and slots that an earlier instruction of the same call
has written. So an evaluation comes to the same value or error, with the same
globals and the same world, if new frames have any other values than null in the
slots that are not parameters. All this holds whatever the operations, the depth
limit, the arguments and the world are. -/
theorem lowered_code_reads_only_written {p : Program} {entry : String} {s : Setting}
    (h : p.lower entry = .ok s.program) :
    (∀ ref args resume m m' past, Course s ref args resume m (m' :: past) →
      ∃ ref' args' resume' base recent, Course s ref' args' resume' base (m' :: recent) ∧
        m'.stack.height = base.stack.height + 1 ∧ recent <+: past) ∧
    (∀ ref args resume m m' past, Course s ref args resume m (m' :: past) →
      m'.stack.height = m.stack.height + 1 →
      ∀ i, Upcoming s.program m' i → ∀ op ∈ i.operands, ∀ l ∈ op.local?,
        s.program.IsParam ref l ∨ Wrote s.program m.stack.height past l) ∧
    ∀ fill fuel args w, evaluateFilled s fill fuel args w = Machine.evaluate s fuel args w := by
  obtain ⟨-, modules, d, hlowering⟩ := (p.lower_decides entry).of_eq_ok h
  have hcharts : s.program.Charted := fun _ _ => hlowering.charted
  refine ⟨fun ref args resume m m' past hcourse => ?_,
    fun ref args resume m m' past hcourse hown i hi op hop l hl => ?_, fun fill fuel args w => ?_⟩
  · have hlow : m.stack.height < m'.stack.height := by
      rw [m.stack.height_eq, m'.stack.height_eq]
      exact (hcourse.over m' List.mem_cons_self).1.length_lt
    obtain ⟨ref', args', resume', base, recent, hcourse', hbase, hrecent⟩ :=
      hcourse.exists_course hlow (Nat.le_refl _)
    exact ⟨ref', args', resume', base, recent, hcourse', hbase.symm, hrecent⟩
  · exact hcourse.reads_written hcharts hown hi hop hl
  · exact evaluateFilled_eq hlowering.runnable hcharts fill fuel args w

/-- The loop that adds up the numbers to four comes to ten, whatever its locals
begin with. -/
theorem lowered_code_reads_only_written_sumLoop :
    ∃ s : Setting, Sample.sumLoop.lower = .ok s.program ∧ Table.standard = .ok s.table ∧
      (∀ args resume m m' past, Course s s.program.entry args resume m (m' :: past) →
        m'.stack.height = m.stack.height + 1 →
        ∀ i, Upcoming s.program m' i → ∀ op ∈ i.operands, ∀ l ∈ op.local?,
          s.program.IsParam s.program.entry l ∨ Wrote s.program m.stack.height past l) ∧
      ∀ fill, ∃ o w, evaluateFilled s fill 100 [.int 4] ⟨{}, {}, .steady 0⟩ = some (.ok o, w) ∧
        o.value = .int 10 := by
  have hten : (match Sample.sumLoop.lower, Table.standard with
      | .ok lowered, .ok table =>
        (Machine.evaluate ⟨lowered, table, 1000⟩ 100 [.int 4] ⟨{}, {}, .steady 0⟩).map
          fun r => r.1.toOption.map (·.value)
      | _, _ => none) = some (some (.int 10)) := by decide +kernel
  cases h : Sample.sumLoop.lower with
  | error e =>
    rw [h] at hten
    cases hten
  | ok lowered =>
    obtain ⟨table, htable, -⟩ := Table.exists_standard
    rw [h, htable] at hten
    obtain ⟨-, hreads, hfilled⟩ :=
      lowered_code_reads_only_written (s := ⟨lowered, table, 1000⟩) h
    refine ⟨⟨lowered, table, 1000⟩, rfl, htable, hreads _, fun fill => ?_⟩
    obtain ⟨⟨result, w⟩, heval, hvalue⟩ := Option.map_eq_some_iff.mp hten
    cases result with
    | error e => cases hvalue
    | ok o => exact ⟨o, w, (hfilled _ _ _ _).trans heval, Option.some.inj hvalue⟩

end Program

end Source

end BlockIR
