import BlockIR.Proofs.Builtin.Answers
import BlockIR.Proofs.Source.Meaning
import BlockIR.Proofs.Source.Rules
/-!
# What samples come to

A sample is found by its name, lowered and evaluated with the standard builtin
operations. What it comes to is read off its tree: for a sample that has nothing
to initialize, off the call of its entry function.
-/

namespace BlockIR

namespace Sample

open Source

variable {name : String} {depth : Nat} {args : List Value} {w w' : World}
variable {result : Except RuntimeError Value}

/-- **A sample comes to a result** on some arguments under a limit on the depth of
calls: there is a sample of that name, it can be lowered, and its evaluation ends,
given enough steps, with that result and leaves that world. -/
def ComesTo (name : String) (depth : Nat) (args : List Value) (w : World)
    (result : Except RuntimeError Value) (w' : World) : Prop :=
  ∃ sample lowered, find? name = some sample ∧ sample.program.lower = .ok lowered ∧
    ∃ steps, ∀ fuel, steps ≤ fuel →
      (Machine.evaluateStandard lowered ⟨depth⟩ fuel args w).map
        (fun r => (r.1.map Outcome.value, r.2)) = some (result, w')

/-- A sample comes to one result at most. -/
theorem ComesTo.unique {result' : Except RuntimeError Value} {w'' : World}
    (h : ComesTo name depth args w result w') (h' : ComesTo name depth args w result' w'') :
    result = result' ∧ w' = w'' := by
  obtain ⟨sample, lowered, hfind, hlower, steps, hsteps⟩ := h
  obtain ⟨sample', lowered', hfind', hlower', steps', hsteps'⟩ := h'
  cases hfind.symm.trans hfind'
  cases hlower.symm.trans hlower'
  have hone := hsteps (max steps steps') (Nat.le_max_left _ _)
  have htwo := hsteps' (max steps steps') (Nat.le_max_right _ _)
  cases hone.symm.trans htwo
  exact ⟨rfl, rfl⟩

/-- It returns a value exactly if the condition is met on which it does. -/
theorem ComesTo.ok_iff {c : Prop} [Decidable c] {v : Value} {e : RuntimeError}
    (h : ComesTo name depth args w (if c then .ok v else .error e) w') :
    ComesTo name depth args w (.ok v) w' ↔ c := by
  by_cases hc : c
  · rw [if_pos hc] at h
    exact iff_of_true h hc
  · rw [if_neg hc] at h
    refine iff_of_false (fun hok => ?_) hc
    cases (h.unique hok).1

/-! ## The catalogue -/

theorem names_nodup : (all.map (·.name)).Nodup := by decide

theorem find?_of_mem {s : Sample} (hs : s ∈ all) : find? s.name = some s := by
  have hsome : (find? s.name).isSome = true := List.find?_isSome.mpr ⟨s, hs, beq_self_eq_true _⟩
  obtain ⟨s', hfound⟩ := Option.isSome_iff_exists.mp hsome
  rw [find?] at hfound ⊢
  have hname := List.find?_some hfound
  have hmem := List.mem_of_find?_eq_some hfound
  have heq : s' = s := List.inj_on_of_nodup_map names_nodup hmem hs (beq_iff_eq.mp hname)
  rw [hfound, heq]

/-- Every sample can be lowered. -/
theorem exists_lower {s : Sample} (hs : s ∈ all) : ∃ lowered, s.program.lower = .ok lowered := by
  have hlowers : ∀ s ∈ all, s.program.lower.toBool = true := by decide +kernel
  exact Success.exists_of_toBool (hlowers s hs)

/-- The entry function of a sample takes the parameters that are listed. -/
theorem exists_main {s : Sample} (hs : s ∈ all) :
    ∃ f, s.program.function? s.program.root "main" = some f ∧ f.params = s.params := by
  have hparams : ∀ s ∈ all, (s.program.function? s.program.root "main").map (·.params) =
      some s.params := by decide +kernel
  exact Option.map_eq_some_iff.mp (hparams s hs)

/-- The samples that count, add up or fill an array have nothing to initialize. -/
theorem not_hasInit : ∀ s ∈ all, s.name ∈ ["sum_rec", "sum_loop", "fact", "array"] →
    ∀ listed ∈ s.program.dependencyOrder, ¬ listed.2.HasInit := by
  decide +kernel

/-! ## Operators -/

/-- An operator on two integers, in an expression. -/
theorem hasValue_operator {ctx : Context} {env : Locals} {σ : Store} {lhs rhs : Expr} {a b : Int64}
    {op : Operator} {v : Value} (ht : Table.standard = .ok ctx.table)
    (hlhs : lhs.HasValue ctx env σ (.int a)) (hrhs : rhs.HasValue ctx env σ (.int b))
    (hop : op.onInts? a b = some v) : Expr.HasValue ctx env σ (.binary op lhs rhs) v :=
  Expr.hasValue_binary hlhs hrhs (Table.answers_operator ht hop σ.world)

/-! ## Samples without initial values -/

section Calls

variable {s : Sample} {t : Table} {rounds : Nat} {σ : Store}

theorem apply_inits {p : Source.Program} (hplain : ∀ listed ∈ p.dependencyOrder, ¬ listed.2.HasInit)
    (σ : Store) :
    (p.dependencyOrder.forM (p.initModule t rounds depth)).apply σ = some (.ok (), σ) := by
  generalize p.dependencyOrder = modules at hplain ⊢
  induction modules with
  | nil => rfl
  | cons listed rest ih =>
    rw [List.forall_mem_cons] at hplain
    have hskip : p.initModule t rounds depth listed = pure () := if_neg hplain.1
    rw [List.forM_eq_forM, List.forM_cons, hskip, pure_bind]
    exact ih hplain.2

/-- **Where nothing is to be initialized, the call of the entry function decides what
a sample comes to.** -/
theorem comesTo_of_call (hs : s ∈ all)
    (hplain : ∀ listed ∈ s.program.dependencyOrder, ¬ listed.2.HasInit)
    (hlength : args.length = s.params.length) (ht : Table.standard = .ok t)
    (hcall : (s.program.call t rounds depth depth s.program.root "main" args).apply
      ⟨s.program.nullGlobals, w⟩ = some (result, σ)) :
    ComesTo s.name depth args w result σ.world := by
  obtain ⟨lowered, hlower⟩ := exists_lower hs
  obtain ⟨main, hmain, hparams⟩ := exists_main hs
  obtain ⟨-, modules, d, hlowering⟩ := (s.program.lower_decides "main").of_eq_ok hlower
  have hcallee : ∀ σ, (s.program.callee s.program.root "main" args).apply σ = some (.ok main, σ) :=
    Program.apply_callee hmain (hparams ▸ hlength)
  have hevaluate : s.program.evaluate "main" t depth rounds args w =
      some (result.map fun v => (v, σ.globals), σ.world) := by
    simp only [Program.evaluate, Eval.apply_bind_ok (hcallee _),
      Eval.apply_bind_ok (apply_inits hplain _), hcall, Option.map_some]
  obtain ⟨steps, hsteps⟩ :=
    (hlowering.evaluate_eq_some_iff t depth args w _).mpr ⟨rounds, hevaluate⟩
  obtain ⟨⟨outcome, w'⟩, hrun, hseen⟩ := Option.map_eq_some_iff.mp hsteps
  refine ⟨s, lowered, find?_of_mem hs, hlower, steps, fun fuel hle => ?_⟩
  have hfuel := Machine.evaluate_steady _ args w steps fuel _ hrun hle
  simp only [Machine.evaluateStandard, ht, hfuel, Option.map_some]
  obtain ⟨hresult, hworld⟩ := Prod.ext_iff.mp hseen
  refine congrArg some (Prod.ext ?_ hworld)
  -- the value is the first thing that is seen of an outcome
  have hvalue := congrArg (Except.map Prod.fst) hresult
  cases outcome with
  | error e => cases result <;> exact hvalue
  | ok o => cases result <;> exact hvalue

end Calls

end Sample

end BlockIR
