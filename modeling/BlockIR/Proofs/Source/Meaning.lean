import BlockIR.Proofs.Source.Evaluation
import BlockIR.Proofs.Source.InitOrder
/-!
# Lowering preserves meaning

An evaluation of a lowered program finishes exactly when the evaluation of the
program tree does, and comes to the same: the same value or the same error, the
same globals by name, and the same world.
-/

namespace BlockIR

open Machine Success

namespace Source

/-- What an outcome shows: the value returned, and the globals by name. -/
def observe (lowered : BlockIR.Program) (o : Outcome) : Value × Globals :=
  (o.value, o.globalByName? lowered)

namespace Program

variable {p : Program} {entry : String} {modules : List (String × Module)} {d : Declared}
variable {lowered : BlockIR.Program}

/-! ## Globals -/

namespace Lowering

/-- A global is found by name where its symbol says. -/
theorem globalId?_eq_lookup (h : p.Lowering entry modules d lowered) (module name : String) :
    lowered.globalId? module name = d.symbols.globals.lookup (module, name) := by
  have hids : (lowered.modules.toList.map (·.id)).Nodup := by
    rw [h.ids_eq]
    exact h.lists.distinct
  have hglobals : lowered.globals = d.assembly.globals := h.shape.globals
  by_cases hmem : module ∈ d.assembly.ids
  · obtain ⟨row, hlisted, rfl⟩ := List.mem_map.mp hmem
    obtain ⟨i, hi⟩ := List.getElem?_of_mem hlisted
    have hrow : d.assembly.modules[i]? = some row := Array.getElem?_toList.symm.trans hi
    obtain ⟨row', hrow', hshape⟩ := h.exists_row hrow
    have hindex : lowered.moduleIndex? row'.id = some i := by
      rw [BlockIR.Program.moduleIndex?_eq_some hids, hrow', Option.map_some]
    have hid : row'.id = row.id := congrArg Prod.fst hshape
    have hslots : row'.globals = row.globals := congrArg (fun shape => shape.2.1) hshape
    rw [← h.covers.agree.globalIn?_eq_lookup h.covers.indexed hrow name, ← hid]
    simp only [BlockIR.Program.globalId?, hindex, hrow', globalIn?, hglobals, hslots,
      Option.bind_eq_bind, Option.bind_some]
  · have hindex : lowered.moduleIndex? module = none := by
      refine List.findIdx?_eq_none_iff.mpr fun row hrow => beq_eq_false_iff_ne.mpr ?_
      rintro rfl
      rw [← h.shape.ids_eq] at hmem
      exact hmem (List.mem_map.mpr ⟨row, hrow, rfl⟩)
    cases hlookup : d.symbols.globals.lookup (module, name) with
    | none => rw [BlockIR.Program.globalId?, hindex, Option.bind_eq_bind, Option.bind_none]
    | some g =>
      obtain ⟨i, row, hrow, rfl, -⟩ := h.covers.agree.slot _ g hlookup
      exact absurd (List.mem_map.mpr ⟨row, Array.mem_toList_iff.mpr (Array.mem_of_getElem? hrow), rfl⟩)
        hmem

/-- At the start of an evaluation all globals are null. -/
theorem showsGlobals_start (h : p.Lowering entry modules d lowered) :
    ShowsGlobals d.symbols (Array.replicate lowered.globals.size .null) p.nullGlobals where
  bound key g hg := by
    rw [Array.size_replicate]
    exact h.lt_size_globals hg
  distinct key key' g hg hg' := by
    obtain ⟨module, name⟩ := key
    obtain ⟨module', name'⟩ := key'
    obtain ⟨i, row, hrow, rfl, hdecl, -⟩ := h.covers.agree.slot _ g hg
    obtain ⟨i', row', hrow', rfl, hdecl', -⟩ := h.covers.agree.slot _ g hg'
    cases hdecl.symm.trans hdecl'
    cases hrow.symm.trans hrow'
    rfl
  view module name := by
    have hdeclared : (p.dependencyOrder.any fun listed =>
        listed.1 == module && listed.2.globals.any fun g => g.name == name) = true ↔
        (d.symbols.globals.lookup (module, name)).isSome = true := by
      rw [h.covers.globals, List.any_eq_true]
      simp only [h.initOrder_tracks.2, Bool.and_eq_true, beq_iff_eq, List.any_eq_true, Prod.exists]
      constructor
      · rintro ⟨_, m, hm, rfl, hg⟩
        exact ⟨m, hm, hg⟩
      · rintro ⟨m, hm, hg⟩
        exact ⟨module, m, hm, rfl, hg⟩
    rw [nullGlobals]
    cases hlookup : d.symbols.globals.lookup (module, name) with
    | none =>
      rw [hlookup] at hdeclared
      rw [if_neg (fun hany => Bool.noConfusion (hdeclared.mp hany))]
      rfl
    | some g =>
      rw [hlookup] at hdeclared
      rw [if_pos (hdeclared.mpr rfl), Option.bind_some, Array.getElem?_replicate,
        if_pos (h.lt_size_globals hlookup)]

/-- The globals of an outcome are those of the store that the memory shows. -/
theorem observe_of_rests (h : p.Lowering entry modules d lowered) {σ : Store} {m : Memory}
    (hm : Rests d.symbols σ m) (v : Value) :
    observe lowered ⟨v, m.globals⟩ = (v, σ.globals) := by
  obtain ⟨globals, rfl, hglobals⟩ := hm
  refine Prod.ext rfl (funext fun module => funext fun name => ?_)
  refine Eq.trans ?_ (hglobals.view module name).symm
  rw [← h.globalId?_eq_lookup]
  rfl

/-! ## Evaluations -/

/-- Calling the entry agrees with the call of the entry function. -/
theorem runEntry_agrees (h : p.Lowering entry modules d lowered) (table : Table) (limit n : Nat)
    (args : List Value) {σ : Store} {m : Memory} (hm : Rests d.symbols σ m) :
    Agrees n (p.call table n limit limit p.root entry args) σ
      (fun k => runEntry ⟨lowered, table, limit⟩ k args m) fun v σ' o m' =>
        observe lowered o = (v, σ'.globals) ∧ m'.world = σ'.world := by
  refine (h.invoke_call_agrees h.entry table limit args hm).map
    (g := fun v m => (⟨v, m.globals⟩ : Outcome)) ?_
  rintro v σ' _ m' ⟨rfl, hm'⟩
  refine ⟨h.observe_of_rests hm' _, ?_⟩
  obtain ⟨globals, rfl, -⟩ := hm'
  rfl

/-- **The evaluation of a lowered program agrees with that of its tree**, once the
arguments fit. -/
theorem evaluate_agrees (h : p.Lowering entry modules d lowered) (table : Table) (limit n : Nat)
    (args : List Value) (w : World) :
    Agrees n (do
        p.dependencyOrder.forM (p.initModule table n limit)
        p.call table n limit limit p.root entry args) ⟨p.nullGlobals, w⟩
      (fun k => (initModules ⟨lowered, table, limit⟩ k lowered.initOrder
        (startMemory lowered w)).andThen fun _ => runEntry ⟨lowered, table, limit⟩ k args)
      fun v σ o m => observe lowered o = (v, σ.globals) ∧ m.world = σ.world := by
  have hm : Rests d.symbols ⟨p.nullGlobals, w⟩ (startMemory lowered w) :=
    ⟨_, rfl, h.showsGlobals_start⟩
  refine (h.initModules_agrees table limit h.initOrder_tracks.1 hm).bind (initModules_steady _ _ _)
    (fun _ m => runEntry_steady _ args m) ?_
  exact fun _ σ _ m hm => h.runEntry_agrees table limit n args hm

/-- Evaluations of the lowered program and of the tree begin with the same check. -/
theorem exists_checkEntry (h : p.Lowering entry modules d lowered) (args : List Value)
    (σ : Store) :
    (∃ f, checkEntry lowered args = .ok () ∧ (p.callee p.root entry args).apply σ = some (.ok f, σ)) ∨
      ∃ e, checkEntry lowered args = .error e ∧
        (p.callee p.root entry args).apply σ = some (.error e, σ) := by
  obtain ⟨f, code, hlinks⟩ := h.exists_links h.entry
  have hcallee := hlinks.apply_callee args σ
  rw [checkEntry, hlinks.holds, hlinks.describe, hcallee]
  simp only [hlinks.arity]
  by_cases hlength : args.length = f.params.length
  · exact .inl ⟨f, if_pos hlength, if_neg (not_not_intro hlength)⟩
  · exact .inr ⟨_, if_neg hlength, if_pos hlength⟩

/-- Within a bound on the rounds of loops, the lowered program comes to what its
tree comes to, or takes longer too. -/
theorem evaluate_follows (h : p.Lowering entry modules d lowered) (table : Table) (limit n : Nat)
    (args : List Value) (w : World) :
    match p.evaluate entry table limit n args w with
    | none => Machine.evaluate ⟨lowered, table, limit⟩ n args w = none
    | some r => ∃ fuel, (Machine.evaluate ⟨lowered, table, limit⟩ fuel args w).map
        (fun r => (r.1.map (observe lowered), r.2)) = some r := by
  rw [evaluate]
  rcases h.exists_checkEntry args ⟨p.nullGlobals, w⟩ with ⟨f, hcheck, hcallee⟩ | ⟨e, hcheck, hcallee⟩
  · have hagrees := h.evaluate_agrees table limit n args w
    simp only [Eval.apply_bind_ok hcallee, evaluate_of_checkEntry (s := ⟨lowered, table, limit⟩) hcheck]
    unfold Agrees at hagrees
    generalize Eval.apply _ _ = result at hagrees ⊢
    rcases result with _ | ⟨e | v, σ⟩
    · simp only [hagrees, Option.map_none]
    · obtain ⟨k, m, hk, hworld⟩ := hagrees
      exact ⟨k, by simp only [hk, Option.map_some, hworld]; rfl⟩
    · obtain ⟨k, o, m, hk, hobserve, hworld⟩ := hagrees
      exact ⟨k, by simp only [hk, Option.map_some, hworld, Except.map, hobserve]⟩
  · simp only [Eval.apply_bind, hcallee]
    exact ⟨0, by simp only [Machine.evaluate, hcheck]; rfl⟩

/-- **A lowered program comes to what its tree comes to.** -/
theorem evaluate_eq_some_iff (h : p.Lowering entry modules d lowered) (table : Table) (limit : Nat)
    (args : List Value) (w : World) (r : Except RuntimeError (Value × Globals) × World) :
    (∃ fuel, (Machine.evaluate ⟨lowered, table, limit⟩ fuel args w).map
        (fun r => (r.1.map (observe lowered), r.2)) = some r) ↔
      ∃ rounds, p.evaluate entry table limit rounds args w = some r := by
  constructor
  · rintro ⟨fuel, hfuel⟩
    have hfollows := h.evaluate_follows table limit fuel args w
    cases heval : p.evaluate entry table limit fuel args w with
    | none =>
      rw [heval] at hfollows
      rw [hfollows] at hfuel
      cases hfuel
    | some r' =>
      rw [heval] at hfollows
      obtain ⟨k, hk⟩ := hfollows
      have hsteady := (evaluate_steady ⟨lowered, table, limit⟩ args w).map
        fun r => (r.1.map (observe lowered), r.2)
      exact ⟨fuel, heval.trans (congrArg some (hsteady.unique hk hfuel))⟩
  · rintro ⟨rounds, hrounds⟩
    have hfollows := h.evaluate_follows table limit rounds args w
    rwa [hrounds] at hfollows

end Lowering

/-- **Lowering preserves meaning.** With the standard builtin operations, whatever
the arguments, the world and the limit on calls, the lowered program finishes
exactly when the evaluation of the program tree does, and with the same result:
the value returned and the final globals by name, or the error, and the world
that is left. -/
theorem lowering_preserves_meaning {p : Program} {entry : String} {lowered : BlockIR.Program}
    (h : p.lower entry = .ok lowered) :
    ∃ table, Table.standard = .ok table ∧
      ∀ (limits : Limits) (args : List Value) (w : World)
        (r : Except RuntimeError (Value × Globals) × World),
        (∃ fuel, (Machine.evaluateStandard lowered limits fuel args w).map
            (fun r => (r.1.map (observe lowered), r.2)) = some r) ↔
          ∃ rounds, p.evaluate entry table limits.maxCallDepth rounds args w = some r := by
  obtain ⟨-, modules, d, hlowering⟩ := (p.lower_decides entry).of_eq_ok h
  obtain ⟨table, htable, -⟩ := Table.exists_standard
  refine ⟨table, htable, fun limits args w r => ?_⟩
  simp only [Machine.evaluateStandard, htable]
  exact hlowering.evaluate_eq_some_iff table limits.maxCallDepth args w r

/-- The program with a diamond of imports is evaluated by evaluating its tree. -/
theorem lowering_preserves_meaning_diamond :
    ∃ lowered fuel o w, Sample.diamond.lower = .ok lowered ∧
      Machine.evaluateStandard lowered {} fuel [.int 4] ⟨{}, {}, .steady 0⟩ = some (.ok o, w) ∧
      o.value = .int 8 ∧ o.globalByName? lowered "base" "calls" = some (.int 2) := by
  have hok : Sample.diamond.lower.toBool = true := by decide +kernel
  have hsource : (match Table.standard with
      | .ok table => (Sample.diamond.evaluate "main" table 1000 0 [.int 4] ⟨{}, {}, .steady 0⟩).map
          fun r => r.1.toOption.map fun seen => (seen.1, seen.2 "base" "calls")
      | .error _ => none) = some (some (.int 8, some (.int 2))) := by decide +kernel
  cases h : Sample.diamond.lower with
  | error e =>
    rw [h] at hok
    cases hok
  | ok lowered =>
    obtain ⟨table, htable, hmeaning⟩ := lowering_preserves_meaning h
    rw [htable] at hsource
    obtain ⟨⟨result, w⟩, heval, hseen⟩ := Option.map_eq_some_iff.mp hsource
    obtain ⟨fuel, hfuel⟩ := (hmeaning {} [.int 4] ⟨{}, {}, .steady 0⟩ (result, w)).mpr ⟨0, heval⟩
    obtain ⟨⟨result', _⟩, hrun, hobserve⟩ := Option.map_eq_some_iff.mp hfuel
    obtain _ | o := result'
    · cases hobserve
      cases hseen
    · cases hobserve
      obtain ⟨hvalue, hcalls⟩ := Prod.ext_iff.mp (Option.some.inj hseen)
      exact ⟨lowered, fuel, o, _, rfl, hrun, hvalue, hcalls⟩

end Program

end Source

end BlockIR
