import BlockIR.Proofs.Machine.Calls
import BlockIR.Proofs.Machine.World
/-!
# The depth limit only cuts runs off

Under a higher limit on the calls in progress, a run takes the same steps as
under a lower one, up to the first call for which the lower limit leaves no room.
So a run that the lower limit does not cut off is the same under the higher one,
and one that it does cut off goes on from there. `CutShort` relates what the
two come to; it holds of runs and is carried on to calls and evaluations.
-/

namespace BlockIR

open Success

namespace Machine

variable {s : Setting} {deep : Nat} {m : Memory} {α β : Type}

/-- The setting with another limit on the calls in progress. -/
def withLimit (s : Setting) (deep : Nat) : Setting := { s with limit := deep }

/-! ## Steps -/

/-- A call for which a limit leaves room begins in the same way under a higher
one. -/
theorem enter_withLimit (hle : s.limit ≤ deep) (ref : FunctionRef) (args : List Value)
    (resume : Resume) (m : Memory) :
    (enter s ref args resume).apply m = (.error (.stackOverflow s.limit), m) ∨
      (enter (withLimit s deep) ref args resume).apply m =
        (enter s ref args resume).apply m := by
  simp only [apply_enter_of_memory, withLimit]
  cases s.program.function? ref with
  | none => exact .inr rfl
  | some f =>
    by_cases harity : args.length = f.arity
    · by_cases hfull : s.limit ≤ m.stack.height
      · left
        simp [harity, hfull]
      · right
        have hroom : ¬ deep ≤ m.stack.height := by omega
        simp [harity, hfull, hroom]
    · right
      simp [harity]

/-- Only the call of a function asks for the limit. -/
theorem execute_withLimit {i : Instruction} (h : ∀ dst ref args, i ≠ .call dst (.function ref) args) :
    execute (withLimit s deep) i = execute s i := by
  cases i with
  | call dst callee args =>
    cases callee with
    | builtin name => rw [execute, execute, withLimit]
    | function ref => exact absurd rfl (h dst ref args)
  | binary dst op lhs rhs => rw [execute, execute, withLimit]
  | _ => rfl

/-- A step is the same under a higher limit, unless it finds no room for a call. -/
theorem step_withLimit (hle : s.limit ≤ deep) (m : Memory) :
    (∃ m', (step s).apply m = (.error (.stackOverflow s.limit), m')) ∨
      (step (withLimit s deep)).apply m = (step s).apply m := by
  rw [m.eq_ofFrames]
  rcases m.stack.frames with _ | ⟨fr, rest⟩
  · exact .inr (by rw [apply_step_nil, apply_step_nil])
  · cases hi : fetch s.program fr with
    | error e =>
      have hi' : fetch (withLimit s deep).program fr = .error e := hi
      exact .inr (by rw [apply_step_stuck hi, apply_step_stuck hi'])
    | ok i =>
      have hi' : fetch (withLimit s deep).program fr = .ok i := hi
      rw [apply_step hi, apply_step hi']
      -- only a call of a function asks for the limit
      by_cases hcall : ∃ dst ref args, i = .call dst (.function ref) args
      · obtain ⟨dst, ref, args, rfl⟩ := hcall
        rw [execute, execute, Transform.apply_bind, Transform.apply_bind]
        rcases (operands args).apply (.ofFrames (fr.advance :: rest) m.globals m.world) with
          ⟨e | vs, m₁⟩
        · exact .inr rfl
        · simp only
          rcases enter_withLimit hle ref vs (.caller dst) m₁ with hfull | hsame
          · exact .inl ⟨m₁, Transform.apply_bind_error hfull⟩
          · exact .inr (by rw [Transform.apply_bind, Transform.apply_bind, hsame])
      · rw [execute_withLimit fun dst ref args hi => hcall ⟨dst, ref, args, hi⟩]
        exact .inr rfl

/-- A step that names a full stack names the limit, and does nothing to the
world. -/
theorem world_of_overflow (ht : Table.standard = .ok s.table) {limit : Nat} {m' : Memory}
    (h : (step s).apply m = (.error (.stackOverflow limit), m')) :
    limit = s.limit ∧ m'.world = m.world := by
  obtain ⟨rfl, hattempts, hdepth⟩ := attempts_of_step_eq_overflow (unfeigned_standard ht limit) h
  obtain ⟨m'', hfull, hworld⟩ := step_full hattempts hdepth
  rw [h] at hfull
  cases hfull
  exact ⟨rfl, hworld⟩

/-! ## What a lower limit makes of an action -/

/-- **The first action is the second one, cut short by a limit**: they come to the
same, unless the first finds the stack full. Then the second, if it comes to
anything, has printed at least as much. -/
structure CutShort (limit : Nat) (x y : Nat → Finish α) : Prop where
  same : ∀ n result m, x n = some (result, m) →
    (∀ l, result ≠ .error (.stackOverflow l)) → y n = some (result, m)
  cut : ∀ n l m, x n = some (.error (.stackOverflow l), m) →
    l = limit ∧ ∀ k result m', y k = some (result, m') → m.world.Prints m'.world

/-- An action that comes to one thing, whatever the limit. -/
theorem CutShort.const {limit : Nat} {result : Except RuntimeError α} {m : Memory}
    (h : ∀ l, result = .error (.stackOverflow l) → l = limit) :
    CutShort limit (fun _ => some (result, m)) fun _ => some (result, m) where
  same _ _ _ hx _ := hx
  cut n l m' hx := by
    cases hx
    refine ⟨h l rfl, fun k result m₁ hy => ?_⟩
    cases hy
    exact World.prints_tracks.refl _

/-- A failure to begin a call cuts the call short at once. -/
theorem CutShort.of_full {limit : Nat} {m : Memory} {y : Nat → Finish α}
    (h : ∀ k result m', y k = some (result, m') → m.world.Prints m'.world) :
    CutShort limit (fun _ => some (.error (.stackOverflow limit), m)) y where
  same n result m' hx hne := by
    cases hx
    exact absurd rfl (hne limit)
  cut n l m' hx := by
    cases hx
    exact ⟨rfl, h⟩

/-- What is cut short still is through a function that keeps worlds and overflows. -/
theorem CutShort.map {limit : Nat} {x y : Nat → Finish α} (h : CutShort limit x y)
    (f : Except RuntimeError α × Memory → Except RuntimeError β × Memory)
    (hworld : ∀ r, (f r).2.world = r.2.world)
    (herror : ∀ r l, (f r).1 = .error (.stackOverflow l) ↔ r.1 = .error (.stackOverflow l)) :
    CutShort limit (fun n => (x n).map f) fun n => (y n).map f where
  same n result m hx hne := by
    obtain ⟨r, hr, hf⟩ := Option.map_eq_some_iff.mp hx
    have hsame := h.same n r.1 r.2 hr fun l hl => hne l (by rw [← (herror r l).mpr hl, hf])
    simp only [hsame, Option.map_some, hf]
  cut n l m hx := by
    obtain ⟨r, hr, hf⟩ := Option.map_eq_some_iff.mp hx
    have hl : r.1 = .error (.stackOverflow l) := (herror r l).mp (by rw [hf])
    obtain ⟨e, m₁⟩ := r
    cases hl
    obtain ⟨rfl, hprints⟩ := h.cut n l m₁ hr
    refine ⟨rfl, fun k result m' hy => ?_⟩
    obtain ⟨r', hr', hf'⟩ := Option.map_eq_some_iff.mp hy
    have hm : m.world = m₁.world := by rw [← hworld (.error (.stackOverflow l), m₁), hf]
    have hm' : m'.world = r'.2.world := by rw [← hworld r', hf']
    rw [hm, hm']
    exact hprints k r'.1 r'.2 hr'

/-- What follows two such actions. What follows the second must only ever add to
the output, as the first may be cut short before it. -/
theorem CutShort.andThen {limit : Nat} {x y : Nat → Finish α} {f g : Nat → α → Memory → Finish β}
    (h : CutShort limit x y) (hy : Steady y)
    (hfg : ∀ a m, CutShort limit (fun n => f n a m) fun n => g n a m)
    (hg : ∀ k a m result m', g k a m = some (result, m') → m.world.Prints m'.world) :
    CutShort limit (fun n => (x n).andThen (f n)) fun n => (y n).andThen (g n) where
  same n result m hx hne := by
    rcases hr : x n with _ | ⟨e | a, m₁⟩
    all_goals
      simp only [hr] at hx
    · cases hx
    · cases hx
      have hne' : ∀ l, (.error e : Except RuntimeError α) ≠ .error (.stackOverflow l) :=
        fun l hl => hne l (by rw [Except.error.inj hl])
      simp only [h.same n _ _ hr hne']
      rfl
    · simp only [h.same n _ _ hr (by rintro _ ⟨⟩)]
      exact (hfg a m₁).same n result m hx hne
  cut n l m hx := by
    rcases hr : x n with _ | ⟨e | a, m₁⟩
    all_goals
      simp only [hr] at hx
    · cases hx
    · cases hx
      obtain ⟨rfl, hprints⟩ := h.cut n l m hr
      refine ⟨rfl, fun k result m' hyk => ?_⟩
      rcases hr' : y k with _ | ⟨e | a, m₂⟩
      all_goals
        simp only [hr'] at hyk
      · cases hyk
      · cases hyk
        exact hprints k _ _ hr'
      · exact (hprints k _ _ hr').trans (hg k a m₂ _ _ hyk)
    · have hsame := h.same n _ _ hr (by rintro _ ⟨⟩)
      obtain ⟨hl, hprints⟩ := (hfg a m₁).cut n l m hx
      refine ⟨hl, fun k result m' hyk => ?_⟩
      rcases hr' : y k with _ | r
      all_goals
        simp only [hr'] at hyk
      · cases hyk
      · -- the second action comes to the same however many steps it is given
        obtain rfl := hy.unique hsame hr'
        exact hprints k result m' hyk

/-! ## Runs, calls and evaluations -/

section

variable (ht : Table.standard = .ok s.table) (hle : s.limit ≤ deep)
include ht hle

omit hle in
/-- What is printed stays printed, whatever the limit. -/
theorem keeps_withLimit (deep : Nat) : Keeps World.Prints (withLimit s deep).table :=
  World.prints_tracks.keeps ht

/-- A run under a lower limit is the run cut short. -/
theorem run_cutShort (m : Memory) :
    CutShort s.limit (fun n => run s n m) fun n => run (withLimit s deep) n m where
  same n result m' hrun hne := by
    induction n generalizing m with
    | zero => cases hrun
    | succ n ih =>
      rw [run] at hrun ⊢
      rcases step_withLimit hle m with ⟨m₁, hfull⟩ | hsame
      · rw [hfull] at hrun
        cases hrun
        exact absurd rfl (hne s.limit)
      · rw [hsame]
        rcases hstep : (step s).apply m with ⟨e | _ | v, m₁⟩
        all_goals
          rw [hstep] at hrun
        · exact hrun
        · exact ih m₁ hrun
        · exact hrun
  cut n l m' hrun := by
    induction n generalizing m with
    | zero => cases hrun
    | succ n ih =>
      rw [run] at hrun
      rcases hstep : (step s).apply m with ⟨e | _ | v, m₁⟩
      all_goals
        rw [hstep] at hrun
      · cases hrun
        obtain ⟨hl, hworld⟩ := world_of_overflow ht hstep
        rw [hworld]
        exact ⟨hl, fun k result m₂ hdeep => (keeps_withLimit ht deep).run hdeep⟩
      · rcases step_withLimit hle m with ⟨m₂, hfull⟩ | hsame
        · rw [hstep] at hfull
          cases hfull
        · rw [hstep] at hsame
          obtain ⟨hl, hprints⟩ := ih m₁ hrun
          refine ⟨hl, fun k result m₂ hdeep => ?_⟩
          cases k with
          | zero => cases hdeep
          | succ k =>
            rw [run_succ_of_step hsame] at hdeep
            exact hprints k result m₂ hdeep
      · cases hrun

/-- A call under a lower limit is the call cut short. -/
theorem invoke_cutShort (ref : FunctionRef) (args : List Value) (m : Memory) :
    CutShort s.limit (fun n => invoke s n ref args m)
      fun n => invoke (withLimit s deep) n ref args m := by
  have hprints : ∀ k result m', invoke (withLimit s deep) k ref args m = some (result, m') →
      m.world.Prints m'.world := fun k result m' h => (keeps_withLimit ht deep).invoke h
  rcases enter_withLimit hle ref args .halt m with hfull | hsame
  · simp only [invoke, hfull]
    exact .of_full hprints
  · rcases henter : (enter s ref args .halt).apply m with ⟨e | _, inner⟩
    · simp only [invoke, hsame, henter]
      exact .const fun l hl => ((enter_eq_error henter).2 l (Except.error.inj hl)).1
    · simp only [invoke, hsame, henter]
      exact (run_cutShort ht hle inner).map _ (fun r => world_settle r.1 r.2) fun _ _ => Iff.rfl

/-- An initialization under a lower limit is the initialization cut short. -/
theorem initModules_cutShort (order : List ModuleIndex) (m : Memory) :
    CutShort s.limit (fun n => initModules s n order m)
      fun n => initModules (withLimit s deep) n order m := by
  induction order generalizing m with
  | nil => exact .const fun l hl => by cases hl
  | cons i rest ih =>
    cases href : initializer? s.program i with
    | none =>
      have href' : initializer? (withLimit s deep).program i = none := href
      simp only [initModules, href, href']
      exact ih m
    | some ref =>
      have href' : initializer? (withLimit s deep).program i = some ref := href
      simp only [initModules_cons href, initModules_cons href']
      exact (invoke_cutShort ht hle ref [] m).andThen (invoke_steady _ ref [] m)
        (fun _ m' => ih m') fun k _ m' result m'' h => (keeps_withLimit ht deep).initModules h

theorem runEntry_cutShort (args : List Value) (m : Memory) :
    CutShort s.limit (fun n => runEntry s n args m)
      fun n => runEntry (withLimit s deep) n args m := by
  refine (invoke_cutShort ht hle s.program.entry args m).map _ (fun _ => rfl) fun r l => ?_
  obtain ⟨e | v, m'⟩ := r <;> simp [Except.map]

theorem entry_cutShort (args : List Value) (w : World) :
    CutShort s.limit
      (fun n => (initModules s n s.program.initOrder (startMemory s.program w)).andThen
        fun _ => runEntry s n args)
      fun n => (initModules (withLimit s deep) n s.program.initOrder
        (startMemory s.program w)).andThen fun _ => runEntry (withLimit s deep) n args :=
  (initModules_cutShort ht hle _ _).andThen (initModules_steady _ _ _)
    (fun _ m => runEntry_cutShort ht hle args m)
    fun _ _ _ _ _ h => (keeps_withLimit ht deep).runEntry h

end

theorem checkEntry_ne_overflow {p : Program} {args : List Value} (limit : Nat) :
    checkEntry p args ≠ .error (.stackOverflow limit) := by
  unfold checkEntry
  split
  · exact nofun
  · split <;> exact nofun

/-- **The depth limit only cuts evaluations off.** An evaluation that does not
find the stack full comes to the same under any higher limit: the same result,
and the same world with its output and what is left of its input. One that finds
it full names the limit, and what it has printed by then is where the output of
every finished evaluation under a higher limit begins. -/
theorem limit_only_cuts_off (p : Program) (args : List Value) (w : World) {shallow deep : Nat}
    (hle : shallow ≤ deep) {fuel : Nat} {result : Except RuntimeError Outcome} {w₁ : World}
    (hrun : evaluateStandard p ⟨shallow⟩ fuel args w = some (result, w₁)) :
    ((∀ limit, result ≠ .error (.stackOverflow limit)) →
      evaluateStandard p ⟨deep⟩ fuel args w = some (result, w₁)) ∧
    ∀ limit, result = .error (.stackOverflow limit) → limit = shallow ∧
      ∀ fuel' result' w₂, evaluateStandard p ⟨deep⟩ fuel' args w = some (result', w₂) →
        w₁.console.output.toList <+: w₂.console.output.toList := by
  obtain ⟨table, ht, -⟩ := Table.exists_standard
  simp only [evaluateStandard, ht] at hrun ⊢
  cases hentry : checkEntry p args with
  | error e =>
    simp only [Machine.evaluate, hentry] at hrun ⊢
    cases hrun
    refine ⟨fun _ => rfl, fun limit hlimit => ?_⟩
    cases hlimit
    exact absurd hentry (checkEntry_ne_overflow limit)
  | ok _ =>
    have hcut := entry_cutShort (s := ⟨p, table, shallow⟩) ht hle args w
    have hevaluate : ∀ limit k, Machine.evaluate ⟨p, table, limit⟩ k args w = _ :=
      fun limit k => evaluate_of_checkEntry (s := ⟨p, table, limit⟩) hentry k w
    rw [hevaluate] at hrun
    obtain ⟨⟨result₁, m₁⟩, hx, heq⟩ := Option.map_eq_some_iff.mp hrun
    cases heq
    refine ⟨fun hne => ?_, fun limit hlimit => ?_⟩
    · rw [hevaluate]
      exact Option.map_eq_some_iff.mpr ⟨_, hcut.same fuel _ _ hx hne, rfl⟩
    · cases hlimit
      obtain ⟨hl, hprints⟩ := hcut.cut fuel limit m₁ hx
      refine ⟨hl, fun fuel' result' w₂ hdeep => ?_⟩
      rw [hevaluate] at hdeep
      obtain ⟨⟨result₂, m₂⟩, hy, heq⟩ := Option.map_eq_some_iff.mp hdeep
      cases heq
      exact hprints fuel' _ _ hy

/-- A function that prints its argument, less one at each further call, until
that is zero. -/
def countdownFunction : Function :=
  ([.newBlock "again", .newBlock "done", .call (.builtin "print") [.var 0],
    .branch (.var 0) 1 2, .moveTo 1, .binary .sub (.var 0) (.const (.int 1)),
    .call (.function ⟨0, 0⟩) [.var 2], .ret (.var 3), .moveTo 2, .ret (.var 0)].foldl
    (fun c e => Emission.leave e c) (Cursor.atEntry (Function.empty "down" ["n"]))).function

/-- The program of that function. -/
def countdownProgram : Program where
  modules := #[{ id := "m", functions := #[countdownFunction] }]
  globals := #[]
  entry := ⟨0, 0⟩
  initOrder := [0]

/-- Counting down from two takes three calls. Under a limit of three it ends as it
does under the usual limit; under a limit of two it prints the first two numbers
and is cut off. -/
theorem limit_only_cuts_off_countdown :
    let w : World := ⟨{}, {}, .steady 0⟩
    (∃ o w₁, evaluateStandard countdownProgram ⟨3⟩ 20 [.int 2] w = some (.ok o, w₁) ∧
      w₁.console.output.toList = [50, 10, 49, 10, 48, 10] ∧
      evaluateStandard countdownProgram {} 20 [.int 2] w = some (.ok o, w₁)) ∧
    ∃ w₁, evaluateStandard countdownProgram ⟨2⟩ 20 [.int 2] w =
        some (.error (.stackOverflow 2), w₁) ∧
      w₁.console.output.toList = [50, 10, 49, 10] ∧
      ∀ fuel' result' w₂, evaluateStandard countdownProgram ⟨3⟩ fuel' [.int 2] w =
        some (result', w₂) → w₁.console.output.toList <+: w₂.console.output.toList := by
  intro w
  have hthree : (evaluateStandard countdownProgram ⟨3⟩ 20 [.int 2] w).map
      (fun r => (r.1.map (·.value), r.2.console.output.toList)) =
      some (.ok (.int 0), [50, 10, 49, 10, 48, 10]) := by decide +kernel
  have htwo : (evaluateStandard countdownProgram ⟨2⟩ 20 [.int 2] w).map
      (fun r => (r.1.map (·.value), r.2.console.output.toList)) =
      some (.error (.stackOverflow 2), [50, 10, 49, 10]) := by decide +kernel
  obtain ⟨⟨e | o, w₁⟩, hrun, hdone⟩ := Option.map_eq_some_iff.mp hthree
  · cases congrArg Prod.fst hdone
  obtain ⟨⟨e | _, w₂⟩, hrun', hfull⟩ := Option.map_eq_some_iff.mp htwo
  · obtain ⟨hsame, -⟩ := limit_only_cuts_off countdownProgram [.int 2] w
      (show 3 ≤ 1000 by omega) hrun
    obtain rfl : e = .stackOverflow 2 := Except.error.inj (congrArg Prod.fst hfull)
    obtain ⟨-, hcut⟩ := limit_only_cuts_off countdownProgram [.int 2] w
      (show 2 ≤ 3 by omega) hrun'
    exact ⟨⟨o, w₁, hrun, congrArg Prod.snd hdone, hsame (by rintro _ ⟨⟩)⟩, w₂, hrun',
      congrArg Prod.snd hfull, (hcut 2 rfl).2⟩
  · cases congrArg Prod.fst hfull

end Machine

end BlockIR
