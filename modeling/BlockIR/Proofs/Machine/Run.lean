import BlockIR.Machine.Evaluate
/-!
# Runs

What a run comes to depends only on where it stands: a run that goes from one
memory to another comes to the same from either, and more steps never change
what it comes to.
-/

namespace BlockIR

namespace Machine

variable {s : Setting} {m m' m'' : Memory} {n k : Nat} {r : Except RuntimeError Value × Memory}

/-- **More steps never change what a run comes to.** -/
theorem run_mono (h : run s n m = some r) (hle : n ≤ k) : run s k m = some r := by
  induction n generalizing m k with
  | zero => cases h
  | succ n ih =>
    obtain ⟨k, rfl⟩ := Nat.exists_eq_succ_of_ne_zero (Nat.ne_of_gt (Nat.lt_of_lt_of_le n.succ_pos hle))
    rw [run] at h ⊢
    split at h
    · exact ih h (Nat.le_of_succ_le_succ hle)
    · exact h
    · exact h

/-- A run that is not finished is not finished earlier. -/
theorem run_eq_none_of_le (h : run s n m = none) (hle : k ≤ n) : run s k m = none := by
  cases hk : run s k m with
  | none => rfl
  | some r => cases (run_mono hk hle).symm.trans h

/-- **A run that stands at one memory comes to another** after some steps. -/
def Reaches (s : Setting) (m m' : Memory) : Prop :=
  ∃ k, ∀ n, run s (n + k) m = run s n m'

/-- A memory reaches itself. -/
theorem Reaches.refl (s : Setting) (m : Memory) : Reaches s m m := ⟨0, fun _ => rfl⟩

/-- What is reached from what is reached is reached. -/
theorem Reaches.trans (h : Reaches s m m') (h' : Reaches s m' m'') : Reaches s m m'' := by
  obtain ⟨k, hk⟩ := h
  obtain ⟨k', hk'⟩ := h'
  exact ⟨k' + k, fun n => by rw [← Nat.add_assoc, hk, hk']⟩

/-- A step that does not end the run takes it on. -/
theorem run_succ_of_step (h : (step s).apply m = (.ok none, m')) (n : Nat) :
    run s (n + 1) m = run s n m' := by
  rw [run, h]

/-- A step that goes on reaches what it leaves. -/
theorem reaches_of_step (h : (step s).apply m = (.ok none, m')) : Reaches s m m' :=
  ⟨1, run_succ_of_step h⟩

/-- What a run comes to later, it comes to. -/
theorem Reaches.exists_run (h : Reaches s m m') (hr : run s n m' = some r) :
    ∃ k, run s k m = some r := by
  obtain ⟨k, hk⟩ := h
  exact ⟨n + k, (hk n).trans hr⟩

/-- A run that is unfinished later is unfinished now. -/
theorem Reaches.run_eq_none (h : Reaches s m m') (hn : run s n m' = none) : run s n m = none := by
  obtain ⟨k, hk⟩ := h
  exact run_eq_none_of_le ((hk n).trans hn) (Nat.le_add_right n k)

/-! ## Evaluations -/

/-- What follows an action, unless that failed or did not finish. -/
def Finish.andThen {α β : Type} (x : Finish α) (f : α → Memory → Finish β) : Finish β :=
  match x with
  | none => none
  | some (.error e, m) => some (.error e, m)
  | some (.ok a, m) => f a m

/-- A run is a step, and the rest of the run unless the step ends it. -/
theorem run_succ (s : Setting) (n : Nat) (m : Memory) :
    run s (n + 1) m = Finish.andThen (some ((step s).apply m)) fun r m' =>
      r.elim (run s n m') fun v => some (.ok v, m') := by
  rw [run]
  rcases (step s).apply m with ⟨e | _ | v, m'⟩ <;> rfl

/-- The end of the calls of a run is the end of nothing else. -/
@[simp] theorem world_settle {α : Type} (result : Except RuntimeError α) (m : Memory) :
    (m.settle result).world = m.world := by
  cases result <;> rfl

/-- A call is begun and run, and it ends if the run fails. -/
theorem invoke_eq (s : Setting) (fuel : Nat) (ref : FunctionRef) (args : List Value) (m : Memory) :
    invoke s fuel ref args m =
      Finish.andThen (some ((enter s ref args .halt).apply m)) fun _ inner =>
        (run s fuel inner).map fun r => (r.1, r.2.settle r.1) := by
  rw [invoke]
  rcases (enter s ref args .halt).apply m with ⟨e | _, inner⟩ <;> rfl

/-- **More steps never change what an action comes to.** -/
def Steady {α : Type} (x : Nat → Option α) : Prop :=
  ∀ n k r, x n = some r → n ≤ k → x k = some r

/-- A function of a steady result is steady. -/
theorem Steady.map {α β : Type} {x : Nat → Option α} (h : Steady x) (f : α → β) :
    Steady fun n => (x n).map f := by
  intro n k r hr hle
  obtain ⟨a, ha, rfl⟩ := Option.map_eq_some_iff.mp hr
  simp only [h n k a ha hle, Option.map_some]

/-- A sequence of steady parts is steady. -/
theorem Steady.andThen {α β : Type} {x : Nat → Finish α} {f : Nat → α → Memory → Finish β}
    (hx : Steady x) (hf : ∀ a m, Steady fun n => f n a m) :
    Steady fun n => (x n).andThen (f n) := by
  intro n k r hr hle
  cases ha : x n with
  | none =>
    simp only [ha] at hr
    cases hr
  | some result =>
    simp only [ha, hx n k _ ha hle] at hr ⊢
    obtain ⟨e | a, m⟩ := result
    · exact hr
    · exact hf a m n k r hr hle

/-- Finished actions of one kind have one outcome. -/
theorem Steady.unique {α : Type} {x : Nat → Option α} {a b : α} (h : Steady x)
    (ha : x n = some a) (hb : x k = some b) : a = b := by
  have ha' := h n (max n k) a ha (Nat.le_max_left n k)
  have hb' := h k (max n k) b hb (Nat.le_max_right n k)
  exact Option.some.inj (ha'.symm.trans hb')

/-- More steps never change what a call came to. -/
theorem invoke_steady (s : Setting) (ref : FunctionRef) (args : List Value) (m : Memory) :
    Steady fun fuel => invoke s fuel ref args m := by
  unfold invoke
  rcases (enter s ref args .halt).apply m with ⟨e | _, inner⟩
  · exact fun n k r hr _ => hr
  · exact Steady.map (fun n k r hr hle => run_mono hr hle) _

/-- A module with initializer is initialized before the rest. -/
theorem initModules_cons {i : ModuleIndex} {ref : FunctionRef}
    (h : initializer? s.program i = some ref) (fuel : Nat) (rest : List ModuleIndex) (m : Memory) :
    initModules s fuel (i :: rest) m =
      (invoke s fuel ref [] m).andThen fun _ => initModules s fuel rest := by
  simp only [initModules, h]
  rcases invoke s fuel ref [] m with _ | ⟨e | _, m'⟩ <;> rfl

/-- More steps never change what an initialization came to. -/
theorem initModules_steady (s : Setting) (order : List ModuleIndex) (m : Memory) :
    Steady fun fuel => initModules s fuel order m := by
  induction order generalizing m with
  | nil => exact fun n k r hr _ => hr
  | cons i rest ih =>
    cases href : initializer? s.program i with
    | none =>
      simp only [initModules, href]
      exact ih m
    | some ref =>
      simp only [initModules_cons href]
      exact (invoke_steady s ref [] m).andThen fun _ m' => ih m'

/-- More steps never change what the call of the entry came to. -/
theorem runEntry_steady (s : Setting) (args : List Value) (m : Memory) :
    Steady fun fuel => runEntry s fuel args m :=
  (invoke_steady s s.program.entry args m).map _

/-- An evaluation initializes the modules, and then runs the entry. -/
theorem evaluate_of_checkEntry {args : List Value} (h : checkEntry s.program args = .ok ())
    (fuel : Nat) (w : World) :
    evaluate s fuel args w =
      ((initModules s fuel s.program.initOrder (startMemory s.program w)).andThen fun _ =>
        runEntry s fuel args).map fun r => (r.1, r.2.world) := by
  rw [evaluate, h]
  rcases initModules s fuel s.program.initOrder (startMemory s.program w) with
    _ | ⟨e | _, m⟩ <;> rfl

/-- **More steps never change the outcome of an evaluation.** -/
theorem evaluate_steady (s : Setting) (args : List Value) (w : World) :
    Steady fun fuel => evaluate s fuel args w := by
  cases h : checkEntry s.program args with
  | error e =>
    simp only [evaluate, h]
    exact fun n k r hr _ => hr
  | ok _ =>
    simp only [evaluate_of_checkEntry h]
    exact ((initModules_steady s _ _).andThen fun _ m => runEntry_steady s args m).map _

end Machine

end BlockIR
