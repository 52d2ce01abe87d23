import BlockIR.Proofs.Machine.Run
import BlockIR.Proofs.Machine.Step
import BlockIR.Proofs.Source.Semantics
/-!
# Runs that follow evaluations

`Follows` says of a run that it does what an evaluation does: it comes to where
a result leaves the evaluation, it fails where the evaluation fails, with the
same error in the same world, and it takes at least as many steps as loops may
take rounds where the evaluation has no result. It composes along sequences, so
the run of a whole body is read off its parts.
-/

namespace BlockIR

open Machine

namespace Source

namespace Eval

variable {α β : Type}

/-- A sequence evaluates its first part, and then its second unless that failed or
has no result. -/
theorem apply_bind (x : Eval α) (f : α → Eval β) (σ : Store) :
    (x >>= f).apply σ =
      match x.apply σ with
      | none => none
      | some (.ok a, σ') => (f a).apply σ'
      | some (.error e, σ') => some (.error e, σ') := by
  change (x σ >>= fun p : Except RuntimeError α × Store => ExceptT.bindCont f p.1 p.2) = _
  change _ = match x σ with
    | none => none
    | some (.ok a, σ') => (f a).apply σ'
    | some (.error e, σ') => some (.error e, σ')
  rcases x σ with _ | ⟨_ | a, σ'⟩ <;> rfl

theorem apply_bind_ok {x : Eval α} {f : α → Eval β} {σ σ' : Store} {a : α}
    (h : x.apply σ = some (.ok a, σ')) : (x >>= f).apply σ = (f a).apply σ' := by
  rw [apply_bind, h]

theorem apply_readGlobal {module name : String} {σ : Store} {v : Value}
    (h : σ.globals module name = some v) :
    (readGlobal module name).apply σ = some (.ok v, σ) := by
  change (declared (σ.globals module name)).apply σ = _
  rw [h]
  rfl

theorem apply_writeGlobal {module name : String} {σ : Store} {v w : Value}
    (h : σ.globals module name = some w) :
    (writeGlobal module name v).apply σ =
      some (.ok (), { σ with globals := σ.globals.set module name v }) := by
  unfold writeGlobal
  rw [apply_bind_ok (apply_readGlobal h)]
  rfl

end Eval

variable {α β : Type} {s : Setting} {n k : Nat} {m m' : Memory} {σ σ' : Store}
variable {x : Eval α} {f : α → Eval β} {post post' : α → Store → Memory → Prop}
variable {last : β → Store → Memory → Prop}

/-- **The run from a memory follows an evaluation.** -/
def Follows (s : Setting) (n : Nat) (m : Memory) (x : Eval α) (σ : Store)
    (post : α → Store → Memory → Prop) : Prop :=
  match x.apply σ with
  | none => run s n m = none
  | some (.ok a, σ') => ∃ m', Reaches s m m' ∧ post a σ' m'
  | some (.error e, σ') => ∃ k m', run s k m = some (.error e, m') ∧ m'.world = σ'.world

/-- An instruction that does not end the run takes it on. -/
theorem reaches_of_execute {fr : Frame} {rest : List Frame} {globals : Array Value} {world : World}
    {i : Instruction} (hfetch : fetch s.program fr = .ok i)
    (hexec : (execute s i).apply (.ofFrames (fr.advance :: rest) globals world) = (.ok none, m')) :
    Reaches s (.ofFrames (fr :: rest) globals world) m' :=
  reaches_of_step ((apply_step hfetch).trans hexec)

namespace Follows

theorem of_ok {a : α} (h : x.apply σ = some (.ok a, σ')) (hpost : post a σ' m) :
    Follows s n m x σ post := by
  rw [Follows, h]
  exact ⟨m, .refl s m, hpost⟩

theorem pure {a : α} (hpost : post a σ m) : Follows s n m (pure a) σ post :=
  of_ok rfl hpost

/-- The run may go on where the evaluation has ended. -/
theorem onward (h : Follows s n m x σ post)
    (hpost : ∀ a σ' m', post a σ' m' → ∃ m'', Reaches s m' m'' ∧ post' a σ' m'') :
    Follows s n m x σ post' := by
  unfold Follows at h ⊢
  generalize x.apply σ = r at h ⊢
  rcases r with _ | ⟨e | a, σ'⟩
  · exact h
  · exact h
  · obtain ⟨m', hreach, hm'⟩ := h
    obtain ⟨m'', hreach', hm''⟩ := hpost a σ' m' hm'
    exact ⟨m'', hreach.trans hreach', hm''⟩

/-- Where the run is in the end may be stated otherwise. -/
theorem imp (h : Follows s n m x σ post) (hpost : ∀ a σ' m', post a σ' m' → post' a σ' m') :
    Follows s n m x σ post' :=
  h.onward fun a σ' m' hm' => ⟨m', .refl s m', hpost a σ' m' hm'⟩

/-- A run that has so many steps has fewer. -/
theorem mono (h : Follows s n m x σ post) (hle : k ≤ n) : Follows s k m x σ post := by
  unfold Follows at h ⊢
  generalize x.apply σ = r at h ⊢
  rcases r with _ | ⟨e | a, σ'⟩
  · exact run_eq_none_of_le h hle
  · exact h
  · exact h

/-- What a run follows later, it follows. -/
theorem of_reaches (hreach : Reaches s m m') (h : Follows s n m' x σ post) :
    Follows s n m x σ post := by
  unfold Follows at h ⊢
  generalize x.apply σ = r at h ⊢
  rcases r with _ | ⟨e | a, σ'⟩
  · exact hreach.run_eq_none h
  · obtain ⟨k, m'', hrun, hworld⟩ := h
    obtain ⟨k', hrun'⟩ := hreach.exists_run hrun
    exact ⟨k', m'', hrun', hworld⟩
  · obtain ⟨m'', hreach', hm''⟩ := h
    exact ⟨m'', hreach.trans hreach', hm''⟩

/-- A step counts. -/
theorem of_step (hstep : (step s).apply m = (.ok none, m')) (h : Follows s n m' x σ post) :
    Follows s (n + 1) m x σ post := by
  have hfollows := h.of_reaches (reaches_of_step hstep)
  unfold Follows at h hfollows ⊢
  generalize x.apply σ = r at h hfollows ⊢
  rcases r with _ | ⟨e | a, σ'⟩
  · exact (run_succ_of_step hstep n).trans h
  · exact hfollows
  · exact hfollows

/-- An evaluation that comes to a result at once leaves the run where it is. -/
theorem after {a : α} (hx : x.apply σ = some (.ok a, σ')) (hf : Follows s n m (f a) σ' last) :
    Follows s n m (x >>= f) σ last := by
  rwa [Follows, Eval.apply_bind_ok hx]

/-- **A sequence is followed when its parts are**, the second from where the first
leads. -/
theorem bind (hx : Follows s n m x σ post)
    (hf : ∀ a σ' m', post a σ' m' → Follows s n m' (f a) σ' last) :
    Follows s n m (x >>= f) σ last := by
  unfold Follows at hx
  cases hr : x.apply σ with
  | none =>
    rw [hr] at hx
    rw [Follows, Eval.apply_bind, hr]
    exact hx
  | some r =>
    obtain ⟨e | a, σ'⟩ := r
    · rw [hr] at hx
      rw [Follows, Eval.apply_bind, hr]
      exact hx
    · rw [hr] at hx
      obtain ⟨m', hreach, hm'⟩ := hx
      exact after hr ((hf a σ' m' hm').of_reaches hreach)

/-- The evaluation and the run fail together. -/
theorem of_error {e : RuntimeError} (hx : x.apply σ = some (.error e, σ'))
    (hstep : (step s).apply m = (.error e, m')) (hworld : m'.world = σ'.world) :
    Follows s n m x σ post := by
  rw [Follows, hx]
  exact ⟨1, m', by rw [run, hstep], hworld⟩

theorem throw {e : RuntimeError} (hstep : (step s).apply m = (.error e, m'))
    (hworld : m'.world = σ.world) : Follows s n m (throw e : Eval α) σ post :=
  of_error rfl hstep hworld

/-- **An action on the world** is followed by an instruction that carries it out. -/
theorem effect {e : Effect α} {fr : Frame} {next : α → Frame} {rest : List Frame}
    {globals : Array Value} (hstep : (step s).apply m = conclude e fr next rest globals σ.world)
    (hpost : ∀ a world, post a { σ with world := world }
      (.ofFrames (next a :: rest) globals world)) :
    Follows s n m (Eval.effect e) σ post := by
  have hx : (Eval.effect e).apply σ =
      some ((e.apply σ.world).1, { σ with world := (e.apply σ.world).2 }) := rfl
  rw [Follows, hx]
  rcases hr : e.apply σ.world with ⟨err | a, world⟩
  · rw [conclude_error hr] at hstep
    exact ⟨1, _, by rw [run, hstep], rfl⟩
  · rw [conclude_ok hr] at hstep
    exact ⟨_, reaches_of_step hstep, hpost a world⟩

end Follows

end Source

end BlockIR
