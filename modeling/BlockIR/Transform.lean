/-!
# State transformers that may fail

A transformer takes a state and returns its result together with the state it
leaves behind, also when it fails: what it changed before failing stays
changed. `Transform.apply` runs a transformer, and the lemmas say what it does
to each way of making one.
-/

namespace BlockIR

/-- **A transformer of a state that may fail.** -/
abbrev Transform (σ ε : Type) := ExceptT ε (StateM σ)

namespace Transform

variable {σ ε α β : Type}

/-- Run a transformer: its result, and the state it leaves behind. -/
@[inline] def apply (x : Transform σ ε α) (s : σ) : Except ε α × σ :=
  x.run.run s

/-- Ask the state something, and change nothing. -/
@[inline] def query (q : σ → Except ε α) : Transform σ ε α :=
  ExceptT.mk fun s => (q s, s)

@[simp] theorem apply_pure (a : α) (s : σ) :
    (pure a : Transform σ ε α).apply s = (.ok a, s) := rfl

@[simp] theorem apply_throw (e : ε) (s : σ) :
    (throw e : Transform σ ε α).apply s = (.error e, s) := rfl

@[simp] theorem apply_get (s : σ) :
    (get : Transform σ ε σ).apply s = (.ok s, s) := rfl

@[simp] theorem apply_set (s s' : σ) :
    (set s' : Transform σ ε PUnit).apply s = (.ok ⟨⟩, s') := rfl

@[simp] theorem apply_modify (g : σ → σ) (s : σ) :
    (modify g : Transform σ ε PUnit).apply s = (.ok ⟨⟩, g s) := rfl

@[simp] theorem apply_query (q : σ → Except ε α) (s : σ) :
    (query q).apply s = (q s, s) := rfl

/-- A state action lifted to a transformer cannot fail. -/
@[simp] theorem apply_lift (x : StateM σ α) (s : σ) :
    (liftM x : Transform σ ε α).apply s = (.ok (x.run s).1, (x.run s).2) := rfl

/-- **A sequence runs its first part, and its second part on what that leaves
behind unless it failed.** -/
theorem apply_bind (x : Transform σ ε α) (f : α → Transform σ ε β) (s : σ) :
    (x >>= f).apply s =
      match x.apply s with
      | (.ok a, s') => (f a).apply s'
      | (.error e, s') => (.error e, s') := by
  simp only [apply, ExceptT.run_bind, StateT.run_bind]
  cases h : (x.run).run s with
  | mk r s' => cases r <;> rfl

/-- A sequence whose first part succeeds goes on with its second part. -/
theorem apply_bind_ok {x : Transform σ ε α} {f : α → Transform σ ε β} {s s' : σ} {a : α}
    (h : x.apply s = (.ok a, s')) : (x >>= f).apply s = (f a).apply s' := by
  rw [apply_bind, h]

/-- A sequence whose first part fails fails there. -/
theorem apply_bind_error {x : Transform σ ε α} {f : α → Transform σ ε β} {s s' : σ} {e : ε}
    (h : x.apply s = (.error e, s')) : (x >>= f).apply s = (.error e, s') := by
  rw [apply_bind, h]

end Transform

end BlockIR
