import BlockIR.Transform
/-!
# When a computation succeeds, and where it leads

A sequence succeeds when each of its parts does in turn, and a check of a list
when the check of every member does. `Within` bounds what a transformer does to
the state, whether it succeeds or fails. These facts take a computation apart
without opening the transformer it is written in.
-/

namespace BlockIR

namespace Success

variable {ε σ α β : Type}

/-- A sequence succeeds when its parts do, one after the other. -/
theorem bind_eq_ok {x : Except ε α} {f : α → Except ε β} {b : β} :
    (x >>= f) = .ok b ↔ ∃ a, x = .ok a ∧ f a = .ok b := by
  cases x with
  | error e => simp [bind, Except.bind]
  | ok a => simp [bind, Except.bind]

/-- A step without result followed by another. -/
theorem then_eq_ok {x : Except ε Unit} {f : Unit → Except ε β} {b : β} :
    (x >>= f) = .ok b ↔ x = .ok () ∧ f () = .ok b := by
  rw [bind_eq_ok]
  exact ⟨fun ⟨_, hx, hf⟩ => ⟨hx, hf⟩, fun ⟨hx, hf⟩ => ⟨(), hx, hf⟩⟩

@[simp] theorem pure_eq_ok {a b : α} : (pure a : Except ε α) = .ok b ↔ a = b := by
  simp [pure, Except.pure]

@[simp] theorem throw_ne_ok {e : ε} {a : α} : (throw e : Except ε α) ≠ .ok a := by
  simp [throw, throwThe, MonadExceptOf.throw]

/-- What is a success has a result. -/
theorem exists_of_toBool {x : Except ε α} (h : x.toBool = true) : ∃ a, x = .ok a := by
  cases x with
  | error e => cases h
  | ok a => exact ⟨a, rfl⟩

/-- A sequence fails when one of its parts does. -/
theorem bind_eq_error {x : Except ε α} {f : α → Except ε β} {e : ε} :
    (x >>= f) = .error e ↔ x = .error e ∨ ∃ a, x = .ok a ∧ f a = .error e := by
  cases x with
  | error e => simp [bind, Except.bind]
  | ok a => simp [bind, Except.bind]

/-- A loop begins with its first round. -/
theorem forM_cons (check : α → Except ε Unit) (x : α) (rest : List α) :
    (x :: rest).forM check = (check x >>= fun _ => rest.forM check) := rfl

/-- A check of a list succeeds when it succeeds at every member. -/
theorem forM_eq_ok {xs : List α} {check : α → Except ε Unit} :
    xs.forM check = .ok () ↔ ∀ x ∈ xs, check x = .ok () := by
  induction xs with
  | nil => exact ⟨fun _ x hx => absurd hx List.not_mem_nil, fun _ => rfl⟩
  | cons x rest ih => rw [forM_cons, then_eq_ok, List.forall_mem_cons, ih]

/-- It fails with what it reports of some member. -/
theorem exists_of_forM_eq_error {xs : List α} {check : α → Except ε Unit} {e : ε}
    (h : xs.forM check = .error e) : ∃ x ∈ xs, check x = .error e := by
  induction xs with
  | nil => cases h
  | cons x rest ih =>
    rw [forM_cons] at h
    rcases bind_eq_error.mp h with hx | ⟨_, -, hrest⟩
    · exact ⟨x, List.mem_cons_self, hx⟩
    · obtain ⟨y, hy, herr⟩ := ih hrest
      exact ⟨y, List.mem_cons_of_mem _ hy, herr⟩

/-- Checks that agree on the members of a list agree on the list. -/
theorem forM_congr {xs : List α} {check check' : α → Except ε Unit}
    (h : ∀ x ∈ xs, check x = check' x) : xs.forM check = xs.forM check' := by
  induction xs with
  | nil => rfl
  | cons x rest ih =>
    obtain ⟨hx, hrest⟩ := List.forall_mem_cons.mp h
    rw [forM_cons, forM_cons, hx, ih hrest]

/-! ## Deciding a condition -/

/-- **A computation decides a condition**: it succeeds exactly when the condition
holds, with a good result, and otherwise fails with an error of some kind. -/
def Decides (x : Except ε α) (fits : Prop) (good : α → Prop) (bad : ε → Prop) : Prop :=
  match x with
  | .ok a => fits ∧ good a
  | .error e => ¬ fits ∧ bad e

namespace Decides

variable {x : Except ε α} {f : α → Except ε β} {fits fits' : Prop}
variable {good good' : α → Prop} {last : β → Prop} {bad bad' : ε → Prop}

theorem of_ok {a : α} (h : x = .ok a) (hgood : good a) : Decides x True good bad := by
  rw [h]
  exact ⟨trivial, hgood⟩

theorem of_error {e : ε} (h : x = .error e) (hfits : ¬ fits) (hbad : bad e) :
    Decides x fits good bad := by
  rw [h]
  exact ⟨hfits, hbad⟩

/-- The condition may be stated otherwise, and the promises weakened. -/
theorem imp (hx : Decides x fits good bad) (hfits : fits ↔ fits')
    (hgood : ∀ a, fits → good a → good' a) (hbad : ∀ e, ¬ fits → bad e → bad' e) :
    Decides x fits' good' bad' := by
  cases x with
  | error e => exact ⟨fun h => hx.1 (hfits.mpr h), hbad e hx.1 hx.2⟩
  | ok a => exact ⟨hfits.mp hx.1, hgood a hx.1 hx.2⟩

/-- A result is good and what the computation came to. -/
theorem traced (hx : Decides x fits good bad) :
    Decides x fits (fun a => x = .ok a ∧ good a) bad := by
  cases x with
  | error e => exact hx
  | ok a => exact ⟨hx.1, rfl, hx.2⟩

/-- A sequence decides the conjunction of what its parts decide. -/
theorem bind (hx : Decides x fits good bad) (hf : ∀ a, good a → Decides (f a) fits' last bad) :
    Decides (x >>= f) (fits ∧ fits') last bad := by
  cases x with
  | error e => exact ⟨fun h => hx.1 h.1, hx.2⟩
  | ok a =>
    have hnext := hf a hx.2
    change Decides (f a) (fits ∧ fits') last bad
    exact hnext.imp ⟨fun h => ⟨hx.1, h⟩, fun h => h.2⟩ (fun _ _ h => h) fun _ _ h => h

/-- **A loop decides what its steps decide**, by an invariant of what has been
done. -/
theorem foldlM {σ τ : Type} {step : σ → τ → Except ε σ} {fits : τ → Prop}
    (invariant : List τ → σ → Prop) (xs : List τ) {s : σ}
    (hstep : ∀ done x rest s, xs = done ++ x :: rest → invariant done s →
      Decides (step s x) (fits x) (invariant (done ++ [x])) bad) (hs : invariant [] s) :
    Decides (xs.foldlM step s) (∀ x ∈ xs, fits x) (invariant xs) bad := by
  have hrest : ∀ (rest done : List τ) (s : σ), xs = done ++ rest → invariant done s →
      Decides (rest.foldlM step s) (∀ x ∈ rest, fits x) (invariant xs) bad := by
    intro rest
    induction rest with
    | nil =>
      intro done s heq hs
      rw [List.append_nil] at heq
      exact ⟨nofun, heq ▸ hs⟩
    | cons x rest ih =>
      intro done s heq hs
      rw [List.foldlM_cons, List.forall_mem_cons]
      exact (hstep done x rest s heq hs).bind fun s' hs' => ih _ s' (by simp [heq]) hs'
  exact hrest xs [] s rfl hs

/-- A success shows that the condition holds, and what is good. -/
theorem of_eq_ok {a : α} (hx : Decides x fits good bad) (h : x = .ok a) : fits ∧ good a := by
  rw [h] at hx
  exact hx

/-- A failure shows that the condition does not hold, and what is bad. -/
theorem of_eq_error {e : ε} (hx : Decides x fits good bad) (h : x = .error e) :
    ¬ fits ∧ bad e := by
  rw [h] at hx
  exact hx

end Decides

/-- A sequence of state transformers succeeds when its parts do, the second on
the state that the first leaves. -/
theorem run_bind_eq_ok {x : StateT σ (Except ε) α} {f : α → StateT σ (Except ε) β} {s s' : σ}
    {b : β} :
    (x >>= f) s = .ok (b, s') ↔ ∃ a t, x s = .ok (a, t) ∧ f a t = .ok (b, s') := by
  rw [show (x >>= f) s = (x s >>= fun p => f p.1 p.2) from rfl, bind_eq_ok]
  constructor
  · rintro ⟨⟨a, t⟩, hx, hf⟩
    exact ⟨a, t, hx, hf⟩
  · rintro ⟨a, t, hx, hf⟩
    exact ⟨(a, t), hx, hf⟩

/-- A sequence of transformers succeeds when its parts do, the second on the
state that the first leaves. -/
theorem apply_bind_eq_ok {x : Transform σ ε α} {f : α → Transform σ ε β} {s s' : σ} {b : β} :
    (x >>= f).apply s = (.ok b, s') ↔
      ∃ a t, x.apply s = (.ok a, t) ∧ (f a).apply t = (.ok b, s') := by
  rw [Transform.apply_bind]
  rcases x.apply s with ⟨_ | a, t⟩
  · simp
  · constructor
    · intro h
      exact ⟨a, t, rfl, h⟩
    · rintro ⟨a', t', hx, hf⟩
      cases hx
      exact hf

/-! ## Where a transformer leads -/

/-- **A transformer stays within a relation**: it leads from every state to a
related one, also when it fails. -/
def Within (R : σ → σ → Prop) (x : Transform σ ε α) : Prop :=
  ∀ s, R s (x.apply s).2

namespace Within

variable {R : σ → σ → Prop} {x : Transform σ ε α} {f : α → Transform σ ε β}

theorem pure (hrefl : ∀ s, R s s) (a : α) : Within R (pure a : Transform σ ε α) :=
  fun s => hrefl s

theorem throw (hrefl : ∀ s, R s s) (e : ε) : Within R (throw e : Transform σ ε α) :=
  fun s => hrefl s

/-- A change is within a relation that it respects. -/
theorem modify {g : σ → σ} (hg : ∀ s, R s (g s)) :
    Within R (modify g : Transform σ ε PUnit) :=
  fun s => hg s

theorem get (hrefl : ∀ s, R s s) : Within R (get : Transform σ ε σ) :=
  fun s => hrefl s

/-- An action that cannot fail is within a relation that it respects. -/
theorem lift {y : StateM σ α} (hy : ∀ s, R s (y.run s).2) :
    Within R (liftM y : Transform σ ε α) :=
  fun s => hy s

/-- A sequence stays within a transitive relation when its parts do. -/
theorem bind (htrans : ∀ {s t u}, R s t → R t u → R s u) (hx : Within R x)
    (hf : ∀ a, Within R (f a)) : Within R (x >>= f) := by
  intro s
  have hs := hx s
  rw [Transform.apply_bind]
  rcases hrun : x.apply s with ⟨e | a, t⟩
  · rw [hrun] at hs
    exact hs
  · rw [hrun] at hs
    exact htrans hs (hf a t)

end Within

/-! ## What a transformer comes to -/

/-- **A transformer meets a promise at a state**: one about its result and the
state it leaves when it succeeds, another about its error and that state when
it fails. -/
def Meets (x : Transform σ ε α) (s : σ) (good : α → σ → Prop) (bad : ε → σ → Prop) : Prop :=
  match x.apply s with
  | (.ok a, t) => good a t
  | (.error e, t) => bad e t

namespace Meets

variable {x : Transform σ ε α} {f : α → Transform σ ε β} {s : σ}
variable {good good' : α → σ → Prop} {bad : ε → σ → Prop}

theorem pure {a : α} (h : good a s) : Meets (pure a : Transform σ ε α) s good bad := h

theorem throw {e : ε} (h : bad e s) : Meets (throw e : Transform σ ε α) s good bad := h

theorem get {bad : ε → σ → Prop} :
    Meets (get : Transform σ ε σ) s (fun a t => a = s ∧ t = s) bad := ⟨rfl, rfl⟩

theorem lift {y : StateM σ α} :
    Meets (liftM y : Transform σ ε α) s (fun a t => (a, t) = y.run s) bad := rfl

theorem of_ok {a : α} {t : σ} (hx : x.apply s = (.ok a, t)) (h : good a t) :
    Meets x s good bad := by
  simp only [Meets, hx]
  exact h

theorem of_error {e : ε} {t : σ} (hx : x.apply s = (.error e, t)) (h : bad e t) :
    Meets x s good bad := by
  simp only [Meets, hx]
  exact h

/-- A promise is about what a transformer comes to. -/
theorem congr {y : Transform σ ε α} {t : σ} (hxy : x.apply s = y.apply t)
    (hy : Meets y t good bad) : Meets x s good bad := by
  unfold Meets
  rw [hxy]
  exact hy

/-- A promise may be weakened. -/
theorem imp (hx : Meets x s good bad) (h : ∀ a t, good a t → good' a t) :
    Meets x s good' bad := by
  unfold Meets at hx ⊢
  generalize x.apply s = r at hx ⊢
  obtain ⟨e | a, t⟩ := r
  · exact hx
  · exact h a t hx

/-- A sequence keeps a promise when its second part keeps it after whatever the
first part promises. -/
theorem bind {good : α → σ → Prop} {good' : β → σ → Prop} (hx : Meets x s good bad)
    (hf : ∀ a t, good a t → Meets (f a) t good' bad) : Meets (x >>= f) s good' bad := by
  unfold Meets at hx ⊢
  rw [Transform.apply_bind]
  generalize x.apply s = r at hx ⊢
  obtain ⟨e | a, t⟩ := r
  · exact hx
  · exact hf a t hx

end Meets

end Success

end BlockIR
