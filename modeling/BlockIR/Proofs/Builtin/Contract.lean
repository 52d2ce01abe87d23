import BlockIR.Proofs.Builtin.Standard
import Mathlib.Data.List.Basic
/-!
# The contract of a call

A call of a builtin operation is checked against its declaration in three
steps: the name, the number of arguments, the kind of each. A call that fails
one of them is refused, and `Refuses` says what that means without looking at
the order of the checks: the call comes to the same error whatever the
implementations are, and leaves the world as it was. A call that passes all of
them runs the implementation once, and `conclude` is all that is done to what
it came to.
-/

namespace BlockIR

/-- The argument in a place fits the parameter there. -/
def FitsAt (params : List ParamType) (args : List Value) (i : Nat) : Prop :=
  ∀ (p : ParamType) (k : Kind), params[i]? = some p → args[i]?.map Value.kind = some k →
    p.accepts k = true

/-- **The first argument that does not fit its parameter**, with the type that
was expected and the kind that was given. -/
structure FirstMisfit (params : List ParamType) (args : List Value) (i : Nat) (expected : ParamType)
    (actual : Kind) : Prop where
  param : params[i]? = some expected
  argument : args[i]?.map Value.kind = some actual
  refused : expected.accepts actual = false
  first : ∀ j < i, FitsAt params args j

/-- What a call comes to once the implementation has run: an error is passed
on, and a value only if its kind is the declared one. -/
def Signature.conclude (s : Signature) (name : String) :
    Except RuntimeError Value × World → Except RuntimeError Value × World
  | (.ok v, w) =>
    if s.result.accepts v.kind then (.ok v, w)
    else (.error (.brokenPromise name s.result v.kind), w)
  | (.error e, w) => (.error e, w)

namespace Table

variable {t : Table} {name : String} {args : List Value} {s : Signature} {err : RuntimeError}

/-- The declarations of a table. -/
def signatures (t : Table) : List Signature :=
  t.entries.map (·.signature)

/-- **A call is refused with an error**: it comes to that error under every
choice of implementations, and the world stays as it is. -/
def Refuses (t : Table) (name : String) (args : List Value) (err : RuntimeError) : Prop :=
  ∀ t' : Table, t'.signatures = t.signatures → ∀ w, (t'.call name args).apply w = (.error err, w)

/-- The table with every implementation changed in one way. -/
def reworked (t : Table) (change : Primitive → Primitive) : Table :=
  ⟨t.entries.map fun e => ⟨e.signature, change e.run⟩⟩

/-- The implementation marks the world whenever it runs. -/
def marking (mark : World → World) (run : Primitive) : Primitive := fun args => do
  modify mark
  run args

/-- The refusal that a declaration calls for. -/
def refusal? (t : Table) (name : String) (args : List Value) : Option RuntimeError :=
  match t.signature? name with
  | none => some (.unknownBuiltin name)
  | some s =>
    if args.length ≠ s.arity then
      some (.arity ("built-in operation " ++ name) s.arity args.length)
    else (mismatch? 0 s.params args).map fun found => .argumentKind name found.1 found.2.1 found.2.2

/-! ## The first misfit -/

section Misfit

variable {p q : ParamType} {v : Value} {params : List ParamType} {rest : List Value} {k : Kind}
variable {i m : Nat}

theorem fitsAt_zero : FitsAt (q :: params) (v :: rest) 0 ↔ q.accepts v.kind = true := by
  simp [FitsAt]

theorem fitsAt_succ : FitsAt (q :: params) (v :: rest) (i + 1) ↔ FitsAt params rest i := Iff.rfl

/-- An argument that does not fit, in first place. -/
theorem firstMisfit_zero : FirstMisfit (q :: params) (v :: rest) 0 p k ↔
    q.accepts v.kind = false ∧ q = p ∧ v.kind = k := by
  constructor
  · intro h
    obtain rfl : q = p := by simpa using h.param
    obtain rfl : v.kind = k := by simpa using h.argument
    exact ⟨h.refused, rfl, rfl⟩
  · rintro ⟨hrefused, rfl, rfl⟩
    exact ⟨rfl, rfl, hrefused, fun j hj => absurd hj (by omega)⟩

/-- In a later place it comes after a first argument that fits. -/
theorem firstMisfit_succ : FirstMisfit (q :: params) (v :: rest) (i + 1) p k ↔
    q.accepts v.kind = true ∧ FirstMisfit params rest i p k := by
  constructor
  · intro h
    refine ⟨fitsAt_zero.mp (h.first 0 (by omega)), h.param, h.argument, h.refused, ?_⟩
    intro j hj
    exact fitsAt_succ.mp (h.first (j + 1) (by omega))
  · rintro ⟨hfits, h⟩
    refine ⟨h.param, h.argument, h.refused, ?_⟩
    intro j hj
    cases j with
    | zero => exact fitsAt_zero.mpr hfits
    | succ j => exact fitsAt_succ.mpr (h.first j (by omega))

theorem mismatch?_eq_none (n : Nat) (params : List ParamType) (args : List Value) :
    mismatch? n params args = none ↔ ∀ i, FitsAt params args i := by
  induction params generalizing n args with
  | nil => simp [mismatch?, FitsAt]
  | cons q qs ih =>
    cases args with
    | nil => simp [mismatch?, FitsAt]
    | cons v vs =>
      rw [mismatch?]
      split
      · rename_i hfits
        rw [ih]
        constructor
        · intro h i
          cases i with
          | zero => exact fitsAt_zero.mpr hfits
          | succ i => exact fitsAt_succ.mpr (h i)
        · intro h i
          exact fitsAt_succ.mp (h (i + 1))
      · rename_i hrefused
        simp only [reduceCtorEq, false_iff]
        intro h
        exact hrefused (fitsAt_zero.mp (h 0))

/-- **The search finds the least index that does not fit**, counted from where
it begins. -/
theorem mismatch?_eq_some (n : Nat) (params : List ParamType) (args : List Value) :
    mismatch? n params args = some (m, p, k) ↔ ∃ i, m = n + i ∧ FirstMisfit params args i p k := by
  induction params generalizing n args with
  | nil =>
    simp only [mismatch?, reduceCtorEq, false_iff]
    rintro ⟨i, -, h⟩
    simpa using h.param
  | cons q qs ih =>
    cases args with
    | nil =>
      simp only [mismatch?, reduceCtorEq, false_iff]
      rintro ⟨i, -, h⟩
      simpa using h.argument
    | cons v vs =>
      rw [mismatch?]
      split
      · rename_i hfits
        rw [ih]
        constructor
        · rintro ⟨i, rfl, h⟩
          exact ⟨i + 1, by omega, firstMisfit_succ.mpr ⟨hfits, h⟩⟩
        · rintro ⟨i, rfl, h⟩
          -- the head fits, so the misfit is further on
          cases i with
          | zero => exact absurd hfits (by simp [(firstMisfit_zero.mp h).1])
          | succ i => exact ⟨i, by omega, (firstMisfit_succ.mp h).2⟩
      · rename_i hrefused
        constructor
        · intro h
          obtain ⟨rfl, heq⟩ : n = m ∧ q = p ∧ v.kind = k := by simpa using h
          exact ⟨0, rfl, firstMisfit_zero.mpr ⟨by simpa using hrefused, heq⟩⟩
        · rintro ⟨i, rfl, h⟩
          cases i with
          | zero =>
            obtain ⟨-, rfl, rfl⟩ := firstMisfit_zero.mp h
            rfl
          | succ i => exact absurd (firstMisfit_succ.mp h).1 hrefused

end Misfit

/-! ## What a call depends on -/

theorem signature?_eq_find? (t : Table) (name : String) :
    t.signature? name = t.signatures.find? fun s => s.name == name := by
  rw [signature?, entry?, signatures, List.find?_map]
  rfl

/-- A name has a declaration when it is in the table. -/
theorem signature?_eq_none : t.signature? name = none ↔ name ∉ t.names := by
  rw [signature?_eq_find?, List.find?_eq_none, names, ascending, List.mem_mergeSort, signatures]
  simp

/-- The refusal depends on the declarations alone. -/
theorem refusal?_congr {t' : Table} (h : t'.signatures = t.signatures) :
    t'.refusal? name args = t.refusal? name args := by
  rw [refusal?, refusal?, signature?_eq_find?, signature?_eq_find?, h]

theorem signatures_reworked (t : Table) (change : Primitive → Primitive) :
    (t.reworked change).signatures = t.signatures := by
  rw [signatures, reworked, List.map_map]
  rfl

theorem entry?_reworked (t : Table) (change : Primitive → Primitive) (name : String) :
    entry? (t.reworked change) name =
      (t.entry? name).map fun e => ⟨e.signature, change e.run⟩ := by
  unfold entry? reworked
  rw [List.find?_map]
  rfl

/-! ## Refused or run -/

/-- A call that a declaration refuses comes to the refusal. -/
theorem apply_call_refused (h : t.refusal? name args = some err) (w : World) :
    (t.call name args).apply w = (.error err, w) := by
  unfold refusal? signature? at h
  unfold call
  cases he : t.entry? name with
  | none =>
    rw [he] at h
    cases h
    rfl
  | some e =>
    simp only [he, Option.map_some] at h
    simp only
    split at h
    · rename_i harity
      cases h
      rw [if_pos harity]
      rfl
    · rename_i harity
      rw [if_neg harity]
      obtain ⟨⟨i, p, k⟩, hfound, rfl⟩ := Option.map_eq_some_iff.mp h
      rw [hfound]
      rfl

/-- A call that its declaration does not refuse runs the implementation. -/
theorem apply_call_run {e : Entry} (he : t.entry? name = some e)
    (h : t.refusal? name args = none) (w : World) :
    (t.call name args).apply w = e.signature.conclude name ((e.run args).apply w) := by
  unfold refusal? signature? at h
  simp only [he, Option.map_some] at h
  unfold call
  simp only [he]
  split at h
  · cases h
  · rename_i harity
    rw [if_neg harity, Option.map_eq_none_iff.mp h]
    rcases hrun : (e.run args).apply w with ⟨err | v, w'⟩
    · exact Transform.apply_bind_error hrun
    · refine (Transform.apply_bind_ok hrun).trans ?_
      rw [Signature.conclude]
      split <;> rfl

/-- The entry under a name that is not refused. -/
theorem exists_entry_of_refusal? (h : t.refusal? name args = none) :
    ∃ e, t.entry? name = some e := by
  unfold refusal? signature? at h
  cases he : t.entry? name with
  | none =>
    rw [he] at h
    cases h
  | some e => exact ⟨e, rfl⟩

/-- A call through a table whose operations all fail alike. -/
theorem apply_call_failing (h : t.refusal? name args = none) (w : World) :
    ((t.reworked fun _ _ => throw err).call name args).apply w = (.error err, w) := by
  obtain ⟨e, he⟩ := exists_entry_of_refusal? h
  have hentry : entry? (t.reworked fun _ _ => throw err) name =
      some ⟨e.signature, fun _ => throw err⟩ := by
    rw [entry?_reworked, he, Option.map_some]
  rw [apply_call_run hentry (by rw [refusal?_congr (signatures_reworked t _), h])]
  rfl

/-- **A call is refused exactly with the refusal of its declaration.** A call
that is not refused follows the implementation: two that fail in different ways
tell it from a refusal. -/
theorem refuses_iff : t.Refuses name args err ↔ t.refusal? name args = some err := by
  let w : World := ⟨{}, {}, .steady 0⟩
  constructor
  · intro h
    cases hrefusal : t.refusal? name args with
    | some err' =>
      have heq := (apply_call_refused hrefusal w).symm.trans (h t rfl w)
      cases heq
      rfl
    | none =>
      -- no one error is what both of these tables come to
      have hone := h _ (signatures_reworked t fun _ _ => throw (.stackOverflow 0)) w
      have htwo := h _ (signatures_reworked t fun _ _ => throw (.stackOverflow 1)) w
      rw [apply_call_failing hrefusal] at hone htwo
      have := hone.trans htwo.symm
      cases this
  · intro h t' ht' w
    exact apply_call_refused ((refusal?_congr ht').trans h) w

theorem refuses_unknown_iff :
    t.Refuses name args (.unknownBuiltin name) ↔ name ∉ t.names := by
  rw [refuses_iff, ← signature?_eq_none, refusal?]
  cases t.signature? name with
  | none => simp
  | some s =>
    simp only [reduceCtorEq, iff_false]
    split
    · simp
    · simp

/-- With the name known, the number of arguments is next. -/
theorem refuses_arity_iff (hs : t.signature? name = some s) :
    t.Refuses name args (.arity ("built-in operation " ++ name) s.arity args.length) ↔
      args.length ≠ s.arity := by
  rw [refuses_iff, refusal?, hs]
  by_cases harity : args.length ≠ s.arity
  · simp [harity]
  · simp [harity]

/-- With their number right, the kinds of the arguments are last. -/
theorem refuses_kind_iff (hs : t.signature? name = some s) (harity : args.length = s.arity)
    {i : Nat} {p : ParamType} {k : Kind} :
    t.Refuses name args (.argumentKind name i p k) ↔ FirstMisfit s.params args i p k := by
  have hfirst : mismatch? 0 s.params args = some (i, p, k) ↔ FirstMisfit s.params args i p k := by
    rw [mismatch?_eq_some]
    constructor
    · rintro ⟨j, rfl, h⟩
      rwa [Nat.zero_add]
    · intro h
      exact ⟨i, (Nat.zero_add i).symm, h⟩
  rw [refuses_iff, refusal?, hs, ← hfirst]
  simp [harity, Option.map_eq_some_iff]

theorem refusal?_eq_none (hs : t.signature? name = some s) (harity : args.length = s.arity)
    (hfit : ∀ i, FitsAt s.params args i) : t.refusal? name args = none := by
  rw [refusal?, hs]
  simp [harity, (mismatch?_eq_none 0 s.params args).mpr hfit]

/-- **The implementation runs once**: a mark that it makes whenever it runs is
found on the world once. -/
theorem apply_call_marking (h : t.refusal? name args = none) (mark : World → World) (w : World) :
    ((t.reworked (marking mark)).call name args).apply w = (t.call name args).apply (mark w) := by
  obtain ⟨e, he⟩ := exists_entry_of_refusal? h
  have hentry : entry? (t.reworked (marking mark)) name =
      some ⟨e.signature, marking mark e.run⟩ := by
    rw [entry?_reworked, he, Option.map_some]
  have hmark : (marking mark e.run args).apply w = (e.run args).apply (mark w) :=
    Transform.apply_bind_ok (Transform.apply_modify mark w)
  rw [apply_call_run hentry (by rw [refusal?_congr (signatures_reworked t _), h]),
    apply_call_run he h, hmark]

/-- A name in the table has an entry there. -/
theorem exists_entry_of_mem (h : name ∈ t.names) :
    ∃ e ∈ t.entries, e.signature.name = name ∧ t.entry? name = some e := by
  cases he : t.entry? name with
  | none => exact absurd h (signature?_eq_none.mp (by rw [signature?, he, Option.map_none]))
  | some e =>
    have hname : e.signature.name = name := by simpa using List.find?_some he
    exact ⟨e, List.mem_of_find?_eq_some he, hname, rfl⟩

/-- **Every call keeps the contract of its operation.** It is refused for an
unknown name, else for the number of arguments, else for the first argument
that does not fit. Otherwise the implementation runs once, and its result is
passed on unless its kind is not the declared one. Through the standard table
no call ends with a defect or a broken promise. -/
theorem call_keeps_contract :
    (∀ (t : Table) (name : String) (args : List Value),
      (t.Refuses name args (.unknownBuiltin name) ↔ name ∉ t.names) ∧
      (name ∈ t.names → ∃ e ∈ t.entries, e.signature.name = name ∧
        (t.Refuses name args
            (.arity ("built-in operation " ++ name) e.signature.arity args.length) ↔
          args.length ≠ e.signature.arity) ∧
        (args.length = e.signature.arity →
          (∀ i p k, t.Refuses name args (.argumentKind name i p k) ↔
            FirstMisfit e.signature.params args i p k) ∧
          ((∀ i, FitsAt e.signature.params args i) → ∀ w,
            (t.call name args).apply w = e.signature.conclude name ((e.run args).apply w) ∧
            ∀ mark, ((t.reworked (marking mark)).call name args).apply w =
              (t.call name args).apply (mark w))))) ∧
    ∃ t, Table.standard = .ok t ∧ ∀ name args w err w',
      (t.call name args).apply w = (.error err, w') →
        (∀ defect, err ≠ .internal defect) ∧
        ∀ op promised returned, err ≠ .brokenPromise op promised returned := by
  refine ⟨fun t name args => ⟨refuses_unknown_iff, fun hname => ?_⟩, ?_⟩
  · obtain ⟨e, hmem, hename, he⟩ := exists_entry_of_mem hname
    have hs : t.signature? name = some e.signature := by rw [signature?, he, Option.map_some]
    refine ⟨e, hmem, hename, refuses_arity_iff hs, fun harity => ⟨fun i p k => ?_, ?_⟩⟩
    · exact refuses_kind_iff hs harity
    · intro hfit w
      have hadmitted : t.refusal? name args = none := refusal?_eq_none hs harity hfit
      exact ⟨apply_call_run he hadmitted w, fun mark => apply_call_marking hadmitted mark w⟩
  · obtain ⟨t, ht, honest⟩ := Table.exists_standard
    refine ⟨t, ht, fun name args w err w' hrun => ?_⟩
    have hreport : err.isDefect = false := by
      have hsound := call_sound honest name args w
      simp only [Success.Meets, hrun] at hsound
      exact RuntimeError.isDefect_of_isReport hsound
    constructor
    · rintro defect rfl
      cases hreport
    · rintro op promised returned rfl
      cases hreport

/-- A table with an operation that promises a number and returns a word. -/
def boastful : Table :=
  ⟨[⟨⟨"boast", .int, [.int, .any]⟩, fun _ => pure (.str "many")⟩]⟩

theorem call_keeps_contract_boastful :
    boastful.Refuses "murmur" [] (.unknownBuiltin "murmur") ∧
    boastful.Refuses "boast" [] (.arity "built-in operation boast" 2 0) ∧
    boastful.Refuses "boast" [.null, .null] (.argumentKind "boast" 0 .int .null) ∧
    ∀ w, (boastful.call "boast" [.int 1, .null]).apply w =
      (.error (.brokenPromise "boast" .int .string), w) := by
  have hcontract := call_keeps_contract.1 boastful
  refine ⟨(hcontract "murmur" []).1.mpr (by decide +kernel), ?_, ?_, fun w => ?_⟩
  · obtain ⟨e, he, -, harity, -⟩ := (hcontract "boast" []).2 (by decide +kernel)
    obtain rfl := List.mem_singleton.mp he
    exact harity.mpr (by decide)
  · obtain ⟨e, he, -, -, hkind⟩ := (hcontract "boast" [.null, .null]).2 (by decide +kernel)
    obtain rfl := List.mem_singleton.mp he
    exact ((hkind rfl).1 0 .int .null).mpr ⟨rfl, rfl, rfl, fun j hj => absurd hj (by omega)⟩
  · obtain ⟨e, he, -, -, hrun⟩ := (hcontract "boast" [.int 1, .null]).2 (by decide +kernel)
    obtain rfl := List.mem_singleton.mp he
    exact ((hrun rfl).2 ((mismatch?_eq_none 0 _ _).mp (by decide)) w).1

end Table

end BlockIR
