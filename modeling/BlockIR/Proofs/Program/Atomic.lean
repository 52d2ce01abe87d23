import BlockIR.Proofs.Function.Reached
import BlockIR.Proofs.Program.Assembly
/-!
# Failed steps change nothing

An edit of a function and a step of an assembly leave behind what they found
when they fail. Some of them write in two places and look the second one up
after the first write, so this rests on what was asked before: an instruction is
known to be in the arena before a block lists it, both ends of an edge before one
of them changes, and a module before its new global enters the table. The
equations of the steps say so, with the same state for every error.
-/

namespace BlockIR

namespace Success

variable {σ ε α β : Type}

/-- **A transformer changes nothing when it fails**, at a state. -/
def Atomic (x : Transform σ ε α) (s : σ) : Prop :=
  ∀ e t, x.apply s = (.error e, t) → t = s

namespace Atomic

variable {x : Transform σ ε α} {f : α → Transform σ ε β} {s : σ}

/-- A success is atomic. -/
theorem of_ok {a : α} {t : σ} (h : x.apply s = (.ok a, t)) : Atomic x s := by
  intro e t' hfail
  rw [h] at hfail
  cases hfail

/-- A failure that leaves the state is atomic. -/
theorem of_error {e : ε} (h : x.apply s = (.error e, s)) : Atomic x s := by
  intro e' t hfail
  rw [h] at hfail
  cases hfail
  rfl

/-- An atomic action that fails leaves the state. -/
theorem apply_eq {e : ε} (h : Atomic x s) (he : (x.apply s).1 = .error e) :
    x.apply s = (.error e, s) := by
  have hpair : x.apply s = (.error e, (x.apply s).2) := Prod.ext he rfl
  rw [hpair, h e _ hpair]

/-- What follows a question is carried out at the same state. -/
theorem query_bind {q : σ → Except ε α} (hf : ∀ a, q s = .ok a → Atomic (f a) s) :
    Atomic (Transform.query q >>= f) s := by
  have hquery := Transform.apply_query q s
  cases hq : q s with
  | error e =>
    rw [hq] at hquery
    exact of_error (Transform.apply_bind_error hquery)
  | ok a =>
    rw [hq] at hquery
    intro e t hfail
    rw [Transform.apply_bind_ok hquery] at hfail
    exact hf a hq e t hfail

end Atomic

end Success

open Success

/-! ## Edits -/

namespace Function

/-- Replacing an instruction is atomic. -/
theorem atomic_substitute (i : InstrId) (instr : Instruction) (f : Function) :
    Atomic (substitute i instr) f :=
  Atomic.query_bind fun _ _ => Atomic.of_ok rfl

/-- Moving an instruction to another location is atomic. -/
theorem atomic_relocate (i : InstrId) (location : Location) (f : Function) :
    Atomic (relocate i location) f :=
  Atomic.query_bind fun _ _ => Atomic.of_ok rfl

/-- Attaching an instruction is atomic. -/
theorem atomic_attachAt (b : BlockId) (i : InstrId) (index : Nat) (f : Function) :
    Atomic (attachAt b i index) f := by
  intro e g hfail
  rw [apply_attachAt] at hfail
  split at hfail
  · cases hfail
    rfl
  · cases hfail
    rfl
  · -- the instruction is detached, so that only the block and the index can be wrong
    split at hfail
    · cases hfail
      rfl
    · split at hfail
      · cases hfail
        rfl
      · cases hfail

/-- Detaching an instruction is atomic. -/
theorem atomic_detach (i : InstrId) (f : Function) : Atomic (detach i) f := by
  intro e g hfail
  rw [apply_detach] at hfail
  split at hfail
  · cases hfail
    rfl
  · cases hfail

/-- An edge that has both its ends can be added. -/
theorem atomic_connect (src dst : BlockId) (f : Function) : Atomic (connect src dst) f := by
  intro e g hfail
  rw [apply_connect] at hfail
  split at hfail
  · cases hfail
    rfl
  · cases hfail
    rfl
  · split at hfail <;> cases hfail

/-- Removing an edge is atomic. -/
theorem atomic_disconnect (src dst : BlockId) (f : Function) : Atomic (disconnect src dst) f := by
  intro e g hfail
  rw [apply_disconnect] at hfail
  split at hfail
  · cases hfail
    rfl
  · cases hfail
    rfl
  · split at hfail <;> cases hfail

end Function

/-! ## Assembly steps -/

namespace Assembly

variable {α : Type} {a : Assembly}

/-- It is enough to look at a module that is there. -/
theorem atomic_requireModule_bind {m : ModuleIndex} {k : Module → Assemble α}
    (hk : ∀ row, a.modules[m]? = some row → Atomic (requireModule m >>= k) a) :
    Atomic (requireModule m >>= k) a := by
  cases hrow : a.modules[m]? with
  | none => exact Atomic.of_error (apply_requireModule_bind_unknown hrow k)
  | some row => exact hk row hrow

/-- Adding an import is atomic. -/
theorem atomic_importModule (m imported : ModuleIndex) (a : Assembly) :
    Atomic (importModule m imported) a := by
  cases hrow' : a.modules[imported]? with
  | none => exact Atomic.of_error (apply_importModule_unknown hrow')
  | some row' =>
    cases hrow : a.modules[m]? with
    | none => exact Atomic.of_error (apply_importModule_into_unknown hrow hrow')
    | some row => exact Atomic.of_ok (apply_importModule hrow hrow')

/-- Adding a global is atomic. -/
theorem atomic_ensureGlobal (m : ModuleIndex) (name : String) (a : Assembly) :
    Atomic (ensureGlobal m name) a := by
  refine atomic_requireModule_bind fun row hrow => ?_
  have happly := apply_ensureGlobal hrow name
  cases hfound : globalIn? a.globals row name with
  | some g =>
    rw [hfound] at happly
    exact Atomic.of_ok happly
  | none =>
    rw [hfound] at happly
    exact Atomic.of_ok happly

/-- Adding a function is atomic. -/
theorem atomic_defineFunction (m : ModuleIndex) (function : Function) (a : Assembly) :
    Atomic (defineFunction m function) a := by
  refine atomic_requireModule_bind fun row hrow => ?_
  have happly := apply_defineFunction hrow function
  by_cases hmem : function.name ∈ row.functions.toList.map (·.name)
  · rw [if_pos hmem] at happly
    exact Atomic.of_error happly
  · rw [if_neg hmem] at happly
    exact Atomic.of_ok happly

/-- Marking an initializer is atomic. -/
theorem atomic_markInit (ref : FunctionRef) (a : Assembly) : Atomic (markInit ref) a :=
  atomic_requireModule_bind fun _ hrow => Atomic.of_ok (apply_markInit hrow)

end Assembly

/-- **A failed edit leaves the function as it was, and a failed assembly step the
assembly**, whatever the arguments. -/
theorem failed_steps_change_nothing :
    (∀ f : Function,
      (∀ i instr, Atomic (Function.substitute i instr) f) ∧
      (∀ i location, Atomic (Function.relocate i location) f) ∧
      (∀ b i index, Atomic (Function.attachAt b i index) f) ∧
      (∀ b i, Atomic (Function.attachLast b i) f) ∧
      (∀ anchor new, Atomic (Function.attachBefore anchor new) f) ∧
      (∀ anchor new, Atomic (Function.attachAfter anchor new) f) ∧
      (∀ i, Atomic (Function.detach i) f) ∧
      (∀ src dst, Atomic (Function.connect src dst) f) ∧
      (∀ src dst, Atomic (Function.disconnect src dst) f)) ∧
    (∀ a : Assembly,
      (∀ m imported, Atomic (Assembly.importModule m imported) a) ∧
      (∀ m name, Atomic (Assembly.ensureGlobal m name) a) ∧
      (∀ m function, Atomic (Assembly.defineFunction m function) a) ∧
      (∀ ref, Atomic (Assembly.markInit ref) a)) := by
  constructor
  · intro f
    refine ⟨fun i instr => f.atomic_substitute i instr, fun i location => f.atomic_relocate i location,
      fun b i index => f.atomic_attachAt b i index, fun b i => ?_, fun anchor new => ?_,
      fun anchor new => ?_, fun i => f.atomic_detach i, fun src dst => f.atomic_connect src dst,
      fun src dst => f.atomic_disconnect src dst⟩
    · exact Atomic.query_bind fun length _ => f.atomic_attachAt b i length
    · exact Atomic.query_bind fun place _ => f.atomic_attachAt place.1 new place.2
    · exact Atomic.query_bind fun place _ => f.atomic_attachAt place.1 new (place.2 + 1)
  · intro a
    exact ⟨fun m imported => a.atomic_importModule m imported, fun m name => a.atomic_ensureGlobal m name,
      fun m function => a.atomic_defineFunction m function, fun ref => a.atomic_markInit ref⟩

/-- A function with an attached instruction and a detached one. -/
def halfAttached : Function :=
  Change.leaveAll [.createInstr (.ret (.const .null)) .unknown, .attachLast 0 0,
    .createInstr (.jump 0) .unknown] (Function.empty "f" [])

/-- An assembly of one module with that function. -/
def halfAssembled : Assembly :=
  ((Assembly.defineFunction 0 halfAttached).apply { modules := #[{ id := "m" }] }).2

/-- Each kind of failure: an instruction that is owned, unknown or detached, an
index out of range, an unknown block at either end, an unknown module and a name
that is taken. -/
theorem failed_steps_change_nothing_halfAttached :
    (Function.attachAt 0 0 1).apply halfAttached = (.error (.alreadyOwned 0 0), halfAttached) ∧
    (Function.attachAt 0 1 2).apply halfAttached =
      (.error (.indexOutOfRange 0 2 1), halfAttached) ∧
    (Function.attachLast 1 1).apply halfAttached = (.error (.unknownBlock 1), halfAttached) ∧
    (Function.attachBefore 0 2).apply halfAttached = (.error (.unknownInstr 2), halfAttached) ∧
    (Function.detach 1).apply halfAttached = (.error (.detached 1), halfAttached) ∧
    (Function.connect 0 1).apply halfAttached = (.error (.unknownBlock 1), halfAttached) ∧
    (Assembly.importModule 0 1).apply halfAssembled = (.error (.unknownModule 1), halfAssembled) ∧
    (Assembly.ensureGlobal 1 "g").apply halfAssembled =
      (.error (.unknownModule 1), halfAssembled) ∧
    (Assembly.defineFunction 0 halfAttached).apply halfAssembled =
      (.error (.duplicateFunction "m" "f"), halfAssembled) := by
  obtain ⟨-, -, hattachAt, hattachLast, hattachBefore, -, hdetach, hconnect, -⟩ :=
    failed_steps_change_nothing.1 halfAttached
  obtain ⟨himport, hglobal, hdefine, -⟩ := failed_steps_change_nothing.2 halfAssembled
  exact ⟨(hattachAt 0 0 1).apply_eq rfl, (hattachAt 0 1 2).apply_eq rfl,
    (hattachLast 1 1).apply_eq rfl, (hattachBefore 0 2).apply_eq rfl, (hdetach 1).apply_eq rfl,
    (hconnect 0 1).apply_eq rfl, (himport 0 1).apply_eq rfl, (hglobal 1 "g").apply_eq rfl,
    (hdefine 0 halfAttached).apply_eq rfl⟩

end BlockIR
