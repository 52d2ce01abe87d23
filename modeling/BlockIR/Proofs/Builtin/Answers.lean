import BlockIR.Proofs.Builtin.Contract
import BlockIR.Proofs.Builtin.Linking
/-!
# What calls through the standard table come to

A name has one declaration and one implementation, so the standard table holds
under it what the two lists say. A call that fits its declaration then comes to
what the implementation does. Most of the standard operations neither ask for
the world nor change it: such a call has an answer, the same in every world.
-/

namespace BlockIR

open Builtin Name

/-- **What an operator makes of two integers**, for arithmetic and order. Division
is not defined for all. -/
def Operator.onInts? (a b : Int64) : Operator → Option Value
  | .add => some (.int (a + b))
  | .sub => some (.int (a - b))
  | .mul => some (.int (a * b))
  | .eq => some (.ofBool (a = b))
  | .lt => some (.ofBool (a < b))
  | .leq => some (.ofBool (a ≤ b))
  | .gt => some (.ofBool (b < a))
  | .geq => some (.ofBool (b ≤ a))
  | _ => none

namespace Table

variable {t : Table} {name : String} {args : List Value} {answer : Except RuntimeError Value}

/-- **A call has an answer**: it comes to it in every world, and leaves the
world as it is. -/
def Answers (t : Table) (name : String) (args : List Value) (answer : Except RuntimeError Value) :
    Prop :=
  ∀ w, (t.call name args).apply w = (answer, w)

/-- A call has one answer at most. -/
theorem Answers.unique {answer' : Except RuntimeError Value} (h : t.Answers name args answer)
    (h' : t.Answers name args answer') : answer = answer' := by
  have heq := (h ⟨{}, {}, .steady 0⟩).symm.trans (h' ⟨{}, {}, .steady 0⟩)
  cases heq
  rfl

/-- A call that fails in every world returns a value in none. -/
theorem Answers.ne_ok {e : RuntimeError} (h : t.Answers name args (.error e)) (w w' : World)
    (v : Value) : (t.call name args).apply w ≠ (.ok v, w') := by
  rw [h w]
  nofun

/-! ## Entries of the standard table -/

section Standard

variable {d : Signature} {run : Primitive}

/-- The standard table has the standard signatures. -/
theorem signatures_of_standard (ht : Table.standard = .ok t) :
    t.signatures = Builtin.signatures := by
  rw [Table.standard_eq] at ht
  cases ht
  have hfollow := Registry.signature_filterMap Registry.missing_standard
  rw [Registry.signatures_standard] at hfollow
  exact hfollow

/-- **The standard table holds the standard declarations and implementations.** -/
theorem entry?_standard (ht : Table.standard = .ok t) (hd : d ∈ Builtin.signatures)
    (hrun : (d.name, run) ∈ primitives) : t.entry? d.name = some ⟨d, run⟩ := by
  have hname : d.name ∈ t.names := by
    rw [← signatures_of_standard ht, signatures] at hd
    obtain ⟨e, he, rfl⟩ := List.mem_map.mp hd
    rw [names, ascending, List.mem_mergeSort]
    exact List.mem_map_of_mem he
  obtain ⟨⟨d', run'⟩, hmem, hename, he⟩ := exists_entry_of_mem hname
  obtain ⟨hd', hrun'⟩ := mem_standard ht hmem
  obtain rfl : d' = d := List.inj_on_of_nodup_map signature_names_nodup hd' hd hename
  have hpair := List.inj_on_of_nodup_map Registry.primitive_names_nodup hrun' hrun rfl
  cases hpair
  exact he

/-- **A call that fits its declaration comes to what the implementation comes
to.** -/
theorem apply_call_standard (ht : Table.standard = .ok t) (hd : d ∈ Builtin.signatures)
    (hrun : (d.name, run) ∈ primitives) (harity : args.length = d.arity)
    (hkinds : mismatch? 0 d.params args = none) {w w' : World}
    (hresult : (run args).apply w = (answer, w')) : (t.call d.name args).apply w = (answer, w') := by
  have he := entry?_standard ht hd hrun
  have hs : t.signature? d.name = some d := by rw [signature?, he, Option.map_some]
  have hadmitted : t.refusal? d.name args = none :=
    refusal?_eq_none hs harity ((mismatch?_eq_none 0 d.params args).mp hkinds)
  rw [apply_call_run he hadmitted, hresult]
  cases answer with
  | error e => rfl
  | ok v =>
    have hkind := honest_of_mem hd hrun args harity hkinds w
    simp only [Effect.Sound, Success.Meets, hresult] at hkind
    rw [Signature.conclude, if_pos hkind]

/-- If the implementation leaves every world as it is, the call has an answer. -/
theorem answers_of_run (ht : Table.standard = .ok t) (hd : d ∈ Builtin.signatures)
    (hrun : (d.name, run) ∈ primitives) (harity : args.length = d.arity)
    (hkinds : mismatch? 0 d.params args = none) (hanswer : ∀ w, (run args).apply w = (answer, w)) :
    t.Answers d.name args answer :=
  fun w => apply_call_standard ht hd hrun harity hkinds (hanswer w)

end Standard

/-! ## The answers of the families -/

variable (ht : Table.standard = .ok t)

include ht

/-- A standard arithmetic operation answers with its function. -/
theorem answers_arithmetic {op : String} {f : Int64 → Int64 → Int64}
    (hd : onIntsSignature op ∈ Builtin.signatures) (hrun : (op, arithmetic op f) ∈ primitives)
    (a b : Int64) : t.Answers op [.int a, .int b] (.ok (.int (f a b))) :=
  answers_of_run ht hd hrun rfl rfl fun _ => rfl

/-- A standard comparison answers with its test. -/
theorem answers_comparison {op : String} {f : Int64 → Int64 → Bool}
    (hd : onIntsSignature op ∈ Builtin.signatures) (hrun : (op, comparison op f) ∈ primitives)
    (a b : Int64) : t.Answers op [.int a, .int b] (.ok (.ofBool (f a b))) :=
  answers_of_run ht hd hrun rfl rfl fun _ => rfl

/-- A standard equality answers with whether the values are the same. -/
theorem answers_equality {op : String} {f : Bool → Bool}
    (hd : (⟨op, .int, [.any, .any]⟩ : Signature) ∈ Builtin.signatures)
    (hrun : (op, equality op f) ∈ primitives) (a b : Value) :
    t.Answers op [a, b] (.ok (.ofBool (f (a = b)))) :=
  answers_of_run ht hd hrun rfl rfl fun _ => rfl

/-- A division fails for a zero divisor alone. -/
theorem answers_division {op : String} {f : Int64 → Int64 → Int64}
    (hd : onIntsSignature op ∈ Builtin.signatures) (hrun : (op, division op f) ∈ primitives)
    (a b : Int64) : t.Answers op [.int a, .int b]
      (if b = 0 then .error (.divisionByZero op) else .ok (.int (f a b))) := by
  refine answers_of_run ht hd hrun rfl rfl fun w => ?_
  change (Transform.apply (if b = 0 then _ else _) w) = _
  split <;> rfl

/-- A standard division fails only for a divisor of zero. -/
theorem answers_divisionByZero_iff {op : String} {f : Int64 → Int64 → Int64}
    (hd : onIntsSignature op ∈ Builtin.signatures) (hrun : (op, division op f) ∈ primitives)
    (a b : Int64) : t.Answers op [.int a, .int b] (.error (.divisionByZero op)) ↔ b = 0 := by
  have hanswer := answers_division ht hd hrun a b
  constructor
  · intro h
    by_contra hb
    rw [if_neg hb] at hanswer
    have heq := hanswer.unique h
    cases heq
  · intro hb
    rw [if_pos hb] at hanswer
    exact hanswer

/-- **Operators on integers have answers**, the ones that are defined for all. -/
theorem answers_operator {op : Operator} {a b : Int64} {v : Value} (h : op.onInts? a b = some v) :
    t.Answers op.builtin [.int a, .int b] (.ok v) := by
  cases op with
  | add =>
    have hrun : (intAdd, arithmetic intAdd (· + ·)) ∈ primitives := by simp [primitives]
    cases h
    exact answers_arithmetic ht (by decide) hrun a b
  | sub =>
    have hrun : (intSub, arithmetic intSub (· - ·)) ∈ primitives := by simp [primitives]
    cases h
    exact answers_arithmetic ht (by decide) hrun a b
  | mul =>
    have hrun : (intMul, arithmetic intMul (· * ·)) ∈ primitives := by simp [primitives]
    cases h
    exact answers_arithmetic ht (by decide) hrun a b
  | eq =>
    have hrun : (anyEq, equality anyEq id) ∈ primitives := by simp [primitives]
    have hanswer := answers_equality ht (by decide) hrun (.int a) (.int b)
    have hsame : decide (Value.int a = Value.int b) = decide (a = b) := by simp
    rw [hsame] at hanswer
    cases h
    exact hanswer
  | lt =>
    have hrun : (intLt, comparison intLt fun a b => a < b) ∈ primitives := by simp [primitives]
    cases h
    exact answers_comparison ht (by decide) hrun a b
  | leq =>
    have hrun : (intLeq, comparison intLeq fun a b => a ≤ b) ∈ primitives := by simp [primitives]
    cases h
    exact answers_comparison ht (by decide) hrun a b
  | gt =>
    have hrun : (intGt, comparison intGt fun a b => b < a) ∈ primitives := by simp [primitives]
    cases h
    exact answers_comparison ht (by decide) hrun a b
  | geq =>
    have hrun : (intGeq, comparison intGeq fun a b => b ≤ a) ∈ primitives := by simp [primitives]
    cases h
    exact answers_comparison ht (by decide) hrun a b
  | neq | and | or | div | mod | concat => cases h

/-! ## Operations that ask for the world -/

theorem apply_arrayLength (a : Address) (w : World) :
    (t.call arrayLength [.array a]).apply w = (.ok (.int (saturate (w.heap.length a))), w) := by
  have hd : (⟨arrayLength, .int, [.array]⟩ : Signature) ∈ Builtin.signatures := by decide
  have hrun : (arrayLength, lengthOf) ∈ primitives := by simp [primitives]
  exact apply_call_standard ht hd hrun rfl rfl rfl

/-- A print returns null, unless the console does not take the line. -/
theorem apply_print (v : Value) (w : World) : (t.call print [v]).apply w =
    (((w.console.printLine (w.heap.text v)).1.mapError (.io print)).map fun _ => .null,
      { w with console := (w.console.printLine (w.heap.text v)).2 }) := by
  have hd : (⟨print, .any, [.any]⟩ : Signature) ∈ Builtin.signatures := by decide
  have hrun : (print, printValue) ∈ primitives := by simp [primitives]
  have hline : (Effect.printLine print (w.heap.text v)).apply w =
      ((w.console.printLine (w.heap.text v)).1.mapError (.io print),
        { w with console := (w.console.printLine (w.heap.text v)).2 }) := rfl
  refine apply_call_standard ht hd hrun rfl rfl ?_
  rw [printValue, Transform.apply_bind_ok (Transform.apply_get w)]
  cases hresult : (w.console.printLine (w.heap.text v)).1 with
  | error fault =>
    rw [hresult] at hline
    exact Transform.apply_bind_error hline
  | ok _ =>
    rw [hresult] at hline
    exact Transform.apply_bind_ok hline

end Table

end BlockIR
