import BlockIR.CommandLine.Arguments
import BlockIR.Proofs.Builtin.Conversion
/-!
# Program arguments and the conversion of text

A program argument is read leniently, a text inside the program strictly. The
two readers differ in what they accept and agree on the value: wherever the
strict one reads an integer, the argument is that integer.
-/

namespace BlockIR

namespace CommandLine

open Builtin.Name

variable {s : String} {n : Int64}

/-- An argument is an integer when the lenient reader reads it. -/
theorem argument_eq_int : argument s = .int n ↔ Decimal.int64? s = some n := by
  unfold argument
  cases Decimal.int64? s with
  | none => simp
  | some i => simp

/-- An argument that is no integer is the text itself. -/
theorem argument_eq_str (h : Decimal.int64? s = none) : argument s = .str s := by
  rw [argument, h]

/-- **Program arguments and the conversion of text agree.** An argument is an
integer exactly if it is a sign of either kind or none and then digits, with a
value in the 64-bit range, and that value is the integer; every other argument
is its text, unchanged. What is converted inside a program to an integer is
that integer as an argument, and so is the text of every integer. -/
theorem arguments_agree_with_conversion :
    (∀ (s : String) (n : Int64), argument s = .int n ↔
      s.toList ∈ Decimal.lenientForm.matches' ∧ Decimal.value s.toList = n.toInt) ∧
    (∀ s : String, ¬ (s.toList ∈ Decimal.lenientForm.matches' ∧
        -2 ^ 63 ≤ Decimal.value s.toList ∧ Decimal.value s.toList < 2 ^ 63) →
      argument s = .str s) ∧
    (∀ s n, Decimal.canonicalInt64? s = some n → argument s = .int n) ∧
    ∃ t, Table.standard = .ok t ∧ ∀ i, ∃ s,
      t.Answers intToString [.int i] (.ok (.str s)) ∧ argument s = .int i := by
  have hstrict : ∀ s n, Decimal.canonicalInt64? s = some n → argument s = .int n := by
    intro s n h
    exact argument_eq_int.mpr (Decimal.int64?_of_canonicalInt64? h)
  refine ⟨fun s n => ?_, fun s hnot => ?_, hstrict, ?_⟩
  · rw [argument_eq_int, Decimal.int64?_eq_some]
  · refine argument_eq_str ?_
    by_contra hsome
    obtain ⟨n, hn⟩ := Option.ne_none_iff_exists'.mp hsome
    obtain ⟨hform, hvalue⟩ := Decimal.int64?_eq_some.mp hn
    exact hnot ⟨hform, Decimal.exists_toInt_eq.mp ⟨n, hvalue⟩⟩
  · obtain ⟨t, ht, -⟩ := Table.exists_standard
    refine ⟨t, ht, fun i => ⟨_, Table.answers_intToString ht i, ?_⟩⟩
    exact hstrict _ i (Decimal.canonicalInt64?_ofInt64 i)

/-- The greatest integer, and one more with a sign and zeros. -/
theorem arguments_agree_with_conversion_greatest :
    argument "9223372036854775807" = .int Int64.maxValue ∧
    argument "+0009223372036854775808" = .str "+0009223372036854775808" := by
  obtain ⟨-, htext, hstrict, -⟩ := arguments_agree_with_conversion
  refine ⟨hstrict _ _ (by decide +kernel), htext _ ?_⟩
  rintro ⟨-, -, hhigh⟩
  exact absurd hhigh (by decide +kernel)

end CommandLine

end BlockIR
