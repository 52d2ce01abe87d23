import BlockIR.Proofs.Builtin.Answers
import BlockIR.Proofs.Text.Decimal
/-!
# Conversion between integers and text

The operations on decimal text answer by the strict reader and the writer. So
the two conversions undo each other, as far as the texts that would not be
written allow: of those that are read only minus zero is one.
-/

namespace BlockIR

open Builtin.Name

namespace Table

variable {t : Table} (ht : Table.standard = .ok t)

include ht

/-- The conversion of a text is that of the strict reader. -/
theorem answers_stringToInt (s : String) : t.Answers stringToInt [.str s]
    ((Decimal.canonicalInt64? s).elim (.error (.conversion s)) fun i => .ok (.int i)) := by
  have hd : (⟨stringToInt, .int, [.string]⟩ : Signature) ∈ Builtin.signatures := by decide
  have hrun : (stringToInt, Builtin.textToInt) ∈ Builtin.primitives := by simp [Builtin.primitives]
  refine answers_of_run ht hd hrun rfl rfl fun w => ?_
  rw [Builtin.textToInt, Builtin.onText]
  cases Decimal.canonicalInt64? s with
  | none => rfl
  | some i => rfl

/-- A text can be converted when the strict reader reads it. -/
theorem answers_canConvertToInt (s : String) : t.Answers canConvertToInt [.str s]
    (.ok (.ofBool (Decimal.canonicalInt64? s).isSome)) := by
  have hd : (⟨canConvertToInt, .int, [.string]⟩ : Signature) ∈ Builtin.signatures := by decide
  have hrun : (canConvertToInt, Builtin.isIntText) ∈ Builtin.primitives := by
    simp [Builtin.primitives]
  exact answers_of_run ht hd hrun rfl rfl fun _ => rfl

/-- The text of an integer is decimal. -/
theorem answers_intToString (i : Int64) : t.Answers intToString [.int i]
    (.ok (.str (Decimal.ofInt64 i))) := by
  have hd : (⟨intToString, .string, [.int]⟩ : Signature) ∈ Builtin.signatures := by decide
  have hrun : (intToString, Builtin.intToText) ∈ Builtin.primitives := by simp [Builtin.primitives]
  exact answers_of_run ht hd hrun rfl rfl fun _ => rfl

/-- A text is converted exactly if the strict reader accepts it. -/
theorem answers_stringToInt_ok {s : String} {v : Value} :
    t.Answers stringToInt [.str s] (.ok v) ↔
      ∃ i, Decimal.canonicalInt64? s = some i ∧ v = .int i := by
  have hanswer := answers_stringToInt ht s
  constructor
  · intro h
    have heq := hanswer.unique h
    cases hread : Decimal.canonicalInt64? s with
    | none =>
      rw [hread] at heq
      cases heq
    | some i =>
      rw [hread] at heq
      cases heq
      exact ⟨i, rfl, rfl⟩
  · rintro ⟨i, hread, rfl⟩
    rw [hread] at hanswer
    exact hanswer

/-- A text can be converted exactly if its conversion succeeds. -/
theorem answers_canConvertToInt_one {s : String} :
    t.Answers canConvertToInt [.str s] (.ok (.int 1)) ↔
      ∃ v, t.Answers stringToInt [.str s] (.ok v) := by
  have hanswer := answers_canConvertToInt ht s
  simp only [answers_stringToInt_ok ht]
  cases hread : Decimal.canonicalInt64? s with
  | none =>
    rw [hread] at hanswer
    constructor
    · intro h
      have heq := hanswer.unique h
      cases heq
    · rintro ⟨v, i, hsome, -⟩
      cases hsome
  | some i =>
    rw [hread] at hanswer
    exact ⟨fun _ => ⟨.int i, i, rfl, rfl⟩, fun _ => hanswer⟩

end Table

/-- **Conversion between integers and text.** The strict reader accepts exactly
the texts of the form `-?(0|[1-9][0-9]*)` whose value is in the 64-bit range, and
reads that value. Through the standard table a text can be converted exactly
when its conversion succeeds; otherwise the conversion fails and names the text.
An integer is read back from its text, and an accepted text is written again
for its integer unless it is minus zero. -/
theorem integer_text_conversion :
    (∀ (s : String) (i : Int), (Decimal.canonicalInt64? s).map Int64.toInt = some i ↔
      s.toList ∈ Decimal.strictForm.matches' ∧ Decimal.value s.toList = i ∧
        -2 ^ 63 ≤ i ∧ i < 2 ^ 63) ∧
    ∃ t, Table.standard = .ok t ∧
      (∀ s i, t.Answers stringToInt [.str s] (.ok (.int i)) ↔
        Decimal.canonicalInt64? s = some i) ∧
      (∀ s, t.Answers canConvertToInt [.str s] (.ok (.int 1)) ↔
        ∃ v, t.Answers stringToInt [.str s] (.ok v)) ∧
      (∀ s, (¬ ∃ v, t.Answers stringToInt [.str s] (.ok v)) →
        t.Answers canConvertToInt [.str s] (.ok (.int 0)) ∧
        t.Answers stringToInt [.str s] (.error (.conversion s))) ∧
      (∀ i, ∃ s, t.Answers intToString [.int i] (.ok (.str s)) ∧
        t.Answers stringToInt [.str s] (.ok (.int i))) ∧
      ∀ s i, t.Answers stringToInt [.str s] (.ok (.int i)) → s ≠ "-0" →
        t.Answers intToString [.int i] (.ok (.str s)) := by
  obtain ⟨t, ht, -⟩ := Table.exists_standard
  have hread : ∀ s i, t.Answers stringToInt [.str s] (.ok (.int i)) ↔
      Decimal.canonicalInt64? s = some i := by
    intro s i
    rw [Table.answers_stringToInt_ok ht]
    constructor
    · rintro ⟨i', h, heq⟩
      cases heq
      exact h
    · intro h
      exact ⟨i, h, rfl⟩
  refine ⟨fun s i => ?_, t, ht, hread, fun s => ?_, fun s hfails => ?_, fun i => ?_, ?_⟩
  · rw [← Decimal.exists_toInt_eq, Option.map_eq_some_iff]
    simp only [Decimal.canonicalInt64?_eq_some]
    constructor
    · rintro ⟨n, ⟨hform, hvalue⟩, rfl⟩
      exact ⟨hform, hvalue, n, rfl⟩
    · rintro ⟨hform, hvalue, n, rfl⟩
      exact ⟨n, ⟨hform, hvalue⟩, rfl⟩
  · exact Table.answers_canConvertToInt_one ht
  · have hnone : Decimal.canonicalInt64? s = none := by
      by_contra hsome
      obtain ⟨i, hi⟩ := Option.ne_none_iff_exists'.mp hsome
      exact hfails ⟨.int i, (hread s i).mpr hi⟩
    have hcheck := Table.answers_canConvertToInt ht s
    have hconvert := Table.answers_stringToInt ht s
    rw [hnone] at hcheck hconvert
    exact ⟨hcheck, hconvert⟩
  · exact ⟨_, Table.answers_intToString ht i, (hread _ i).mpr (Decimal.canonicalInt64?_ofInt64 i)⟩
  · intro s i hs hzero
    have htext := Table.answers_intToString ht i
    rw [Decimal.ofInt64_of_canonicalInt64? ((hread s i).mp hs) hzero] at htext
    exact htext

/-- The least integer, minus zero, a leading zero and a number out of range. -/
theorem integer_text_conversion_least : ∃ t, Table.standard = .ok t ∧
    t.Answers intToString [.int Int64.minValue] (.ok (.str "-9223372036854775808")) ∧
    t.Answers stringToInt [.str "-0"] (.ok (.int 0)) ∧
    t.Answers canConvertToInt [.str "007"] (.ok (.int 0)) ∧
    t.Answers stringToInt [.str "9223372036854775808"]
      (.error (.conversion "9223372036854775808")) := by
  obtain ⟨-, t, ht, hread, -, hfails, -, hwrite⟩ := integer_text_conversion
  have hnot : ∀ s, Decimal.canonicalInt64? s = none →
      ¬ ∃ v, t.Answers stringToInt [.str s] (.ok v) := by
    intro s hnone
    simp [Table.answers_stringToInt_ok ht, hnone]
  refine ⟨t, ht, hwrite _ _ ((hread _ _).mpr ?_) (by decide), (hread _ _).mpr ?_,
    (hfails _ (hnot _ ?_)).1, (hfails _ (hnot _ ?_)).2⟩
  · decide +kernel
  · decide +kernel
  · decide +kernel
  · decide +kernel

end BlockIR
