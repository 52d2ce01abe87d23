import BlockIR.Proofs.Builtin.Answers
import Mathlib.Data.Int.ModEq
import Mathlib.Data.Rat.Floor
import Mathlib.Tactic.Linarith
/-!
# Arithmetic of 64 bits

Sums, differences and products wrap around: `WrapsTo` says so with congruence
modulo `2 ^ 64` alone. Quotients are stated against the exact quotient, a
rational number, and remainders by what ties them to the quotient. The one pair
whose quotient is out of range has its own rule.
-/

namespace BlockIR

open Builtin Name

/-- **An integer wraps around to one of 64 bits**: that one, and no other, is
congruent to it. -/
structure WrapsTo (i : Int) (n : Int64) : Prop where
  congruent : n.toInt ≡ i [ZMOD 2 ^ 64]
  unique : ∀ n' : Int64, n'.toInt ≡ i [ZMOD 2 ^ 64] → n' = n

/-- A rational number without its fraction. -/
def towardZero (x : ℚ) : Int :=
  if 0 ≤ x then ⌊x⌋ else ⌈x⌉

/-- **Quotient and remainder of a division**: the quotient is the exact one
without its fraction, unless that is out of range, and the remainder is what is
then missing, with the sign of the dividend. -/
structure QuotRem (a b q r : Int64) : Prop where
  recombined : q.toInt * b.toInt + r.toInt ≡ a.toInt [ZMOD 2 ^ 64]
  small : |r.toInt| < |b.toInt|
  sign : r = 0 ∨ r.toInt.sign = a.toInt.sign
  truncated : ¬ (a = Int64.minValue ∧ b = -1) →
    q.toInt = towardZero ((a.toInt : ℚ) / (b.toInt : ℚ))
  wrapped : a = Int64.minValue → b = -1 → q = Int64.minValue ∧ r = 0

/-- The remainder around zero is congruent. -/
theorem bmod_modEq (i : Int) : i.bmod (2 ^ 64) ≡ i [ZMOD 2 ^ 64] :=
  Int.bmod_emod

/-- The wrapped integer is the balanced remainder. -/
theorem wrapsTo_of_bmod {i : Int} {n : Int64} (h : n.toInt = i.bmod (2 ^ 64)) : WrapsTo i n := by
  have hcongruent : n.toInt ≡ i [ZMOD 2 ^ 64] := by
    rw [h]
    exact bmod_modEq i
  refine ⟨hcongruent, fun n' h' => ?_⟩
  have hmod : n'.toInt % 2 ^ 64 = n.toInt % 2 ^ 64 := h'.trans hcongruent.symm
  have hlow := Int64.le_toInt n
  have hhigh := Int64.toInt_lt n
  have hlow' := Int64.le_toInt n'
  have hhigh' := Int64.toInt_lt n'
  rw [← Int64.toInt_inj]
  omega

/-! ## Division -/

/-- Division by a positive number rounds toward zero. -/
theorem tdiv_of_pos (a : Int) {b : Int} (hb : 0 < b) :
    a.tdiv b = towardZero ((a : ℚ) / (b : ℚ)) := by
  obtain ⟨k, rfl⟩ := Int.eq_ofNat_of_zero_le hb.le
  have hk : (0 : ℚ) < (k : Int) := by exact_mod_cast hb
  unfold towardZero
  split
  · rename_i hx
    have ha : 0 ≤ a := by
      have hax := mul_nonneg hx hk.le
      rw [div_mul_cancel₀ _ hk.ne'] at hax
      exact_mod_cast hax
    rw [Int.tdiv_eq_ediv_of_nonneg ha, Int.cast_natCast, Rat.floor_intCast_div_natCast]
  · rename_i hx
    have ha : a ≤ 0 := by
      by_contra hpos
      refine hx (div_nonneg ?_ hk.le)
      exact_mod_cast (not_le.mp hpos).le
    -- the ceiling of a negative number is the floor of its opposite, negated
    have hceil : ⌈(a : ℚ) / ((k : Int) : ℚ)⌉ = -⌊((-a : Int) : ℚ) / (k : ℚ)⌋ := by
      rw [Int.cast_neg, neg_div, Int.floor_neg, neg_neg, Int.cast_natCast]
    rw [hceil, Rat.floor_intCast_div_natCast, ← Int.tdiv_eq_ediv_of_nonneg (by omega),
      Int.neg_tdiv, neg_neg]

/-- **Integer division truncates the exact quotient.** -/
theorem tdiv_eq_towardZero (a : Int) {b : Int} (hb : b ≠ 0) :
    a.tdiv b = towardZero ((a : ℚ) / (b : ℚ)) := by
  rcases lt_or_gt_of_ne hb with hneg | hpos
  · have hswap := tdiv_of_pos (-a) (Int.neg_pos_of_neg hneg)
    rw [Int.neg_tdiv, Int.tdiv_neg, neg_neg, Int.cast_neg, Int.cast_neg, neg_div_neg_eq] at hswap
    exact hswap
  · exact tdiv_of_pos a hpos

/-- A remainder has the sign of the dividend. -/
theorem sign_tmod (a b : Int) : a.tmod b = 0 ∨ (a.tmod b).sign = a.sign := by
  rcases Int.lt_trichotomy a 0 with ha | rfl | ha
  · have hnonneg := Int.tmod_nonneg b (Int.neg_nonneg_of_nonpos ha.le)
    rw [Int.neg_tmod] at hnonneg
    rcases eq_or_lt_of_le hnonneg with hzero | hneg
    · exact .inl (by omega)
    · exact .inr (by rw [Int.sign_eq_neg_one_of_neg ha, Int.sign_eq_neg_one_of_neg (by omega)])
  · exact .inl (Int.zero_tmod b)
  · rcases eq_or_lt_of_le (Int.tmod_nonneg b ha.le) with hzero | hpos
    · exact .inl hzero.symm
    · exact .inr (by rw [Int.sign_eq_one_of_pos ha, Int.sign_eq_one_of_pos hpos])

variable {a b : Int64}

theorem toInt_ne_zero (hb : b ≠ 0) : b.toInt ≠ 0 := by
  rw [← Int64.toInt_zero, ne_eq, Int64.toInt_inj]
  exact hb

/-- **The quotient and the remainder of 64-bit integers** are what they should
be, for every divisor other than zero. -/
theorem quotRem_div_mod (hb : b ≠ 0) : QuotRem a b (a / b) (a % b) where
  recombined := by
    rw [Int64.toInt_div, Int64.toInt_mod]
    have hwrap := ((bmod_modEq (a.toInt.tdiv b.toInt)).mul_right b.toInt).add_right
      (a.toInt.tmod b.toInt)
    rw [Int.tdiv_mul_add_tmod] at hwrap
    exact hwrap
  small := by
    rw [Int64.toInt_mod, Int.abs_eq_natAbs, Int.abs_eq_natAbs, Int.natAbs_tmod]
    exact_mod_cast Nat.mod_lt _ (Int.natAbs_pos.mpr (toInt_ne_zero hb))
  sign := by
    rw [← Int64.toInt_inj, Int64.toInt_mod]
    exact sign_tmod a.toInt b.toInt
  truncated := by
    intro hrange
    rw [← tdiv_eq_towardZero _ (toInt_ne_zero hb)]
    -- a quotient can be out of range only for this one dividend and this one divisor
    by_cases ha : a = Int64.minValue
    · exact Int64.toInt_div_of_ne_right a b fun hb' => hrange ⟨ha, hb'⟩
    · exact Int64.toInt_div_of_ne_left a b ha
  wrapped := by
    rintro rfl rfl
    decide

/-! ## The operations -/

/-- **The integer operations over all integers of 64 bits.** Addition,
subtraction and multiplication return what the exact result wraps around to.
Division and remainder fail for a zero divisor, then whatever the dividend and
the world, and for no other. -/
theorem integer_operations : ∃ t, Table.standard = .ok t ∧ ∀ a b : Int64,
    (∃ n, t.Answers intAdd [.int a, .int b] (.ok (.int n)) ∧ WrapsTo (a.toInt + b.toInt) n) ∧
    (∃ n, t.Answers intSub [.int a, .int b] (.ok (.int n)) ∧ WrapsTo (a.toInt - b.toInt) n) ∧
    (∃ n, t.Answers intMul [.int a, .int b] (.ok (.int n)) ∧ WrapsTo (a.toInt * b.toInt) n) ∧
    (∀ op ∈ [intDiv, intMod],
      (t.Answers op [.int a, .int b] (.error (.divisionByZero op)) ↔ b = 0) ∧
      (b = 0 → ∀ v w w', (t.call op [.int a, .int b]).apply w ≠ (.ok v, w'))) ∧
    (b ≠ 0 → ∃ q r, t.Answers intDiv [.int a, .int b] (.ok (.int q)) ∧
      t.Answers intMod [.int a, .int b] (.ok (.int r)) ∧ QuotRem a b q r) := by
  obtain ⟨t, ht, -⟩ := Table.exists_standard
  have hdiv : (intDiv, division intDiv (· / ·)) ∈ primitives := by simp [primitives]
  have hmod : (intMod, division intMod (· % ·)) ∈ primitives := by simp [primitives]
  refine ⟨t, ht, fun a b => ⟨?_, ?_, ?_, ?_, ?_⟩⟩
  · exact ⟨_, Table.answers_arithmetic ht (by decide) (by simp [primitives]) a b,
      wrapsTo_of_bmod (Int64.toInt_add a b)⟩
  · exact ⟨_, Table.answers_arithmetic ht (by decide) (by simp [primitives]) a b,
      wrapsTo_of_bmod (Int64.toInt_sub a b)⟩
  · exact ⟨_, Table.answers_arithmetic ht (by decide) (by simp [primitives]) a b,
      wrapsTo_of_bmod (Int64.toInt_mul a b)⟩
  · intro op hop
    have hzero : t.Answers op [.int a, .int b] (.error (.divisionByZero op)) ↔ b = 0 := by
      rcases List.mem_pair.mp hop with rfl | rfl
      · exact Table.answers_divisionByZero_iff ht (by decide) hdiv a b
      · exact Table.answers_divisionByZero_iff ht (by decide) hmod a b
    exact ⟨hzero, fun hb v w w' => (hzero.mpr hb).ne_ok w w' v⟩
  · intro hb
    have hquot := Table.answers_division ht (by decide) hdiv a b
    have hrem := Table.answers_division ht (by decide) hmod a b
    rw [if_neg hb] at hquot hrem
    exact ⟨a / b, a % b, hquot, hrem, quotRem_div_mod hb⟩

/-- The least integer by minus one, and a divisor of zero. -/
theorem integer_operations_least : ∃ t, Table.standard = .ok t ∧
    t.Answers intDiv [.int Int64.minValue, .int (-1)] (.ok (.int Int64.minValue)) ∧
    t.Answers intMod [.int Int64.minValue, .int (-1)] (.ok (.int 0)) ∧
    t.Answers intDiv [.int 0, .int 0] (.error (.divisionByZero intDiv)) ∧
    ∀ v w w', (t.call intMod [.int Int64.minValue, .int 0]).apply w ≠ (.ok v, w') := by
  obtain ⟨t, ht, hops⟩ := integer_operations
  obtain ⟨q, r, hquot, hrem, hdivision⟩ := (hops Int64.minValue (-1)).2.2.2.2 (by decide)
  obtain ⟨rfl, rfl⟩ := hdivision.wrapped rfl rfl
  exact ⟨t, ht, hquot, hrem, ((hops 0 0).2.2.2.1 intDiv (by decide)).1.mpr rfl,
    ((hops Int64.minValue 0).2.2.2.1 intMod (by decide)).2 rfl⟩

end BlockIR
