import BlockIR.Text.Decimal
import Mathlib.Computability.RegularExpressions
import Mathlib.Data.Nat.Digits.Defs
import Mathlib.Tactic.IntervalCases
/-!
# Decimal text, its forms and its values

A form of text is a regular expression, and the number that a text denotes is
the sum of its digits by place, with its sign. Neither refers to the readers:
this file shows that each reader accepts exactly the texts of its form whose
number is in range, and reads that number. What is written is read back, and
what the strict reader accepts is what would be written, minus zero apart.
-/

namespace BlockIR

namespace Decimal

/-! ## Forms and values -/

/-- One of some characters. -/
def oneOf (chars : List Char) : RegularExpression Char :=
  chars.foldr (fun c r => .char c + r) 0

/-- A decimal digit. -/
def digit : RegularExpression Char :=
  oneOf ['0', '1', '2', '3', '4', '5', '6', '7', '8', '9']

/-- A decimal digit other than zero. -/
def nonzeroDigit : RegularExpression Char :=
  oneOf ['1', '2', '3', '4', '5', '6', '7', '8', '9']

/-- A run of digits. -/
def digits : RegularExpression Char :=
  digit * digit.star

/-- Zero alone, or digits that do not begin with zero. -/
def numeral : RegularExpression Char :=
  .char '0' + nonzeroDigit * digit.star

/-- **The strict form**, `-?(0|[1-9][0-9]*)`. -/
def strictForm : RegularExpression Char :=
  (1 + .char '-') * numeral

/-- **The lenient form**, `[+-]?[0-9]+`. -/
def lenientForm : RegularExpression Char :=
  (1 + oneOf ['+', '-']) * digits

/-- The number that a run of digits denotes: the sum of the digits, each times
the power of ten of its place. -/
def magnitude (cs : List Char) : Nat :=
  Nat.ofDigits 10 (cs.reverse.map fun c => c.toNat - '0'.toNat)

/-- **The number that an optionally signed run of digits denotes.** -/
def value : List Char → Int
  | '+' :: cs => (magnitude cs : Int)
  | '-' :: cs => -(magnitude cs : Int)
  | cs => (magnitude cs : Int)

variable {c : Char} {cs : List Char} {s : String} {i : Int} {n : Int64}

/-! ## Texts of a form -/

theorem mem_char : cs ∈ (RegularExpression.char c).matches' ↔ cs = [c] := Iff.rfl

/-- One of several characters is a text of one of them. -/
theorem mem_oneOf {chars : List Char} :
    cs ∈ (oneOf chars).matches' ↔ ∃ c, cs = [c] ∧ c ∈ chars := by
  induction chars with
  | nil => simp [oneOf, Language.notMem_zero]
  | cons c chars ih =>
    have hcons : oneOf (c :: chars) = .char c + oneOf chars := rfl
    rw [hcons, RegularExpression.matches'_add, Language.mem_add, mem_char, ih]
    simp only [List.mem_cons, and_or_left, exists_or, exists_eq_right]

/-- There are ten digits. -/
theorem isDigit_iff :
    c.isDigit = true ↔ c ∈ ['0', '1', '2', '3', '4', '5', '6', '7', '8', '9'] := by
  constructor
  · intro h
    obtain ⟨hlow, hhigh⟩ := Char.isDigit_iff_toNat.mp h
    have hlow' : 48 ≤ c.toNat := hlow
    have hhigh' : c.toNat ≤ 57 := hhigh
    rw [← Char.ofNat_toNat c]
    interval_cases c.toNat <;> decide
  · exact List.all_eq_true.mp (by decide) c

/-- There are nine digits beside zero. -/
theorem isDigit_and_ne_iff :
    c ≠ '0' ∧ c.isDigit = true ↔ c ∈ ['1', '2', '3', '4', '5', '6', '7', '8', '9'] := by
  rw [isDigit_iff, List.mem_cons]
  constructor
  · rintro ⟨hne, h⟩
    exact h.resolve_left hne
  · intro h
    refine ⟨?_, .inr h⟩
    rintro rfl
    exact absurd h (by decide)

/-- A digit is a text of one. -/
theorem mem_digit : cs ∈ digit.matches' ↔ ∃ c, cs = [c] ∧ c.isDigit = true := by
  rw [digit, mem_oneOf]
  simp only [← isDigit_iff]

/-- Any number of digits is a text of digits only. -/
theorem mem_star_digit : cs ∈ digit.star.matches' ↔ cs.all Char.isDigit = true := by
  rw [RegularExpression.matches'_star, Language.mem_kstar, List.all_eq_true]
  constructor
  · rintro ⟨parts, rfl, hparts⟩ c hc
    obtain ⟨part, hpart, hc⟩ := List.mem_flatten.mp hc
    obtain ⟨d, rfl, hd⟩ := mem_digit.mp (hparts part hpart)
    obtain rfl := List.mem_singleton.mp hc
    exact hd
  · intro h
    refine ⟨cs.map ([·]), ?_, fun part hpart => ?_⟩
    · rw [← List.flatMap_def, List.flatMap_singleton']
    · obtain ⟨c, hc, rfl⟩ := List.mem_map.mp hpart
      exact mem_digit.mpr ⟨c, rfl, h c hc⟩

/-- A form that begins with one character of some kind. -/
theorem mem_head_mul {head rest : RegularExpression Char} {p : Char → Prop}
    (hhead : ∀ cs, cs ∈ head.matches' ↔ ∃ c, cs = [c] ∧ p c) :
    cs ∈ (head * rest).matches' ↔ ∃ c cs', cs = c :: cs' ∧ p c ∧ cs' ∈ rest.matches' := by
  rw [RegularExpression.matches'_mul, Language.mem_mul]
  constructor
  · rintro ⟨first, hfirst, cs', hrest, rfl⟩
    obtain ⟨c, rfl, hc⟩ := (hhead first).mp hfirst
    exact ⟨c, cs', rfl, hc, hrest⟩
  · rintro ⟨c, cs', rfl, hc, hrest⟩
    exact ⟨[c], (hhead [c]).mpr ⟨c, rfl, hc⟩, cs', hrest, rfl⟩

/-- The same, where that character may be missing. -/
theorem mem_optional_mul {head rest : RegularExpression Char} {p : Char → Prop}
    (hhead : ∀ cs, cs ∈ head.matches' ↔ ∃ c, cs = [c] ∧ p c) :
    cs ∈ ((1 + head) * rest).matches' ↔
      cs ∈ rest.matches' ∨ ∃ c cs', cs = c :: cs' ∧ p c ∧ cs' ∈ rest.matches' := by
  rw [RegularExpression.matches'_mul, RegularExpression.matches'_add,
    RegularExpression.matches'_epsilon, add_mul, one_mul, Language.mem_add,
    ← RegularExpression.matches'_mul, mem_head_mul hhead]

/-- Digits are a text of digits that is not empty. -/
theorem mem_digits : cs ∈ digits.matches' ↔ cs ≠ [] ∧ cs.all Char.isDigit = true := by
  rw [digits, mem_head_mul fun _ => mem_digit]
  simp only [mem_star_digit]
  constructor
  · rintro ⟨c, cs, rfl, hc, hcs⟩
    exact ⟨List.cons_ne_nil _ _, by simp [hc, hcs]⟩
  · rintro ⟨hne, h⟩
    obtain ⟨c, cs, rfl⟩ := List.exists_cons_of_ne_nil hne
    rw [List.all_cons, Bool.and_eq_true] at h
    exact ⟨c, cs, rfl, h⟩

/-- Canonical digits are zero alone, or do not begin with zero. -/
theorem isCanonicalDigits_cons : isCanonicalDigits (c :: cs) = true ↔
    c = '0' ∧ cs = [] ∨ (c ≠ '0' ∧ c.isDigit = true) ∧ cs.all Char.isDigit = true := by
  unfold isCanonicalDigits
  split
  · rename_i heq
    cases heq
    simp
  · rename_i hzero heq
    cases heq
    rw [Bool.and_eq_true, Bool.and_eq_true, bne_iff_ne]
    constructor
    · exact .inr
    · rintro (⟨rfl, rfl⟩ | h)
      · exact (hzero rfl rfl).elim
      · exact h
  · rename_i heq
    cases heq

/-- **A numeral is canonical digits.** -/
theorem mem_numeral : cs ∈ numeral.matches' ↔ isCanonicalDigits cs = true := by
  have hhead : ∀ cs, cs ∈ nonzeroDigit.matches' ↔
      ∃ c, cs = [c] ∧ c ≠ '0' ∧ c.isDigit = true := by
    intro cs
    rw [nonzeroDigit, mem_oneOf]
    simp only [← isDigit_and_ne_iff]
  rw [numeral, RegularExpression.matches'_add, Language.mem_add, mem_head_mul hhead, mem_char]
  simp only [mem_star_digit]
  cases cs with
  | nil => simp [isCanonicalDigits]
  | cons c cs =>
    rw [isCanonicalDigits_cons]
    simp [and_assoc]

/-- A canonical text is canonical digits, perhaps behind a minus sign. -/
theorem isCanonical_iff : isCanonical cs = true ↔
    isCanonicalDigits cs = true ∨ ∃ cs', cs = '-' :: cs' ∧ isCanonicalDigits cs' = true := by
  unfold isCanonical
  split
  · simp [isCanonicalDigits_cons]
  · rename_i hsign
    constructor
    · exact .inl
    · rintro (h | ⟨cs', rfl, -⟩)
      · exact h
      · exact absurd rfl (hsign cs')

/-- **The strict form is what the strict reader asks for.** -/
theorem mem_strictForm : cs ∈ strictForm.matches' ↔ isCanonical cs = true := by
  have hsign : ∀ cs, cs ∈ (RegularExpression.char '-').matches' ↔ ∃ c, cs = [c] ∧ c = '-' := by
    intro cs
    rw [mem_char, exists_eq_right]
  rw [strictForm, mem_optional_mul hsign, isCanonical_iff]
  simp only [mem_numeral]
  constructor
  · rintro (h | ⟨c, cs', rfl, rfl, h⟩)
    · exact .inl h
    · exact .inr ⟨cs', rfl, h⟩
  · rintro (h | ⟨cs', rfl, h⟩)
    · exact .inl h
    · exact .inr ⟨'-', cs', rfl, rfl, h⟩

/-- A lenient text is digits, perhaps behind a sign of either kind. -/
theorem mem_lenientForm : cs ∈ lenientForm.matches' ↔ cs ∈ digits.matches' ∨
    ∃ sign cs', cs = sign :: cs' ∧ sign ∈ ['+', '-'] ∧ cs' ∈ digits.matches' :=
  mem_optional_mul fun _ => mem_oneOf

/-- A sign is no digit, so a text that begins with one goes on with digits. -/
theorem mem_lenientForm_cons {sign : Char} (hsign : sign ∈ ['+', '-']) :
    sign :: cs ∈ lenientForm.matches' ↔ cs ∈ digits.matches' := by
  rw [mem_lenientForm]
  constructor
  · rintro (h | ⟨sign', cs', heq, -, h⟩)
    · have hdigits := (mem_digits.mp h).2
      rw [List.all_cons, Bool.and_eq_true] at hdigits
      have hdigit := hdigits.1
      rcases List.mem_pair.mp hsign with rfl | rfl <;> cases hdigit
    · cases heq
      exact h
  · intro h
    exact .inr ⟨sign, cs, rfl, hsign, h⟩

/-! ## What is read -/

/-- The magnitude is the number that the digits denote. -/
theorem magnitude_eq (cs : List Char) : magnitude cs = Nat.ofDigitChars 10 cs 0 := by
  rw [magnitude, Nat.ofDigits_eq_foldr, List.foldr_map, List.foldr_reverse,
    Nat.ofDigitChars_eq_foldl]
  simp only [Nat.cast_id, Nat.add_comm]

/-- Digits are read as their magnitude, and nothing else is read. -/
theorem map_digits?_eq_some {f : Nat → Int} : (digits? cs).map f = some i ↔
    cs ∈ digits.matches' ∧ f (magnitude cs) = i := by
  rw [digits?, mem_digits, magnitude_eq]
  split
  · rename_i h
    rw [Option.map_some, Option.some.injEq, and_iff_right h]
  · rename_i h
    rw [Option.map_none]
    exact ⟨nofun, fun hdigits => absurd hdigits.1 h⟩

/-- Without sign the value is the magnitude. -/
theorem value_of_unsigned (h : cs ∈ digits.matches') :
    value cs = (magnitude cs : Int) := by
  have hdigits := (mem_digits.mp h).2
  unfold value
  split
  · cases hdigits
  · cases hdigits
  · rfl

/-- **The lenient reader's integer** is the value of a text of the lenient form. -/
theorem signed?_eq_some : signed? cs = some i ↔ cs ∈ lenientForm.matches' ∧ value cs = i := by
  unfold signed?
  split
  · rw [map_digits?_eq_some, mem_lenientForm_cons (by decide)]
    rfl
  · rw [map_digits?_eq_some, mem_lenientForm_cons (by decide)]
    rfl
  · rename_i hplus hminus
    rw [map_digits?_eq_some, mem_lenientForm]
    constructor
    · rintro ⟨h, rfl⟩
      exact ⟨.inl h, value_of_unsigned h⟩
    · rintro ⟨h | ⟨sign, cs', rfl, hsign, -⟩, rfl⟩
      · exact ⟨h, (value_of_unsigned h).symm⟩
      · -- a text with a sign went another way
        rcases List.mem_pair.mp hsign with rfl | rfl
        · exact absurd rfl (hplus cs')
        · exact absurd rfl (hminus cs')

/-- An integer is in range when it is that of a 64-bit one. -/
theorem inRange?_eq_some : inRange? i = some n ↔ i = n.toInt := by
  unfold inRange?
  split
  · rename_i h
    have htoInt : (Int64.ofInt i).toInt = i := by
      rw [← Int64.ofIntLE_eq_ofInt h.1 h.2, Int64.toInt_ofIntLE]
    rw [Option.some.injEq, ← Int64.toInt_inj, htoInt]
  · rename_i h
    simp only [reduceCtorEq, false_iff]
    rintro rfl
    exact h ⟨Int64.le_toInt n, Int64.toInt_le n⟩

/-- The integers of 64 bits, as a range. -/
theorem exists_toInt_eq : (∃ n : Int64, i = n.toInt) ↔ -2 ^ 63 ≤ i ∧ i < 2 ^ 63 := by
  constructor
  · rintro ⟨n, rfl⟩
    exact ⟨Int64.le_toInt n, Int64.toInt_lt n⟩
  · rintro ⟨hlow, hhigh⟩
    exact ⟨Int64.ofInt i, (Int64.toInt_ofInt_of_le hlow hhigh).symm⟩

/-- **The lenient reader accepts the lenient form, in range.** -/
theorem int64?_eq_some :
    int64? s = some n ↔ s.toList ∈ lenientForm.matches' ∧ value s.toList = n.toInt := by
  rw [int64?, Option.bind_eq_some_iff]
  simp only [signed?_eq_some, inRange?_eq_some]
  constructor
  · rintro ⟨i, ⟨hform, rfl⟩, hrange⟩
    exact ⟨hform, hrange⟩
  · rintro ⟨hform, hvalue⟩
    exact ⟨n.toInt, ⟨hform, hvalue⟩, rfl⟩

/-- Canonical digits are digits. -/
theorem mem_digits_of_isCanonicalDigits (h : isCanonicalDigits cs = true) :
    cs ∈ digits.matches' := by
  rw [mem_digits]
  cases cs with
  | nil => cases h
  | cons c cs =>
    refine ⟨List.cons_ne_nil c cs, ?_⟩
    rw [List.all_cons, Bool.and_eq_true]
    rcases isCanonicalDigits_cons.mp h with ⟨rfl, rfl⟩ | ⟨hc, hcs⟩
    · decide
    · exact ⟨hc.2, hcs⟩

/-- The strict form is part of the lenient one. -/
theorem mem_lenientForm_of_strict (h : cs ∈ strictForm.matches') : cs ∈ lenientForm.matches' := by
  rw [mem_lenientForm]
  rcases isCanonical_iff.mp (mem_strictForm.mp h) with hdigits | ⟨cs', rfl, hdigits⟩
  · exact .inl (mem_digits_of_isCanonicalDigits hdigits)
  · exact .inr ⟨'-', cs', rfl, by decide, mem_digits_of_isCanonicalDigits hdigits⟩

/-- **The strict reader accepts the strict form, in range.** -/
theorem canonicalInt64?_eq_some :
    canonicalInt64? s = some n ↔ s.toList ∈ strictForm.matches' ∧ value s.toList = n.toInt := by
  unfold canonicalInt64?
  rw [mem_strictForm]
  split
  · rename_i h
    rw [int64?_eq_some]
    -- the form is checked before the text is read, so the reader cannot refuse it
    exact and_congr_left fun _ =>
      ⟨fun _ => h, fun h => mem_lenientForm_of_strict (mem_strictForm.mpr h)⟩
  · rename_i h
    simp [h]

/-- **Where the strict reader reads an integer, the lenient one reads the
same.** -/
theorem int64?_of_canonicalInt64? (h : canonicalInt64? s = some n) : int64? s = some n := by
  obtain ⟨hform, hvalue⟩ := canonicalInt64?_eq_some.mp h
  exact int64?_eq_some.mpr ⟨mem_lenientForm_of_strict hform, hvalue⟩

/-! ## What is written -/

/-- A digit is the character of its value. -/
theorem digitChar_of_isDigit (h : c.isDigit = true) :
    c.toNat - '0'.toNat < 10 ∧ Nat.digitChar (c.toNat - '0'.toNat) = c := by
  obtain ⟨hlow, hhigh⟩ := Char.isDigit_iff_toNat.mp h
  have hzero : '0'.toNat = 48 := rfl
  have hnine : '9'.toNat = 57 := rfl
  have hlt : c.toNat - '0'.toNat < 10 := by omega
  refine ⟨hlt, ?_⟩
  rw [← Char.toNat_inj, Nat.toNat_digitChar_of_lt_ten hlt]
  omega

/-- The digits of a number denote it. -/
theorem magnitude_toDigits (k : Nat) : magnitude (Nat.toDigits 10 k) = k := by
  rw [magnitude_eq, Nat.ofDigitChars_ten_toDigits]

/-- Canonical digits with a digit behind them, unless they are zero. -/
theorem isCanonicalDigits_concat (hne : cs ≠ []) : isCanonicalDigits (cs ++ [c]) = true ↔
    isCanonicalDigits cs = true ∧ cs ≠ ['0'] ∧ c.isDigit = true := by
  obtain ⟨d, ds, rfl⟩ := List.exists_cons_of_ne_nil hne
  rw [List.cons_append, isCanonicalDigits_cons, isCanonicalDigits_cons, List.all_append]
  grind

/-- Only zero is written as zero. -/
theorem toDigits_ne_zero {k : Nat} (h : 0 < k) : Nat.toDigits 10 k ≠ ['0'] := by
  intro heq
  have hzero : k = magnitude ['0'] := by rw [← heq, magnitude_toDigits]
  exact absurd hzero (Nat.ne_of_gt h)

/-- What is written is canonical. -/
theorem isCanonicalDigits_toDigits (k : Nat) : isCanonicalDigits (Nat.toDigits 10 k) = true := by
  induction k using Nat.strong_induction_on with
  | _ k ih =>
    by_cases hk : k < 10
    · rw [Nat.toDigits_of_lt_base hk]
      interval_cases k <;> decide
    · rw [Nat.toDigits_of_base_le (by decide) (Nat.le_of_not_lt hk),
        isCanonicalDigits_concat Nat.toDigits_ne_nil]
      refine ⟨ih (k / 10) (by omega), toDigits_ne_zero (by omega), ?_⟩
      rw [Nat.isDigit_digitChar, decide_eq_true_iff]
      exact Nat.mod_lt k (by decide)

/-- **Canonical digits are the ones written for their value.** By induction from
the last digit: what stands before it is canonical and not zero. -/
theorem toDigits_magnitude (h : isCanonicalDigits cs = true) :
    Nat.toDigits 10 (magnitude cs) = cs := by
  induction cs using List.reverseRecOn with
  | nil => cases h
  | append_singleton ds c ih =>
    have hlast : magnitude (ds ++ [c]) = 10 * magnitude ds + (c.toNat - '0'.toNat) := by
      rw [magnitude_eq, magnitude_eq, Nat.ofDigitChars_append, Nat.ofDigitChars_cons,
        Nat.ofDigitChars_nil]
    -- a single digit may be zero, the first of several may not
    by_cases hne : ds = []
    · subst hne
      have hc : c.isDigit = true := by
        rcases isCanonicalDigits_cons.mp h with ⟨rfl, -⟩ | ⟨hc, -⟩
        · decide
        · exact hc.2
      obtain ⟨hlt, hchar⟩ := digitChar_of_isDigit hc
      rw [hlast, show magnitude [] = 0 from rfl, Nat.mul_zero, Nat.zero_add,
        Nat.toDigits_of_lt_base hlt, hchar, List.nil_append]
    · obtain ⟨hds, hzero, hc⟩ := (isCanonicalDigits_concat hne).mp h
      obtain ⟨hlt, hchar⟩ := digitChar_of_isDigit hc
      have hpos : 0 < magnitude ds := by
        refine Nat.pos_of_ne_zero fun heq => hzero ?_
        rw [← ih hds, heq, Nat.toDigits_zero]
      rw [hlast, ← Nat.toDigits_append_toDigits (by decide) hpos hlt, ih hds,
        Nat.toDigits_of_lt_base hlt, hchar]

/-- An integer is written as the digits of its magnitude, behind a minus sign if it
is negative. -/
theorem toList_ofInt (i : Int) : (ofInt i).toList =
    if i < 0 then '-' :: Nat.toDigits 10 i.natAbs else Nat.toDigits 10 i.natAbs := by
  unfold ofInt
  split <;> simp

/-- **What is written has the strict form and denotes its integer.** -/
theorem ofInt_denotes (i : Int) :
    (ofInt i).toList ∈ strictForm.matches' ∧ value (ofInt i).toList = i := by
  have hdigits := isCanonicalDigits_toDigits i.natAbs
  rw [mem_strictForm, isCanonical_iff, toList_ofInt]
  split
  · refine ⟨.inr ⟨_, rfl, hdigits⟩, ?_⟩
    rw [value, magnitude_toDigits]
    omega
  · refine ⟨.inl hdigits, ?_⟩
    rw [value_of_unsigned (mem_digits_of_isCanonicalDigits hdigits), magnitude_toDigits]
    omega

/-- **A text of the strict form is what is written for its value**, minus zero
apart. -/
theorem ofInt_value (h : cs ∈ strictForm.matches') (hzero : cs ≠ ['-', '0']) :
    (ofInt (value cs)).toList = cs := by
  rw [toList_ofInt]
  rcases isCanonical_iff.mp (mem_strictForm.mp h) with hdigits | ⟨cs', rfl, hdigits⟩
  · rw [value_of_unsigned (mem_digits_of_isCanonicalDigits hdigits), if_neg (by omega),
      Int.natAbs_natCast, toDigits_magnitude hdigits]
  · -- a value of zero would not get its sign back
    have hpos : 0 < magnitude cs' := by
      refine Nat.pos_of_ne_zero fun heq => hzero ?_
      rw [← toDigits_magnitude hdigits, heq, Nat.toDigits_zero]
    rw [value, if_pos (by omega), Int.natAbs_neg, Int.natAbs_natCast, toDigits_magnitude hdigits]

/-- **What is written is read back** by the strict reader. -/
theorem canonicalInt64?_ofInt64 (n : Int64) : canonicalInt64? (ofInt64 n) = some n :=
  canonicalInt64?_eq_some.mpr (ofInt_denotes n.toInt)

/-- What the strict reader reads is what is written, minus zero apart. -/
theorem ofInt64_of_canonicalInt64? (h : canonicalInt64? s = some n) (hzero : s ≠ "-0") :
    ofInt64 n = s := by
  obtain ⟨hform, hvalue⟩ := canonicalInt64?_eq_some.mp h
  have hne : s.toList ≠ ['-', '0'] := by
    intro heq
    exact hzero (String.toList_injective heq)
  rw [ofInt64, ← hvalue, ← String.toList_inj]
  exact ofInt_value hform hne

end Decimal

end BlockIR
