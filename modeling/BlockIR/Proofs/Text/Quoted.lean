import BlockIR.Text.Quoted
/-!
# Quoted text ends by itself

Where a quoted text stands in front of other text, it is known where it ends and
what it quotes (`quote_append_inj`). The reason is that the written forms of two
characters are never the one a beginning of the other, whichever characters are
hidden, and none of them begins with a double quote.
-/

namespace BlockIR

namespace Text

/-! ## Runs of characters -/

section Run

variable {p : Char → Bool} {xs ys r s : List Char}

/-- **A run of characters ends where the next one is of another kind.** -/
theorem run_append_inj (hxs : ∀ c ∈ xs, p c = true) (hys : ∀ c ∈ ys, p c = true)
    (hr : ∀ c ∈ r.head?, p c = false) (hs : ∀ c ∈ s.head?, p c = false)
    (h : xs ++ r = ys ++ s) : xs = ys ∧ r = s := by
  have hnone : ∀ t : List Char, (∀ c ∈ t.head?, p c = false) → t.takeWhile p = [] := by
    intro t ht
    cases t with
    | nil => rfl
    | cons c t => rw [List.takeWhile_cons_of_neg (by simp [ht c rfl])]
  have htake := congrArg (List.takeWhile p) h
  rw [List.takeWhile_append_of_pos hxs, List.takeWhile_append_of_pos hys, hnone r hr,
    hnone s hs, List.append_nil, List.append_nil] at htake
  exact ⟨htake, List.append_cancel_left (htake ▸ h)⟩

/-- A run that is closed by a character which cannot stand in it. -/
theorem closed_append_inj {c : Char} (hxs : c ∉ xs) (hys : c ∉ ys)
    (h : xs ++ c :: r = ys ++ c :: s) : xs = ys ∧ r = s := by
  have hne : ∀ {zs : List Char}, c ∉ zs → ∀ d ∈ zs, (d != c) = true := by
    intro zs hzs d hd
    exact bne_iff_ne.mpr fun heq => hzs (heq ▸ hd)
  obtain ⟨heq, hrest⟩ := run_append_inj (hne hxs) (hne hys) (by simp) (by simp) h
  exact ⟨heq, List.tail_eq_of_cons_eq hrest⟩

end Run

/-! ## Hexadecimal digits -/

theorem digitChar_inj : ∀ m < 16, ∀ n < 16, Nat.digitChar m = Nat.digitChar n → m = n := by
  decide

/-- Numbers are told apart by their hexadecimal digits. By induction from the
last digit: one digit alone has nothing before it. -/
theorem toDigits_inj {m n : Nat} (h : Nat.toDigits 16 m = Nat.toDigits 16 n) : m = n := by
  induction m using Nat.strongRecOn generalizing n with
  | _ m ih =>
    rcases Nat.lt_or_ge m 16 with hm | hm <;> rcases Nat.lt_or_ge n 16 with hn | hn
    · rw [Nat.toDigits_of_lt_base hm, Nat.toDigits_of_lt_base hn] at h
      exact digitChar_inj m hm n hn (List.singleton_inj.mp h)
    · rw [Nat.toDigits_of_lt_base hm, Nat.toDigits_of_base_le (by decide) hn] at h
      have hnil : [] = Nat.toDigits 16 (n / 16) := List.append_inj_left' h rfl
      exact absurd hnil.symm Nat.toDigits_ne_nil
    · rw [Nat.toDigits_of_base_le (by decide) hm, Nat.toDigits_of_lt_base hn] at h
      have hnil : Nat.toDigits 16 (m / 16) = [] := List.append_inj_left' h rfl
      exact absurd hnil Nat.toDigits_ne_nil
    · rw [Nat.toDigits_of_base_le (by decide) hm, Nat.toDigits_of_base_le (by decide) hn] at h
      obtain ⟨hinit, hlast⟩ := List.append_inj' h rfl
      have hdiv : m / 16 = n / 16 := ih (m / 16) (by omega) hinit
      have hmod : m % 16 = n % 16 :=
        digitChar_inj _ (Nat.mod_lt m (by decide)) _ (Nat.mod_lt n (by decide))
          (List.singleton_inj.mp hlast)
      omega

/-- The brace that closes a code point is no digit of it. -/
theorem brace_notMem_toDigits (n : Nat) : '\x7d' ∉ Nat.toDigits 16 n := by
  have hdigit : ∀ d < 16, '\x7d' ≠ Nat.digitChar d := by decide
  induction n using Nat.strongRecOn with
  | _ n ih =>
    rcases Nat.lt_or_ge n 16 with hn | hn
    · rw [Nat.toDigits_of_lt_base hn, List.mem_singleton]
      exact hdigit n hn
    · rw [Nat.toDigits_of_base_le (by decide) hn, List.mem_append, List.mem_singleton, not_or]
      exact ⟨ih (n / 16) (by omega), hdigit _ (Nat.mod_lt n (by decide))⟩

/-- A code point ends with its brace. -/
theorem codePoint_append_inj {c d : Char} {r s : List Char}
    (h : codePoint c ++ r = codePoint d ++ s) : c = d ∧ r = s := by
  simp only [codePoint, List.append_assoc] at h
  obtain ⟨hdigits, hrest⟩ := closed_append_inj (brace_notMem_toDigits c.toNat)
    (brace_notMem_toDigits d.toNat) (List.append_cancel_left h)
  exact ⟨Char.toNat_inj.mp (toDigits_inj hdigits), hrest⟩

/-! ## Written forms of characters -/

/-- The characters that are written by name, with their names. -/
def named : List (Char × Char) :=
  [('"', '"'), ('\\', '\\'), (Char.ofNat 0, '0'), ('\t', 't'), ('\n', 'n'), ('\r', 'r')]

/-- **The forms in which a character may be written**: as it is, by name, or by
its code point. -/
inductive Written (c : Char) : List Char → Prop
  | literal (hquote : c ≠ '"') (hbackslash : c ≠ '\\') : Written c [c]
  | name {n : Char} (h : (c, n) ∈ named) : Written c ['\\', n]
  | code : Written c (codePoint c)

variable {hidden : Char → Bool}

theorem escape_of_named : ∀ p ∈ named, escape hidden p.1 = ['\\', p.2] := by
  intro p hp
  simp only [named, List.mem_cons, List.not_mem_nil, or_false] at hp
  rcases hp with rfl | rfl | rfl | rfl | rfl | rfl <;> rfl

theorem escape_of_not_named {c : Char} (h : c ∉ named.map Prod.fst) :
    escape hidden c = if hidden c then codePoint c else [c] := by
  simp only [named, List.map_cons, List.map_nil, List.mem_cons, List.not_mem_nil, or_false,
    not_or] at h
  simp [escape, h]

/-- Whatever the choice, a character is written in one of its forms. -/
theorem written_escape (c : Char) : Written c (escape hidden c) := by
  by_cases hname : c ∈ named.map Prod.fst
  · obtain ⟨⟨c, n⟩, hn, rfl⟩ := List.mem_map.mp hname
    rw [escape_of_named (c, n) hn]
    exact .name hn
  · rw [escape_of_not_named hname]
    split
    · exact .code
    · exact .literal (by rintro rfl; exact hname (by decide))
        (by rintro rfl; exact hname (by decide))

namespace Written

variable {c d : Char} {xs ys r s : List Char}

/-- No written form begins with a double quote. -/
theorem append_ne_quote (h : Written c xs) : xs ++ r ≠ '"' :: s := by
  intro heq
  cases h with
  | literal hquote _ => exact hquote (List.head_eq_of_cons_eq heq)
  | name _ => cases heq
  | code => cases heq

/-- **Written forms are told apart by their beginnings.** -/
theorem append_inj (hc : Written c xs) (hd : Written d ys) (h : xs ++ r = ys ++ s) :
    c = d ∧ r = s := by
  -- behind a backslash, names differ from each other and from the code point's `u`
  have hnames : ∀ p ∈ named, p.2 ≠ 'u' ∧ ∀ q ∈ named, p.2 = q.2 → p.1 = q.1 := by decide
  cases hc with
  | literal _ hbackslash =>
    cases hd with
    | literal => exact List.cons_eq_cons.mp h
    | name => exact absurd (List.head_eq_of_cons_eq h) hbackslash
    | code => exact absurd (List.head_eq_of_cons_eq h) hbackslash
  | name hm =>
    have hm := hnames _ hm
    cases hd with
    | literal _ hbackslash => exact absurd (List.head_eq_of_cons_eq h).symm hbackslash
    | name hn =>
      obtain ⟨hname, hrest⟩ := List.cons_eq_cons.mp (List.tail_eq_of_cons_eq h)
      exact ⟨hm.2 _ hn hname, hrest⟩
    | code => exact absurd (List.head_eq_of_cons_eq (List.tail_eq_of_cons_eq h)) hm.1
  | code =>
    cases hd with
    | literal _ hbackslash => exact absurd (List.head_eq_of_cons_eq h).symm hbackslash
    | name hn =>
      exact absurd (List.head_eq_of_cons_eq (List.tail_eq_of_cons_eq h)).symm (hnames _ hn).1
    | code => exact codePoint_append_inj h

end Written

/-! ## Quoted texts -/

theorem flatMap_escape_inj {cs ds r s : List Char}
    (h : cs.flatMap (escape hidden) ++ '"' :: r = ds.flatMap (escape hidden) ++ '"' :: s) :
    cs = ds ∧ r = s := by
  induction cs generalizing ds with
  | nil =>
    cases ds with
    | nil => exact ⟨rfl, List.tail_eq_of_cons_eq h⟩
    | cons d ds =>
      rw [List.flatMap_cons, List.append_assoc] at h
      exact absurd h.symm (written_escape d).append_ne_quote
  | cons c cs ih =>
    rw [List.flatMap_cons, List.append_assoc] at h
    cases ds with
    | nil => exact absurd h (written_escape c).append_ne_quote
    | cons d ds =>
      rw [List.flatMap_cons, List.append_assoc] at h
      obtain ⟨rfl, hrest⟩ := (written_escape c).append_inj (written_escape d) h
      obtain ⟨rfl, rfl⟩ := ih hrest
      exact ⟨rfl, rfl⟩

theorem toList_quoteBy (hidden : Char → Bool) (t : String) :
    (quoteBy hidden t).toList = '"' :: t.toList.flatMap (escape hidden) ++ ['"'] := by
  simp [quoteBy]

/-- **A quoted text ends by itself**: what it quotes and what follows it are known
from the whole. -/
theorem quoteBy_append_inj {t u : String} {r s : List Char}
    (h : (quoteBy hidden t).toList ++ r = (quoteBy hidden u).toList ++ s) : t = u ∧ r = s := by
  rw [toList_quoteBy, toList_quoteBy, List.append_assoc, List.append_assoc] at h
  obtain ⟨hbody, hrest⟩ := flatMap_escape_inj (List.tail_eq_of_cons_eq h)
  exact ⟨String.toList_inj.mp hbody, hrest⟩

end Text

end BlockIR
