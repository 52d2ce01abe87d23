import BlockIR.Operator
import BlockIR.Proofs.Text.Decimal
import BlockIR.Proofs.Text.Quoted
/-!
# Lexemes of listings

A listing is made of marks of a fixed spelling, numbers, quoted texts and names
of builtin operations. Lexemes in a row are known from their spelling
(`spell_inj`), provided that no two numbers touch and that no name holds a
parenthesis: the first two characters of a lexeme give its kind, and a lexeme of
a known kind ends in one place only. It does not matter which characters are
hidden in quoted texts, only that the choice is the same throughout.
-/

namespace BlockIR

/-! ## Marks -/

/-- A word or sign of a fixed spelling. -/
inductive Mark where
  | slot
  | global
  | block
  | function
  | dot
  | minus
  | null
  | opening
  | closing
  | index
  | indexEnd
  | assign
  | comma
  | newArray
  | load
  | store
  | call
  | jump
  | branch
  | ret
  | operator (op : Operator)
  deriving DecidableEq

namespace Mark

/-- The spelling of a mark, with the blanks that belong to it. -/
def text : Mark → String
  | slot => "%"
  | global => "@"
  | block => "bb"
  | function => "fn"
  | dot => "."
  | minus => "-"
  | null => "null"
  | opening => "("
  | closing => ")"
  | index => "["
  | indexEnd => "]"
  | assign => " = "
  | comma => ", "
  | newArray => "newarray "
  | load => "load "
  | store => "store "
  | call => "call "
  | jump => "jump "
  | branch => "branch "
  | ret => "return "
  | operator op => " " ++ op.symbol ++ " "

/-- Every mark. -/
def all : List Mark :=
  [slot, global, block, function, dot, minus, null, opening, closing, index, indexEnd, assign,
    comma, newArray, load, store, call, jump, branch, ret] ++ Operator.all.map operator

/-- Every mark is listed. -/
theorem mem_all (m : Mark) : m ∈ all := by
  cases m with
  | operator op => cases op <;> decide
  | _ => decide

/-- **No mark begins with another.** -/
theorem eq_of_isPrefix : ∀ m ∈ all, ∀ n ∈ all, m.text.toList <+: n.text.toList → m = n := by
  decide +kernel

/-- **No mark is the beginning of another.** -/
theorem text_append_inj {m n : Mark} {r s : List Char}
    (h : m.text.toList ++ r = n.text.toList ++ s) : m = n ∧ r = s := by
  have heq : m = n := by
    rcases List.prefix_or_prefix_of_prefix (List.prefix_append m.text.toList r)
      (h ▸ List.prefix_append n.text.toList s) with hp | hp
    · exact eq_of_isPrefix m m.mem_all n n.mem_all hp
    · exact (eq_of_isPrefix n n.mem_all m m.mem_all hp).symm
  subst heq
  exact ⟨rfl, List.append_cancel_left h⟩

end Mark

/-! ## Lexemes -/

/-- **A lexeme of a listing.** The name of a builtin operation comes with the word
before it and the parenthesis behind it. -/
inductive Lexeme where
  | mark (m : Mark)
  | number (n : Nat)
  | quoted (s : String)
  | builtin (name : String)

namespace Lexeme

/-- The spelling of a lexeme. -/
def chars (hidden : Char → Bool) : Lexeme → List Char
  | mark m => m.text.toList
  | number n => Nat.toDigits 10 n
  | quoted s => (Text.quoteBy hidden s).toList
  | builtin name => "builtin ".toList ++ name.toList ++ ['(']

/-- The spelling of lexemes in order. -/
def spell (hidden : Char → Bool) (ts : List Lexeme) : List Char := ts.flatMap (chars hidden)

variable {hidden : Char → Bool}

@[simp] theorem chars_mark (m : Mark) : (mark m).chars hidden = m.text.toList := rfl

@[simp] theorem chars_number (n : Nat) : (number n).chars hidden = Nat.toDigits 10 n := rfl

/-- A builtin name ends with the parenthesis of its call. -/
theorem chars_builtin (name : String) :
    (builtin name).chars hidden = "builtin ".toList ++ name.toList ++ ['('] := rfl

@[simp] theorem spell_nil : spell hidden [] = [] := rfl

@[simp] theorem spell_cons (t : Lexeme) (ts : List Lexeme) :
    spell hidden (t :: ts) = t.chars hidden ++ spell hidden ts :=
  List.flatMap_cons

/-- The four kinds of lexemes. -/
inductive Kind where
  | mark
  | number
  | quoted
  | builtin
  deriving DecidableEq

/-- The kind of a lexeme. -/
def kind : Lexeme → Kind
  | mark _ => .mark
  | number _ => .number
  | quoted _ => .quoted
  | builtin _ => .builtin

/-- The kind of the first lexeme, by the first two characters. -/
def kindOf? : List Char → Option Kind
  | [] => none
  | '"' :: _ => some .quoted
  | 'b' :: 'u' :: _ => some .builtin
  | c :: _ => if c.isDigit then some .number else some .mark

/-- What begins with a digit is a number. -/
theorem kindOf?_digit {c : Char} {r : List Char} (h : c.isDigit = true) :
    kindOf? (c :: r) = some .number := by
  unfold kindOf?
  split <;> simp_all

/-- The text of a mark shows that it is one, whatever follows. -/
theorem kindOf?_mark (m : Mark) (r : List Char) : kindOf? (m.text.toList ++ r) = some .mark := by
  cases m with
  | operator op => cases op <;> rfl
  | _ => rfl

/-- The digits of a number show that it is one, whatever follows. -/
theorem kindOf?_number (n : Nat) (r : List Char) :
    kindOf? (Nat.toDigits 10 n ++ r) = some .number := by
  obtain ⟨c, cs, hcs⟩ := List.exists_cons_of_ne_nil (@Nat.toDigits_ne_nil n 10)
  have hc : c.isDigit = true :=
    Nat.isDigit_of_mem_toDigits (by decide) (by decide) (hcs ▸ List.mem_cons_self)
  rw [hcs, List.cons_append]
  exact kindOf?_digit hc

/-- **The first characters of a lexeme show its kind**, whatever follows. -/
theorem kindOf?_chars (t : Lexeme) (r : List Char) :
    kindOf? (t.chars hidden ++ r) = some t.kind := by
  cases t with
  | mark m => exact kindOf?_mark m r
  | number n => exact kindOf?_number n r
  | quoted s => exact congrArg (fun cs => kindOf? (cs ++ r)) (Text.toList_quoteBy hidden s)
  | builtin name => rfl

/-! ## Where a lexeme ends -/

/-- It is known where the lexeme ends in front of `r`. -/
def Ends : Lexeme → List Char → Prop
  | number _, r => kindOf? r ≠ some .number
  | builtin name, _ => '(' ∉ name.toList
  | _, _ => True

/-- Two numbers before something else than a digit are read apart. -/
theorem number_append_inj {m n : Nat} {r s : List Char} (hr : kindOf? r ≠ some .number)
    (hs : kindOf? s ≠ some .number) (h : Nat.toDigits 10 m ++ r = Nat.toDigits 10 n ++ s) :
    m = n ∧ r = s := by
  have hdigits : ∀ k, ∀ c ∈ Nat.toDigits 10 k, c.isDigit = true :=
    fun _ _ => Nat.isDigit_of_mem_toDigits (by decide) (by decide)
  have hhead : ∀ {t : List Char}, kindOf? t ≠ some .number → ∀ c ∈ t.head?, c.isDigit = false := by
    intro t ht c hc
    obtain ⟨cs, rfl⟩ := List.head?_eq_some_iff.mp hc
    exact Bool.eq_false_iff.mpr fun hdigit => ht (kindOf?_digit hdigit)
  obtain ⟨heq, hrest⟩ := Text.run_append_inj (hdigits m) (hdigits n) (hhead hr) (hhead hs) h
  refine ⟨?_, hrest⟩
  rw [← Decimal.magnitude_toDigits m, heq, Decimal.magnitude_toDigits]

/-- Two builtin names without parentheses are read apart. -/
theorem builtin_append_inj {m n : String} {r s : List Char} (hm : '(' ∉ m.toList)
    (hn : '(' ∉ n.toList) (h : (builtin m).chars hidden ++ r = (builtin n).chars hidden ++ s) :
    m = n ∧ r = s := by
  simp only [chars_builtin, List.append_assoc, List.singleton_append] at h
  obtain ⟨hname, hrest⟩ := Text.closed_append_inj hm hn (List.append_cancel_left h)
  exact ⟨String.toList_inj.mp hname, hrest⟩

/-- **The first lexeme of a spelling is known**, and what follows it. -/
theorem chars_append_inj {t u : Lexeme} {r s : List Char} (ht : t.Ends r) (hu : u.Ends s)
    (h : t.chars hidden ++ r = u.chars hidden ++ s) : t = u ∧ r = s := by
  -- only lexemes of one kind are left to compare
  have hkind : t.kind = u.kind := by
    rw [← Option.some_inj, ← kindOf?_chars t r, h, kindOf?_chars]
  cases t with
  | mark m =>
    cases u with
    | mark n =>
      obtain ⟨rfl, hrest⟩ := Mark.text_append_inj h
      exact ⟨rfl, hrest⟩
    | _ => cases hkind
  | number m =>
    cases u with
    | number n =>
      obtain ⟨rfl, hrest⟩ := number_append_inj ht hu h
      exact ⟨rfl, hrest⟩
    | _ => cases hkind
  | quoted m =>
    cases u with
    | quoted n =>
      obtain ⟨rfl, hrest⟩ := Text.quoteBy_append_inj h
      exact ⟨rfl, hrest⟩
    | _ => cases hkind
  | builtin m =>
    cases u with
    | builtin n =>
      obtain ⟨rfl, hrest⟩ := builtin_append_inj ht hu h
      exact ⟨rfl, hrest⟩
    | _ => cases hkind

/-! ## Sequences of lexemes -/

/-- It is known of every lexeme where it ends. -/
def Separated (hidden : Char → Bool) : List Lexeme → Prop
  | [] => True
  | t :: ts => t.Ends (spell hidden ts) ∧ Separated hidden ts

/-- **Lexemes are known from their spelling.** -/
theorem spell_inj {ts us : List Lexeme} (hts : Separated hidden ts) (hus : Separated hidden us)
    (h : spell hidden ts = spell hidden us) : ts = us := by
  -- a lexeme is never spelled by nothing
  have hsome : ∀ t ts, kindOf? (spell hidden (t :: ts)) ≠ kindOf? (spell hidden []) := by
    intro t ts
    rw [spell_cons, kindOf?_chars]
    exact Option.some_ne_none _
  induction ts generalizing us with
  | nil =>
    cases us with
    | nil => rfl
    | cons u us => exact absurd (congrArg kindOf? h).symm (hsome u us)
  | cons t ts ih =>
    cases us with
    | nil => exact absurd (congrArg kindOf? h) (hsome t ts)
    | cons u us =>
      obtain ⟨rfl, hrest⟩ := chars_append_inj hts.1 hus.1 h
      rw [ih hts.2 hus.2 hrest]

/-- The lexemes are separated, and may stand behind a number. -/
structure Follows (hidden : Char → Bool) (ts : List Lexeme) : Prop where
  separated : Separated hidden ts
  kind : kindOf? (spell hidden ts) ≠ some .number

/-- Nothing at all may follow a number. -/
theorem follows_nil : Follows hidden [] :=
  ⟨trivial, Option.some_ne_none _ |>.symm⟩

variable {ts : List Lexeme}

/-- A mark may stand before anything that is separated. -/
theorem separated_mark {m : Mark} (h : Separated hidden ts) : Separated hidden (mark m :: ts) :=
  ⟨trivial, h⟩

/-- A mark may follow a number. -/
theorem follows_mark {m : Mark} (h : Separated hidden ts) : Follows hidden (mark m :: ts) := by
  refine ⟨separated_mark h, ?_⟩
  rw [spell_cons, kindOf?_chars, kind]
  decide

/-- A number may stand before what may follow one. -/
theorem separated_number {n : Nat} (h : Follows hidden ts) :
    Separated hidden (number n :: ts) :=
  ⟨h.kind, h.separated⟩

end Lexeme

end BlockIR
