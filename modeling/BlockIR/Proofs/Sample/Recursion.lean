import BlockIR.Proofs.Builtin.Arithmetic
import BlockIR.Proofs.Sample.Outcome
import Mathlib.Data.Nat.Factorial.Basic
import Mathlib.Tactic.Ring
/-!
# The recursive samples

Both samples call themselves on the number before until a test ends that. How many
calls are in progress at once is then a matter of counting: with room for that many
the sample returns, and with less the stack overflows. The induction is on the room
that is left, one call at a time, and it is the same for both (`CountsDown`). They
differ in what they count and in the value they build up.
-/

namespace BlockIR

namespace Sample

open Source

variable {t : Table} {rounds limit depth : Nat} {w : World}

/-! ## Counting down -/

/-- A body that returns a number if a test against zero holds, and else joins the
parameter with what the function returns for the number before. -/
def countdownBody (test : Operator) (base : Int64) (join : Operator) (module name : String) :
    List Stmt := [
  .ite (.binary test (v "n") (.int 0)) [ret (.int base)] [],
  ret (.binary join (v "n") (call module name [.binary .sub (v "n") (.int 1)]))]

/-- **A function counts down**: it has such a body, where locations do not matter. The
test holds where there is nothing left to count, and each call counts one less. -/
structure CountsDown (p : Source.Program) (module name : String) (test : Operator) (base : Int64)
    (join : Operator) (count : Int64 → Nat) (value : Int64 → Int64) : Prop where
  body : ∃ f, p.function? module name = some f ∧ f.params = ["n"] ∧ ∀ ctx env,
    Stmt.execAll ctx f.body env =
      Stmt.execAll ctx (countdownBody test base join module name) env
  test : ∀ n, test.onInts? n 0 = some (.ofBool (count n = 0))
  base : ∀ n, count n = 0 → value n = base
  join : ∀ n, count n ≠ 0 → join.onInts? n (value (n - 1)) = some (.int (value n))
  pred : ∀ n, count n ≠ 0 → count (n - 1) + 1 = count n

namespace CountsDown

variable {p : Source.Program} {module name : String} {test join : Operator} {base : Int64}
variable {count : Int64 → Nat} {value : Int64 → Int64}

/-- **A call that counts down** returns if there is room for every call it leads to, and
else overflows the stack. -/
theorem apply_call (h : CountsDown p module name test base join count value)
    (ht : Table.standard = .ok t) (room : Nat) (n : Int64) (σ : Store) :
    (p.call t rounds limit room module name [.int n]).apply σ =
      some (if count n < room then .ok (.int (value n)) else .error (.stackOverflow limit), σ) := by
  obtain ⟨f, hf, hparams, hbody⟩ := h.body
  have hlength : ∀ i : Int64, [Value.int i].length = f.params.length := by
    intro i
    rw [hparams]
    rfl
  induction room generalizing n with
  | zero => exact Program.apply_call_zero hf (hlength n) σ
  | succ room ih =>
    refine (Program.apply_call_succ hf (hlength n) σ room).trans (FunctionDef.apply_run ?_)
    rw [hparams, hbody]
    let ctx : Context := ⟨t, p.call t rounds limit room, rounds⟩
    let env : Locals := [("n", .int n)]
    have hn : Expr.HasValue ctx env σ (v "n") (.int n) := Expr.hasValue_var rfl
    have hint : ∀ i, Expr.HasValue ctx env σ (.int i) (.int i) := Expr.hasValue_int
    have htest := hasValue_operator ht hn (hint 0) (h.test n)
    by_cases hzero : count n = 0
    · rw [decide_eq_true hzero] at htest
      rw [if_pos (by omega), h.base n hzero]
      have hret := Stmt.apply_exec_ret (hint base)
      exact Stmt.apply_execAll_ret (r := .ok (.int base))
        (Stmt.apply_exec_ite htest (Stmt.apply_execAll_ret hret))
    · rw [decide_eq_false hzero] at htest
      have hskip : (Stmt.execAll ctx [] env).apply σ = some (.ok (.next env), σ) := rfl
      have hbefore : Expr.HasValue ctx env σ (.binary .sub (v "n") (.int 1)) (.int (n - 1)) :=
        hasValue_operator ht hn (hint 1) rfl
      have hcall := (Expr.apply_eval_call hbefore).trans (ih (n - 1))
      refine (Stmt.apply_execAll_next (Stmt.apply_exec_ite htest hskip)).trans
        (Stmt.apply_execAll_ret (Stmt.apply_exec_ret ?_))
      -- whether there is room for the inner call decides both
      have hroom : count (n - 1) < room ↔ count n < room + 1 := by
        have := h.pred n hzero
        omega
      simp only [hroom] at hcall
      by_cases hlt : count n < room + 1
      · rw [if_pos hlt] at hcall ⊢
        exact hasValue_operator ht hn hcall (h.join n hzero)
      · rw [if_neg hlt] at hcall ⊢
        exact Expr.apply_eval_binary_error hn hcall

end CountsDown

/-! ## The sum -/

/-- The 64-bit integer of an integer is what it wraps to. -/
theorem wrapsTo_ofInt (i : Int) : WrapsTo i (Int64.ofInt i) :=
  wrapsTo_of_bmod Int64.toInt_ofInt

/-- The sum of the numbers from one to `n`, none if `n` is less. -/
def sumTo (n : Int) : Int :=
  if 0 < n then n * (n + 1) / 2 else 0

/-- Below one there is nothing to sum up. -/
theorem sumTo_of_nonpos {i : Int} (h : i ≤ 0) : sumTo i = 0 :=
  if_neg (Int.not_lt.mpr h)

/-- A sum takes its last number and those before. -/
theorem sumTo_of_pos {i : Int} (h : 0 < i) : sumTo i = i + sumTo (i - 1) := by
  have hstep : i * (i + 1) = (i - 1) * (i - 1 + 1) + i * 2 := by ring
  rw [sumTo, if_pos h, hstep, Int.add_mul_ediv_right _ _ (by decide), sumTo, Int.add_comm]
  split
  · rfl
  · obtain rfl : i = 1 := by omega
    rfl

/-- A positive integer has its predecessor. -/
theorem toInt_pred {n : Int64} (h : 0 < n.toInt) : (n - 1).toInt = n.toInt - 1 := by
  have hlt := Int64.toInt_lt n
  rw [Int64.toInt_sub, Int64.toInt_one, Int.bmod_eq_of_le] <;> omega

/-- **The sum counts down** by the scheme, from positive numbers to zero. -/
theorem countsDown_sum : CountsDown sumRec "main" "sum" .leq 0 .add (fun n => n.toInt.toNat)
    (fun n => Int64.ofInt (sumTo n.toInt)) where
  body := ⟨_, rfl, rfl, fun _ _ => rfl⟩
  test n := by
    have hiff : n ≤ 0 ↔ n.toInt.toNat = 0 := by
      rw [Int64.le_iff_toInt_le, Int64.toInt_zero]
      omega
    rw [Operator.onInts?, decide_eq_decide.mpr hiff]
  base n hn := by
    rw [sumTo_of_nonpos (by omega)]
    rfl
  join n hn := by
    have hpos : 0 < n.toInt := by omega
    rw [toInt_pred hpos, sumTo_of_pos hpos, Int64.ofInt_add, Int64.ofInt_toInt]
    rfl
  pred n hn := by
    rw [toInt_pred (by omega)]
    omega

/-- The entry function makes one call more. -/
theorem apply_sumRec (ht : Table.standard = .ok t) (n : Int64) (σ : Store) :
    (sumRec.call t rounds depth depth "main" "main" [.int n]).apply σ =
      some (if max n.toInt 0 + 2 ≤ depth then .ok (.int (Int64.ofInt (sumTo n.toInt)))
        else .error (.stackOverflow depth), σ) := by
  cases depth with
  | zero =>
    rw [if_neg (by omega)]
    exact Program.apply_call_zero rfl rfl σ
  | succ room =>
    refine (Program.apply_call_succ rfl rfl σ room).trans (FunctionDef.apply_run
      (Stmt.apply_execAll_ret (Stmt.apply_exec_ret ?_)))
    refine (Expr.apply_eval_call (Expr.hasValue_var rfl)).trans
      ((countsDown_sum.apply_call ht room n σ).trans ?_)
    have hroom : n.toInt.toNat < room ↔ max n.toInt 0 + 2 ≤ (room + 1 : Nat) := by omega
    simp only [hroom]

/-- The recursive sum comes to the wrapped sum, or to an overflow. -/
theorem comesTo_sumRec (n : Int64) (depth : Nat) (w : World) :
    ComesTo "sum_rec" depth [.int n] w
      (if max n.toInt 0 + 2 ≤ depth then .ok (.int (Int64.ofInt (sumTo n.toInt)))
        else .error (.stackOverflow depth)) w := by
  obtain ⟨t, ht, -⟩ := Table.exists_standard
  have hmem : (⟨"sum_rec", _, _, sumRec⟩ : Sample) ∈ all := .head _
  have hcall : (sumRec.call t 0 depth depth "main" "main" [.int n]).apply
      ⟨sumRec.nullGlobals, w⟩ = _ := apply_sumRec ht n _
  exact comesTo_of_call hmem (not_hasInit _ hmem (by decide)) rfl ht hcall

/-! ## The factorial -/

/-- How often one is to be subtracted until zero is left, where the subtraction
wraps around below the least number. -/
def distance (n : Int64) : Nat :=
  (n.toInt % 2 ^ 64).toNat

/-- Each call is one step closer to the end. -/
theorem distance_pred {n : Int64} (h : distance n ≠ 0) : distance (n - 1) + 1 = distance n := by
  have hmod : (n - 1).toInt % 2 ^ 64 = (n.toInt - 1) % 2 ^ 64 := by
    rw [Int64.toInt_sub, Int64.toInt_one]
    exact bmod_modEq _
  unfold distance at h ⊢
  omega

/-- Only zero is at the end. -/
theorem distance_eq_zero {n : Int64} : distance n = 0 ↔ n = 0 := by
  have hlow := Int64.le_toInt n
  have hhigh := Int64.toInt_lt n
  rw [← Int64.toInt_inj, Int64.toInt_zero, distance]
  omega

/-- The distance to the end is the number itself, read without sign. -/
theorem ofInt_distance (n : Int64) : Int64.ofInt (distance n) = n := by
  refine (wrapsTo_ofInt (distance n)).unique n ?_ |>.symm
  rw [distance, Int.toNat_of_nonneg (Int.emod_nonneg _ (by decide))]
  exact (Int.mod_modEq _ _).symm

/-- **The factorial counts down** by the scheme, around the range for negative
numbers. -/
theorem countsDown_fact : CountsDown fact "main" "main" .eq 1 .mul distance
    (fun n => Int64.ofInt (distance n).factorial) where
  body := ⟨_, rfl, rfl, fun _ _ => rfl⟩
  test n := by rw [Operator.onInts?, decide_eq_decide.mpr distance_eq_zero]
  base n hn := by
    rw [hn]
    rfl
  join n hn := by
    rw [← distance_pred hn, Nat.factorial_succ, distance_pred hn, Nat.cast_mul, Int64.ofInt_mul,
      ofInt_distance]
    rfl
  pred _ hn := distance_pred hn

/-- The factorial comes to the wrapped factorial, or to an overflow. -/
theorem comesTo_fact (n : Int64) (depth : Nat) (w : World) :
    ComesTo "fact" depth [.int n] w
      (if distance n < depth then .ok (.int (Int64.ofInt (distance n).factorial))
        else .error (.stackOverflow depth)) w := by
  obtain ⟨t, ht, -⟩ := Table.exists_standard
  have hmem : (⟨"fact", _, _, fact⟩ : Sample) ∈ all := .tail _ (.tail _ (.head _))
  have hcall : (fact.call t 0 depth depth "main" "main" [.int n]).apply ⟨fact.nullGlobals, w⟩ = _ :=
    countsDown_fact.apply_call ht depth n _
  exact comesTo_of_call hmem (not_hasInit _ hmem (by decide)) rfl ht hcall

/-! ## Both samples -/

/-- **The recursive samples return up to the depth they need.** For every number and
every limit on the depth of calls, the sum of the numbers up to it is returned,
wrapped around to 64 bits, exactly if the limit admits two calls more than the
number, and else the stack overflows. The factorial of a number that is not
negative is returned exactly if the limit admits one call more. For a negative
number the count wraps around, so under any limit up to `2 ^ 63` the stack
overflows. Nothing is printed, and the world stays as it is. -/
theorem recursive_samples_return_up_to_depth (n : Int64) (depth : Nat) (w : World) :
    (∃ s, WrapsTo (if 0 < n.toInt then n.toInt * (n.toInt + 1) / 2 else 0) s ∧
      (ComesTo "sum_rec" depth [.int n] w (.ok (.int s)) w ↔ max n.toInt 0 + 2 ≤ depth) ∧
      (¬ max n.toInt 0 + 2 ≤ depth →
        ComesTo "sum_rec" depth [.int n] w (.error (.stackOverflow depth)) w)) ∧
    (0 ≤ n.toInt → ∃ f, WrapsTo n.toInt.toNat.factorial f ∧
      (ComesTo "fact" depth [.int n] w (.ok (.int f)) w ↔ n.toInt + 1 ≤ depth) ∧
      (¬ n.toInt + 1 ≤ depth →
        ComesTo "fact" depth [.int n] w (.error (.stackOverflow depth)) w)) ∧
    (n.toInt < 0 → depth ≤ 2 ^ 63 →
      ComesTo "fact" depth [.int n] w (.error (.stackOverflow depth)) w) := by
  have hsum := comesTo_sumRec n depth w
  have hfact := comesTo_fact n depth w
  have hlow := Int64.le_toInt n
  have hhigh := Int64.toInt_lt n
  refine ⟨⟨_, wrapsTo_ofInt _, hsum.ok_iff, fun hroom => ?_⟩, fun hn => ?_, fun hn hdepth => ?_⟩
  · rwa [if_neg hroom] at hsum
  · have hdistance : distance n = n.toInt.toNat := by
      unfold distance
      omega
    have hroom : distance n < depth ↔ n.toInt + 1 ≤ depth := by omega
    simp only [hroom] at hfact
    refine ⟨_, wrapsTo_ofInt _, ?_, fun hroom => ?_⟩
    · rw [← hdistance]
      exact hfact.ok_iff
    · rwa [if_neg hroom] at hfact
  · have hroom : ¬ distance n < depth := by
      unfold distance
      omega
    rwa [if_neg hroom] at hfact

/-- One call more than the depth overflows, a large factorial wraps, and a negative
number is out of reach. -/
theorem recursive_samples_return_up_to_depth_wrapped :
    ComesTo "sum_rec" 5 [.int 3] ⟨{}, {}, .steady 0⟩ (.ok (.int 6)) ⟨{}, {}, .steady 0⟩ ∧
    ComesTo "sum_rec" 4 [.int 3] ⟨{}, {}, .steady 0⟩ (.error (.stackOverflow 4))
      ⟨{}, {}, .steady 0⟩ ∧
    ComesTo "fact" 26 [.int 25] ⟨{}, {}, .steady 0⟩ (.ok (.int 7034535277573963776))
      ⟨{}, {}, .steady 0⟩ ∧
    ComesTo "fact" 1000 [.int (-1)] ⟨{}, {}, .steady 0⟩ (.error (.stackOverflow 1000))
      ⟨{}, {}, .steady 0⟩ := by
  obtain ⟨⟨s, hs, hreturns, -⟩, -, -⟩ :=
    recursive_samples_return_up_to_depth 3 5 ⟨{}, {}, .steady 0⟩
  obtain ⟨⟨-, -, -, hoverflows⟩, -, -⟩ :=
    recursive_samples_return_up_to_depth 3 4 ⟨{}, {}, .steady 0⟩
  obtain ⟨-, hfact, -⟩ := recursive_samples_return_up_to_depth 25 26 ⟨{}, {}, .steady 0⟩
  obtain ⟨-, -, hnegative⟩ := recursive_samples_return_up_to_depth (-1) 1000 ⟨{}, {}, .steady 0⟩
  obtain ⟨f, hf, hproduct, -⟩ := hfact (by decide)
  have hsum : 6 = s := hs.unique 6 (by decide)
  have hwrapped : 7034535277573963776 = f := hf.unique _ (by decide +kernel)
  subst hsum hwrapped
  exact ⟨hreturns.mpr (by decide), hoverflows (by decide), hproduct.mpr (by decide),
    hnegative (by decide) (by decide)⟩

end Sample

end BlockIR
