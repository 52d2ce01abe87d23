import BlockIR.Proofs.Console
import BlockIR.Proofs.Machine.Arrays
import BlockIR.Proofs.Sample.Recursion
/-!
# The samples with loops

What the locals and the heap are after so many rounds is written down for each
loop, and the rule for loops does the rest. One sample adds numbers up; the other
fills an array with its own indices, prints its length and adds its elements up.
-/

namespace BlockIR

namespace Sample

open Source

variable {t : Table} {n : Int64} {rounds limit : Nat}

/-! ## Counters -/

section Counters

variable {ctx : Context} {env : Locals} {σ : Store} {j : Nat}

/-- A counter below the range is its own integer. -/
theorem toInt_counter (h : j < 2 ^ 63) : (Int64.ofInt j).toInt = j :=
  Int64.toInt_ofInt_of_le (by omega) (by omega)

/-- Below zero there is nothing to sum up. -/
theorem sumTo_toNat (i : Int) : sumTo i.toNat = sumTo i := by
  rcases Int.lt_or_le 0 i with hpos | hle
  · rw [Int.toNat_of_nonneg hpos.le]
  · rw [sumTo_of_nonpos hle, sumTo_of_nonpos (by omega)]

/-- A sum is that up to the number before, and the number. -/
theorem sumTo_of_nonneg {i : Int} (h : 0 ≤ i) : sumTo i = sumTo (i - 1) + i := by
  rcases Int.lt_or_eq_of_le h with hpos | rfl
  · rw [sumTo_of_pos hpos, Int.add_comm]
  · rfl

/-- The sum up to the number before has a closed form. -/
theorem sumTo_pred {i : Int} (h : 0 ≤ i) : sumTo (i - 1) = i * (i - 1) / 2 := by
  rw [sumTo, Int.sub_add_cancel, Int.mul_comm]
  split
  · rfl
  · obtain rfl | rfl : i = 0 ∨ i = 1 := by omega
    · rfl
    · rfl

/-- The counter of a loop, counted up. -/
theorem hasValue_next (ht : Table.standard = .ok ctx.table)
    (h : env.lookup "i" = some (.int (Int64.ofInt j))) :
    Expr.HasValue ctx env σ (.binary .add (v "i") (.int 1)) (.int (Int64.ofInt (j + 1 : Nat))) := by
  refine hasValue_operator ht (Expr.hasValue_var h) (Expr.hasValue_int 1) ?_
  rw [Nat.cast_succ, Int64.ofInt_add]
  rfl

end Counters

/-! ## The sum -/

/-- The locals of the loop that adds up, after so many rounds. -/
def sumLocals (n : Int64) (j : Nat) : Locals :=
  [("i", .int (Int64.ofInt (j + 1 : Nat))), ("acc", .int (Int64.ofInt (sumTo j))), ("n", .int n)]

/-- **A call of the sum by a loop.** Below the greatest number the counter gets past the
bound without wrapping around. -/
theorem apply_sumLoop (ht : Table.standard = .ok t) (hn : n < Int64.maxValue)
    (hrounds : n.toInt.toNat < rounds) (room : Nat) (σ : Store) :
    (sumLoop.call t rounds limit (room + 1) "main" "main" [.int n]).apply σ =
      some (.ok (.int (Int64.ofInt (sumTo n.toInt))), σ) := by
  have hmax : n.toInt < 2 ^ 63 - 1 := Int64.lt_iff_toInt_lt.mp hn
  refine (Program.apply_call_succ rfl rfl σ room).trans (FunctionDef.apply_run ?_)
  refine (Stmt.apply_execAll_next (Stmt.apply_exec_declare (Expr.hasValue_int 0))).trans ?_
  refine (Stmt.apply_execAll_next (Stmt.apply_exec_declare (Expr.hasValue_int 1))).trans ?_
  let ctx : Context := ⟨t, sumLoop.call t rounds limit room, rounds⟩
  have htest : ∀ j ≤ n.toInt.toNat, Expr.HasValue ctx (sumLocals n j) σ
      (.binary .leq (v "i") (v "n")) (.ofBool (j < n.toInt.toNat)) := by
    intro j hj
    have hiff : Int64.ofInt (j + 1 : Nat) ≤ n ↔ j < n.toInt.toNat := by
      rw [Int64.le_iff_toInt_le, toInt_counter (by omega)]
      omega
    refine hasValue_operator ht (Expr.hasValue_var rfl) (Expr.hasValue_var rfl) ?_
    rw [Operator.onInts?, decide_eq_decide.mpr hiff]
  have hbody : ∀ j < n.toInt.toNat, (Stmt.execAll ctx
      [set "acc" (.binary .add (v "acc") (v "i")), set "i" (.binary .add (v "i") (.int 1))]
      (sumLocals n j)).apply σ = some (.ok (.next (sumLocals n (j + 1))), σ) := by
    intro j _
    have hadd : Expr.HasValue ctx (sumLocals n j) σ (.binary .add (v "acc") (v "i"))
        (.int (Int64.ofInt (sumTo (j + 1 : Nat)))) := by
      have hsum : sumTo (j + 1 : Nat) = sumTo j + (j + 1 : Nat) := by
        rw [sumTo_of_nonneg (by omega), Nat.cast_succ, Int.add_sub_cancel]
      refine hasValue_operator ht (Expr.hasValue_var rfl) (Expr.hasValue_var rfl) ?_
      rw [Operator.onInts?, hsum, Int64.ofInt_add]
    refine (Stmt.apply_execAll_next (Stmt.apply_exec_assign hadd rfl)).trans ?_
    exact Stmt.apply_execAll_next (Stmt.apply_exec_assign (hasValue_next ht rfl) rfl)
  have hloop := Stmt.apply_exec_loop htest hbody (fun _ => rfl) hrounds
  have hret : Expr.HasValue ctx (sumLocals n n.toInt.toNat) σ (v "acc")
    (.int (Int64.ofInt (sumTo n.toInt.toNat))) := Expr.hasValue_var rfl
  rw [sumTo_toNat] at hret
  exact (Stmt.apply_execAll_next hloop).trans (Stmt.apply_execAll_ret (Stmt.apply_exec_ret hret))

/-! ## The array -/

/-- An array whose first elements are their own indices, and the others null. -/
def indices (total done : Nat) : Array Value :=
  Array.ofFn fun i : Fin total => if i < done then .int (Int64.ofInt i) else .null

/-- Before the first round the array holds nulls. -/
theorem indices_zero (total : Nat) : indices total 0 = Array.replicate total .null := by
  refine Array.ext ?_ fun i hi hi' => ?_
  · simp [indices]
  · simp [indices]

/-- An element that is written holds its index. -/
theorem getElem?_indices {total done j : Nat} (h : j < total) (hdone : j < done) :
    (indices total done)[j]? = some (.int (Int64.ofInt j)) := by
  simp [indices, h, hdone]

/-- **One store writes one index more.** -/
theorem setIfInBounds_indices (total j : Nat) :
    (indices total j).setIfInBounds j (.int (Int64.ofInt j)) = indices total (j + 1) := by
  refine Array.ext (by simp [indices]) fun i hi hi' => ?_
  rw [Array.getElem_setIfInBounds (by simpa [indices] using hi')]
  by_cases hij : j = i
  · simp [indices, hij]
  · have hiff : i < j + 1 ↔ i < j := by omega
    simp only [indices, Array.getElem_ofFn, if_neg hij, hiff]

/-- The world with one array more, filled so far. -/
def filled (total done : Nat) (w : World) : World :=
  { w with heap := (w.heap.allocate (indices total done)).2 }

/-- The stores do not change the length. -/
theorem length_filled (total done : Nat) (w : World) :
    (filled total done w).heap.length w.heap.arrays.size = total := by
  have helements : (filled total done w).heap.elements w.heap.arrays.size = indices total done :=
    w.heap.elements_allocate _
  rw [Heap.length, helements, indices, Array.size_ofFn]

/-- The next store fills one element more. -/
theorem store_filled {total j : Nat} (hj : j < total) (hsmall : j < 2 ^ 63) (w : World) :
    (Operation.store (.array w.heap.arrays.size) (.int (Int64.ofInt j)) (.int (Int64.ofInt j))).apply
      (filled total j w) = (.ok (), filled total (j + 1) w) := by
  have hcounter := toInt_counter hsmall
  have hin : (Int64.ofInt j).toInt < (indices total j).size := by
    rw [hcounter, indices, Array.size_ofFn]
    omega
  have hstore := w.heap.store_allocate (by omega) hin (.int (Int64.ofInt j))
  rw [hcounter, Int.toNat_natCast, setIfInBounds_indices] at hstore
  have hheap : (filled total j w).heap.store w.heap.arrays.size (Int64.ofInt j)
    (.int (Int64.ofInt j)) = (.ok (), (filled total (j + 1) w).heap) := hstore
  rw [Operation.apply_store, hheap]
  rfl

/-- Once filled, the array holds an index everywhere. -/
theorem load_filled {total j : Nat} (hj : j < total) (hsmall : j < 2 ^ 63) (w : World) :
    (Operation.load (.array w.heap.arrays.size) (.int (Int64.ofInt j))).apply (filled total total w) =
      (.ok (.int (Int64.ofInt j)), filled total total w) := by
  have hcounter := toInt_counter hsmall
  have hheap : (filled total total w).heap.load w.heap.arrays.size (Int64.ofInt j) =
      .ok (.int (Int64.ofInt j)) := by
    refine w.heap.load_allocate (by omega) ?_
    rw [hcounter]
    exact getElem?_indices hj hj
  rw [Operation.apply_load, hheap]

/-- A length in range is not cut. -/
theorem saturate_toNat (hn : 0 ≤ n.toInt) : Builtin.saturate n.toInt.toNat = n := by
  have hmax := Int64.toInt_lt n
  have hfits : n.toInt.toNat ≤ Int64.maxValue.toInt.toNat := by
    rw [Int64.toInt_maxValue]
    omega
  rw [Builtin.saturate, if_pos hfits, ← Int64.ofInt_eq_ofNat, Int.toNat_of_nonneg hn,
    Int64.ofInt_toInt]

section Array

variable {ctx : Context} (ht : Table.standard = .ok ctx.table)

include ht

/-- The length of the array is the number it was made for. -/
theorem hasValue_length (hn : 0 ≤ n.toInt) {env : Locals} {globals : Globals} {w : World}
    {done : Nat} (ha : env.lookup "a" = some (.array w.heap.arrays.size)) :
    Expr.HasValue ctx env ⟨globals, filled n.toInt.toNat done w⟩
      (builtin Builtin.Name.arrayLength [v "a"]) (.int n) := by
  have hlength := Table.apply_arrayLength ht w.heap.arrays.size (filled n.toInt.toNat done w)
  rw [length_filled, saturate_toNat hn] at hlength
  exact (Expr.apply_eval_builtin (Expr.hasValue_var ha)).trans (Eval.apply_effect hlength)

/-- The test of a loop that counts up to the number. -/
theorem hasValue_below (hn : 0 ≤ n.toInt) {env : Locals} {σ : Store} {bound : Expr} {j : Nat}
    (hj : j ≤ n.toInt.toNat) (hi : env.lookup "i" = some (.int (Int64.ofInt j)))
    (hbound : bound.HasValue ctx env σ (.int n)) :
    Expr.HasValue ctx env σ (.binary .lt (v "i") bound) (.ofBool (j < n.toInt.toNat)) := by
  have hmax := Int64.toInt_lt n
  have hiff : Int64.ofInt j < n ↔ j < n.toInt.toNat := by
    rw [Int64.lt_iff_toInt_lt, toInt_counter (by omega)]
    omega
  refine hasValue_operator ht (Expr.hasValue_var hi) hbound ?_
  rw [Operator.onInts?, decide_eq_decide.mpr hiff]

/-- The locals of the loop that fills the array, after so many rounds. -/
def fillLocals (n : Int64) (a : Address) (j : Nat) : Locals :=
  [("i", .int (Int64.ofInt j)), ("a", .array a), ("n", .int n)]

/-- **The loop that fills the array** stores every index at its own place. -/
theorem apply_fill (hn : 0 ≤ n.toInt) (hrounds : n.toInt.toNat < ctx.rounds) (globals : Globals)
    (w : World) :
    ((Stmt.loop (.binary .lt (v "i") (v "n")) [
        .assignIndex (v "a") (v "i") (v "i"),
        set "i" (.binary .add (v "i") (.int 1))]).exec ctx
      (fillLocals n w.heap.arrays.size 0)).apply ⟨globals, filled n.toInt.toNat 0 w⟩ =
      some (.ok (.next (fillLocals n w.heap.arrays.size n.toInt.toNat)),
        ⟨globals, filled n.toInt.toNat n.toInt.toNat w⟩) := by
  have hmax := Int64.toInt_lt n
  have hbody : ∀ j < n.toInt.toNat, (Stmt.execAll ctx [
        .assignIndex (v "a") (v "i") (v "i"),
        set "i" (.binary .add (v "i") (.int 1))] (fillLocals n w.heap.arrays.size j)).apply
      ⟨globals, filled n.toInt.toNat j w⟩ =
      some (.ok (.next (fillLocals n w.heap.arrays.size (j + 1))),
        ⟨globals, filled n.toInt.toNat (j + 1) w⟩) := by
    intro j hj
    have hstore := store_filled hj (by omega) w
    refine (Stmt.apply_execAll_next (Stmt.apply_exec_assignIndex (Expr.hasValue_var rfl)
      (Expr.hasValue_var rfl) (Expr.hasValue_var rfl) hstore)).trans ?_
    exact Stmt.apply_execAll_next (Stmt.apply_exec_assign (hasValue_next ht rfl) rfl)
  exact Stmt.apply_exec_loop
    (fun j hj => hasValue_below ht hn hj rfl (Expr.hasValue_var rfl)) hbody (fun _ => rfl) hrounds

/-- The locals of the loop that adds the elements up, after so many rounds. -/
def addLocals (n : Int64) (a : Address) (j : Nat) : Locals :=
  [("sum", .int (Int64.ofInt (sumTo (j - 1)))), ("i", .int (Int64.ofInt j)), ("a", .array a),
    ("n", .int n)]

/-- **The loop that adds the elements up** loads every index from its own place. -/
theorem apply_addUp (hn : 0 ≤ n.toInt) (hrounds : n.toInt.toNat < ctx.rounds) (globals : Globals)
    (w : World) :
    ((Stmt.loop (.binary .lt (v "i") (builtin Builtin.Name.arrayLength [v "a"])) [
        set "sum" (.binary .add (v "sum") (.index (v "a") (v "i"))),
        set "i" (.binary .add (v "i") (.int 1))]).exec ctx
      (addLocals n w.heap.arrays.size 0)).apply
        ⟨globals, filled n.toInt.toNat n.toInt.toNat w⟩ =
      some (.ok (.next (addLocals n w.heap.arrays.size n.toInt.toNat)),
        ⟨globals, filled n.toInt.toNat n.toInt.toNat w⟩) := by
  have hmax := Int64.toInt_lt n
  have hbody : ∀ j < n.toInt.toNat, (Stmt.execAll ctx [
        set "sum" (.binary .add (v "sum") (.index (v "a") (v "i"))),
        set "i" (.binary .add (v "i") (.int 1))] (addLocals n w.heap.arrays.size j)).apply
      ⟨globals, filled n.toInt.toNat n.toInt.toNat w⟩ =
      some (.ok (.next (addLocals n w.heap.arrays.size (j + 1))),
        ⟨globals, filled n.toInt.toNat n.toInt.toNat w⟩) := by
    intro j hj
    have hadd : Expr.HasValue ctx (addLocals n w.heap.arrays.size j)
        ⟨globals, filled n.toInt.toNat n.toInt.toNat w⟩
        (.binary .add (v "sum") (.index (v "a") (v "i")))
        (.int (Int64.ofInt (sumTo ((j + 1 : Nat) - 1)))) := by
      have hsum : sumTo ((j + 1 : Nat) - 1) = sumTo (j - 1) + j := by
        rw [Nat.cast_succ, Int.add_sub_cancel, sumTo_of_nonneg (Int.natCast_nonneg j)]
      have hload := load_filled hj (by omega) w
      refine hasValue_operator ht (Expr.hasValue_var rfl)
        (Expr.hasValue_index (Expr.hasValue_var rfl) (Expr.hasValue_var rfl) hload) ?_
      rw [Operator.onInts?, hsum, Int64.ofInt_add]
    refine (Stmt.apply_execAll_next (Stmt.apply_exec_assign hadd rfl)).trans ?_
    exact Stmt.apply_execAll_next (Stmt.apply_exec_assign (hasValue_next ht rfl) rfl)
  exact Stmt.apply_exec_loop
    (fun j hj => hasValue_below ht hn hj rfl (hasValue_length ht hn rfl)) hbody (fun _ => rfl)
    hrounds

end Array

/-- **A call of the array sample.** If the console takes the line, the sum is returned. -/
theorem apply_array (ht : Table.standard = .ok t) (hn : 0 ≤ n.toInt)
    (hrounds : n.toInt.toNat < rounds) (room : Nat) (globals : Globals) (w : World) :
    (array.call t rounds limit (room + 1) "main" "main" [.int n]).apply ⟨globals, w⟩ =
      some (((w.console.printLine (Decimal.ofInt64 n)).1.mapError (.io Builtin.Name.print)).map
          fun _ => .int (Int64.ofInt (sumTo (n.toInt - 1))),
        ⟨globals, filled n.toInt.toNat n.toInt.toNat
          { w with console := (w.console.printLine (Decimal.ofInt64 n)).2 }⟩) := by
  refine (Program.apply_call_succ rfl rfl _ room).trans (FunctionDef.apply_run ?_)
  let ctx : Context := ⟨t, array.call t rounds limit room, rounds⟩
  have hnew : ((Expr.newArray (v "n")).eval ctx [("n", .int n)]).apply ⟨globals, w⟩ =
      some (.ok (.array w.heap.arrays.size), ⟨globals, filled n.toInt.toNat 0 w⟩) := by
    refine (Expr.apply_eval_newArray (Expr.hasValue_var rfl)).trans ?_
    rw [Eval.apply_effect (Operation.apply_newArray hn w), Heap.allocateNulls, ← indices_zero]
    rfl
  refine (Stmt.apply_execAll_next (Stmt.apply_exec_declare hnew)).trans ?_
  refine (Stmt.apply_execAll_next (Stmt.apply_exec_declare (Expr.hasValue_int 0))).trans ?_
  refine (Stmt.apply_execAll_next (apply_fill ht hn hrounds globals w)).trans ?_
  have hprint : ((builtin Builtin.Name.print [builtin Builtin.Name.arrayLength [v "a"]]).eval ctx
      (fillLocals n w.heap.arrays.size n.toInt.toNat)).apply
        ⟨globals, filled n.toInt.toNat n.toInt.toNat w⟩ =
      some (((w.console.printLine (Decimal.ofInt64 n)).1.mapError (.io Builtin.Name.print)).map
          fun _ => .null,
        ⟨globals, filled n.toInt.toNat n.toInt.toNat
          { w with console := (w.console.printLine (Decimal.ofInt64 n)).2 }⟩) :=
    (Expr.apply_eval_builtin (hasValue_length ht hn rfl)).trans
      (Eval.apply_effect (Table.apply_print ht (.int n) _))
  cases hline : (w.console.printLine (Decimal.ofInt64 n)).1 with
  | error fault =>
    rw [hline] at hprint
    exact Stmt.apply_execAll_ret (r := .error _) (Stmt.apply_exec_expr_error hprint)
  | ok _ =>
    rw [hline] at hprint
    have hloop := @apply_addUp n ctx ht hn hrounds globals
      { w with console := (w.console.printLine (Decimal.ofInt64 n)).2 }
    refine (Stmt.apply_execAll_next (Stmt.apply_exec_expr hprint)).trans ?_
    refine (Stmt.apply_execAll_next (Stmt.apply_exec_declare (Expr.hasValue_int 0))).trans ?_
    refine (Stmt.apply_execAll_next (Stmt.apply_exec_assign (Expr.hasValue_int 0) rfl)).trans ?_
    refine (Stmt.apply_execAll_next hloop).trans ?_
    have hret : Expr.HasValue ctx (addLocals n w.heap.arrays.size n.toInt.toNat)
        ⟨globals, filled n.toInt.toNat n.toInt.toNat
          { w with console := (w.console.printLine (Decimal.ofInt64 n)).2 }⟩ (v "sum")
        (.int (Int64.ofInt (sumTo (n.toInt.toNat - 1)))) := Expr.hasValue_var rfl
    rw [Int.toNat_of_nonneg hn] at hret
    exact Stmt.apply_execAll_ret (Stmt.apply_exec_ret hret)

/-- There is no array of a negative size. -/
theorem apply_array_negative (hn : n.toInt < 0) (room : Nat) (σ : Store) :
    (array.call t rounds limit (room + 1) "main" "main" [.int n]).apply σ =
      some (.error (.negativeSize n), σ) := by
  refine (Program.apply_call_succ rfl rfl σ room).trans (FunctionDef.apply_run ?_)
  refine Stmt.apply_execAll_ret (r := .error _) (Stmt.apply_exec_declare_error ?_)
  exact (Expr.apply_eval_newArray (Expr.hasValue_var rfl)).trans
    (Eval.apply_effect (Operation.newArray_negative hn))

/-! ## Both samples -/

section Outcomes

variable {depth : Nat} (hdepth : 1 ≤ depth) (w : World)

include hdepth

/-- The sum by a loop comes to the wrapped sum. -/
theorem comesTo_sumLoop (hn : n < Int64.maxValue) :
    ComesTo "sum_loop" depth [.int n] w (.ok (.int (Int64.ofInt (sumTo n.toInt)))) w := by
  obtain ⟨t, ht, -⟩ := Table.exists_standard
  obtain ⟨room, rfl⟩ := Nat.exists_eq_add_of_le' hdepth
  have hmem : (⟨"sum_loop", _, _, sumLoop⟩ : Sample) ∈ all := .tail _ (.head _)
  have hcall : (sumLoop.call t (n.toInt.toNat + 1) (room + 1) (room + 1) "main" "main"
      [.int n]).apply ⟨sumLoop.nullGlobals, w⟩ = _ :=
    apply_sumLoop ht hn (Nat.lt_succ_self _) room _
  exact comesTo_of_call hmem (not_hasInit _ hmem (by decide)) rfl ht hcall

/-- The array sample prints the length and sums up the indices. -/
theorem comesTo_array (hn : 0 ≤ n.toInt) :
    ComesTo "array" depth [.int n] w
      (((w.console.printLine (Decimal.ofInt64 n)).1.mapError (.io Builtin.Name.print)).map
        fun _ => .int (Int64.ofInt (sumTo (n.toInt - 1))))
      (filled n.toInt.toNat n.toInt.toNat
        { w with console := (w.console.printLine (Decimal.ofInt64 n)).2 }) := by
  obtain ⟨t, ht, -⟩ := Table.exists_standard
  obtain ⟨room, rfl⟩ := Nat.exists_eq_add_of_le' hdepth
  have hmem : (⟨"array", _, _, array⟩ : Sample) ∈ all := .tail _ (.tail _ (.tail _ (.head _)))
  have hcall : (array.call t (n.toInt.toNat + 1) (room + 1) (room + 1) "main" "main"
      [.int n]).apply ⟨array.nullGlobals, w⟩ = _ :=
    apply_array ht hn (Nat.lt_succ_self _) room _ w
  exact comesTo_of_call hmem (not_hasInit _ hmem (by decide)) rfl ht hcall

/-- The array sample refuses a negative size. -/
theorem comesTo_array_negative (hn : n.toInt < 0) :
    ComesTo "array" depth [.int n] w (.error (.negativeSize n)) w := by
  obtain ⟨t, ht, -⟩ := Table.exists_standard
  obtain ⟨room, rfl⟩ := Nat.exists_eq_add_of_le' hdepth
  have hmem : (⟨"array", _, _, array⟩ : Sample) ∈ all := .tail _ (.tail _ (.tail _ (.head _)))
  have hcall : (array.call t 0 (room + 1) (room + 1) "main" "main" [.int n]).apply
      ⟨array.nullGlobals, w⟩ = _ := apply_array_negative hn room _
  exact comesTo_of_call hmem (not_hasInit _ hmem (by decide)) rfl ht hcall

end Outcomes

/-- **The samples with loops return what they should**, wherever a call may be in
progress. Below the greatest number the sum of the numbers up to it is returned,
wrapped around to 64 bits, and that is what the recursive sum returns if its stack
does not overflow. For a number that is not negative the array sample prints the
number on a line, returns the sum of the numbers below it, wrapped around, and
prints nothing else; a console without room for the line takes what fits, and the
print fails. For a negative number it fails and prints nothing. -/
theorem loop_samples_return {depth : Nat} (hdepth : 1 ≤ depth) (n : Int64) (w : World) :
    (n < Int64.maxValue →
      ∃ s, WrapsTo (if 0 < n.toInt then n.toInt * (n.toInt + 1) / 2 else 0) s ∧
        ComesTo "sum_loop" depth [.int n] w (.ok (.int s)) w ∧
        ∀ depth' w₁ w₂ result, ComesTo "sum_rec" depth' [.int n] w₁ result w₂ →
          result ≠ .error (.stackOverflow depth') → result = .ok (.int s)) ∧
    (0 ≤ n.toInt →
      (∀ room, w.console.room = some room →
        (Utf8.encode (Decimal.ofInt64 n ++ "\n")).length ≤ room) →
      ∃ s w', WrapsTo (n.toInt * (n.toInt - 1) / 2) s ∧
        ComesTo "array" depth [.int n] w (.ok (.int s)) w' ∧
        w'.console.output = w.console.output ++ Utf8.encode (Decimal.ofInt64 n ++ "\n")) ∧
    (0 ≤ n.toInt → ∀ room, w.console.room = some room →
      room < (Utf8.encode (Decimal.ofInt64 n ++ "\n")).length →
      ∃ w', ComesTo "array" depth [.int n] w
          (.error (.io Builtin.Name.print w.console.outputFault)) w' ∧
        w'.console.output =
          w.console.output ++ (Utf8.encode (Decimal.ofInt64 n ++ "\n")).take room) ∧
    (n.toInt < 0 → ComesTo "array" depth [.int n] w (.error (.negativeSize n)) w) := by
  refine ⟨fun hn => ?_, fun hn hfits => ?_, fun hn room hroom hlong => ?_,
    comesTo_array_negative hdepth w⟩
  · refine ⟨_, wrapsTo_ofInt _, comesTo_sumLoop hdepth w hn, ?_⟩
    intro depth' w₁ w₂ result hresult hreturns
    obtain ⟨hsame, -⟩ := hresult.unique (comesTo_sumRec n depth' w₁)
    subst hsame
    split at hreturns
    · rename_i hroom
      exact if_pos hroom
    · exact absurd rfl hreturns
  · obtain ⟨hprint, houtput⟩ := Console.printLine_of_fits hfits
    have harray := comesTo_array hdepth w hn
    rw [hprint, sumTo_pred hn] at harray
    exact ⟨_, _, wrapsTo_ofInt _, harray, houtput⟩
  · have harray := comesTo_array hdepth w hn
    rw [Console.printLine_of_lt hroom hlong] at harray
    exact ⟨_, harray, rfl⟩

/-- The longest loop that ends, and arrays on a console with and without room. -/
theorem loop_samples_return_longest :
    ComesTo "sum_loop" 1 [.int (Int64.maxValue - 1)] ⟨{}, {}, .steady 0⟩
      (.ok (.int 4611686018427387905)) ⟨{}, {}, .steady 0⟩ ∧
    (∃ w', ComesTo "array" 1 [.int 12] ⟨{}, {}, .steady 0⟩ (.ok (.int 66)) w' ∧
      w'.console.output = #[49, 50, 10]) ∧
    (∃ w', ComesTo "array" 1 [.int 12] ⟨{}, { room := some 1 }, .steady 0⟩
      (.error (.io Builtin.Name.print .outputFull)) w' ∧ w'.console.output = #[49]) ∧
    ComesTo "array" 1 [.int (-1)] ⟨{}, {}, .steady 0⟩ (.error (.negativeSize (-1)))
      ⟨{}, {}, .steady 0⟩ := by
  obtain ⟨hsum, -⟩ := loop_samples_return (Nat.le_refl 1) (Int64.maxValue - 1) ⟨{}, {}, .steady 0⟩
  obtain ⟨s, hs, hloop, -⟩ := hsum (by decide)
  obtain ⟨-, harray, -⟩ := loop_samples_return (Nat.le_refl 1) 12 ⟨{}, {}, .steady 0⟩
  obtain ⟨s', w', hs', hreturns, houtput⟩ := harray (by decide) (by rintro room ⟨⟩)
  obtain ⟨-, -, hfull, -⟩ :=
    loop_samples_return (Nat.le_refl 1) 12 ⟨{}, { room := some 1 }, .steady 0⟩
  obtain ⟨w'', hfails, hcut⟩ := hfull (by decide) 1 rfl (by decide +kernel)
  obtain ⟨-, -, -, hnegative⟩ := loop_samples_return (Nat.le_refl 1) (-1) ⟨{}, {}, .steady 0⟩
  have hwrapped : 4611686018427387905 = s := hs.unique _ (by decide)
  have hsmall : 66 = s' := hs'.unique _ (by decide)
  subst hwrapped hsmall
  exact ⟨hloop, ⟨w', hreturns, houtput.trans (by decide +kernel)⟩,
    ⟨w'', hfails, hcut.trans (by decide +kernel)⟩, hnegative (by decide)⟩

end Sample

end BlockIR
