import BlockIR.Proofs.Heap
import BlockIR.Proofs.Machine.Assigned
import BlockIR.Proofs.Machine.Moments
import BlockIR.Proofs.Machine.World
/-!
# Arrays change by stores alone

What a step does to the heap is told by its instruction (`Revises`): a store in
range replaces the one element that it names, a new array is added to those that
are there, and all else leaves the heap as it is. Between steps the heap stays
(`Evolves`). So arrays keep their lengths as long as an evaluation lasts.
-/

namespace BlockIR

open Success

/-! ## Operations on arrays -/

/-- **A value is an array and another one an index of it.** -/
def Heap.Indexes (h : Heap) (a i : Value) : Prop :=
  ∃ address n, a = .array address ∧ i = .int n ∧ 0 ≤ n.toInt ∧ n.toInt < h.length address

/-- The instruction loads from an array or stores into one. -/
def Instruction.accessesArray : Instruction → Bool
  | .loadArray .. | .storeArray .. => true
  | _ => false

namespace Operation

variable {w : World} {a i v : Value} {n : Int64}

/-- A negative size is refused. -/
theorem newArray_negative (hn : n.toInt < 0) :
    (newArray (.int n)).apply w = (.error (.negativeSize n), w) := by
  have hneg : n < 0 := Int64.lt_iff_toInt_lt.mpr hn
  simp only [newArray, int, pure_bind, hneg, if_true]
  rfl

/-- **An array of a size that is not negative is made**, of nulls. -/
theorem apply_newArray (hn : 0 ≤ n.toInt) (w : World) :
    (newArray (.int n)).apply w = (.ok (.array (w.heap.allocateNulls n.toInt.toNat).1),
      { w with heap := (w.heap.allocateNulls n.toInt.toNat).2 }) := by
  have hneg : ¬ n < 0 := fun h => Int.not_lt.mpr hn (Int64.lt_iff_toInt_lt.mp h)
  simp only [newArray, int, pure_bind, hneg, if_false]
  rfl

/-- A new array is of a size that is not negative, or there is none. -/
theorem newArray_cases (v : Value) (w : World) :
    ((newArray v).apply w).2.heap = w.heap ∨
      ∃ n : Int64, v = .int n ∧ 0 ≤ n.toInt ∧
        w.heap.Adds ((newArray v).apply w).2.heap n.toInt.toNat := by
  cases v with
  | int n =>
    by_cases hn : n.toInt < 0
    · rw [newArray_negative hn]
      exact .inl rfl
    · refine .inr ⟨n, rfl, Int.not_lt.mp hn, ?_⟩
      rw [apply_newArray (Int.not_lt.mp hn)]
      exact w.heap.adds_allocateNulls _
  | str _ => exact .inl rfl
  | array _ => exact .inl rfl
  | null => exact .inl rfl

/-- A load of an array is one of the heap. -/
theorem apply_load (address : Address) (n : Int64) (w : World) :
    (load (.array address) (.int n)).apply w = (w.heap.load address n, w) := by
  change (Effect.load address n).apply w = _
  rw [Effect.load, Transform.apply_query]

/-- A store to an array is one of the heap. -/
theorem apply_store (address : Address) (n : Int64) (v : Value) (w : World) :
    (store (.array address) (.int n) v).apply w =
      ((w.heap.store address n v).1, { w with heap := (w.heap.store address n v).2 }) := rfl

/-- Where the operands are no array and an index of it, their check fails, and so
does what would follow. -/
theorem index_check_fails {α : Type} {role : OperandRole} {k : Address → Int64 → Effect α}
    (h : ¬ w.heap.Indexes a i)
    (hk : ∀ address (n : Int64), ¬ (0 ≤ n.toInt ∧ n.toInt < w.heap.length address) →
      ∃ e, (k address n).apply w = (.error e, w)) :
    ∃ e, (array role a >>= fun address => int .arrayIndex i >>= k address).apply w =
      (.error e, w) := by
  cases a with
  | array address =>
    cases i with
    | int n => exact hk address n fun hin => h ⟨address, n, rfl, rfl, hin.1, hin.2⟩
    | str _ => exact ⟨_, rfl⟩
    | array _ => exact ⟨_, rfl⟩
    | null => exact ⟨_, rfl⟩
  | int _ => exact ⟨_, rfl⟩
  | str _ => exact ⟨_, rfl⟩
  | null => exact ⟨_, rfl⟩

/-- A load that indexes nothing fails and changes nothing. -/
theorem load_fails (h : ¬ w.heap.Indexes a i) : ∃ e, (load a i).apply w = (.error e, w) := by
  refine index_check_fails h fun address n hout =>
    ⟨.indexOutOfBounds n (w.heap.length address), ?_⟩
  rw [Effect.load, Transform.apply_query, Heap.load_eq_error hout]

/-- A store that indexes nothing fails and changes nothing. -/
theorem store_fails (h : ¬ w.heap.Indexes a i) (v : Value) :
    ∃ e, (store a i v).apply w = (.error e, w) := by
  refine index_check_fails (k := fun address n => Effect.store address n v) h
    fun address n hout => ⟨.indexOutOfBounds n (w.heap.length address), ?_⟩
  exact (apply_store address n v w).trans (by rw [Heap.store_eq_error hout])

/-- **A store in range replaces an element.** -/
theorem store_in_range {address : Address} (hnonneg : 0 ≤ n.toInt)
    (hlt : n.toInt < w.heap.length address) (v : Value) :
    ∃ w', (store (.array address) (.int n) v).apply w = (.ok (), w') ∧
      w.heap.Sets w'.heap address n v := by
  refine ⟨{ w with heap := (w.heap.store address n v).2 }, ?_, Heap.sets_store hnonneg hlt v⟩
  rw [apply_store, Heap.store_eq_ok hnonneg hlt]

/-- **A store either replaces an element or fails and changes nothing.** -/
theorem store_cases (a i v : Value) (w : World) :
    (∃ e, (store a i v).apply w = (.error e, w)) ∨
      ∃ address n w', a = .array address ∧ i = .int n ∧ (store a i v).apply w = (.ok (), w') ∧
        w.heap.Sets w'.heap address n v := by
  by_cases h : w.heap.Indexes a i
  · obtain ⟨address, n, rfl, rfl, hnonneg, hlt⟩ := h
    obtain ⟨w', hok, hsets⟩ := store_in_range hnonneg hlt v
    exact .inr ⟨address, n, w', rfl, rfl, hok, hsets⟩
  · exact .inl (store_fails h v)

end Operation

namespace Machine

open Exec

variable {s : Setting} {p : Program} {fr : Frame} {rest : List Frame} {globals : Array Value}
variable {world : World} {m m' : Memory} {i : Instruction} {α : Type}

/-! ## What leaves the heap as it is -/

/-- The heap is the same in both worlds. -/
def SameHeap (w w' : World) : Prop := w'.heap = w.heap

theorem SameHeap.refl (w : World) : SameHeap w w := rfl

/-- A heap that stays twice stays. -/
theorem SameHeap.trans {w w' w'' : World} (h : SameHeap w w') (h' : SameHeap w' w'') :
    SameHeap w w'' :=
  Eq.trans h' h

/-- The standard operations leave the heap as it is. -/
theorem sameHeap_effects : Effect.Closed fun _ e => Within SameHeap e where
  pure a := Within.pure SameHeap.refl a
  throw e := Within.throw SameHeap.refl e
  bind hx hf := Within.bind SameHeap.trans hx hf
  ask hf _ := Within.bind SameHeap.trans (Within.get SameHeap.refl) hf
  print _ _ := rfl
  read op w := by
    rw [SameHeap, Effect.apply_readLine]
  clock _ := rfl

/-- So does everything that a machine does, but for allocations and stores. -/
theorem sameHeap_closed (ht : Table.standard = .ok s.table) :
    Exec.ClosedReading (fun _ x => Leads SameHeap x) s.table where
  pure a := Within.pure (fun m => SameHeap.refl m.world) a
  throw e := Within.throw (fun m => SameHeap.refl m.world) e
  bind hx hf := Within.bind SameHeap.trans hx hf
  ask hf _ := Within.bind SameHeap.trans (Within.get fun m => SameHeap.refl m.world) hf
  stack _ := Within.modify fun m => SameHeap.refl m.world
  globals _ := Within.modify fun m => SameHeap.refl m.world
  load _ _ m := SameHeap.refl m.world
  call name args m := sameHeap_effects.call ht name args m.world

/-- What follows an effect and keeps the heap leaves the one that the effect
leaves. -/
theorem heap_effect_bind {e : Effect α} {k : α → Exec (Option Value)}
    (hk : ∀ a, Leads SameHeap (k a)) (m : Memory) :
    ((effect e >>= k).apply m).2.world.heap = (e.apply m.world).2.heap := by
  rw [Transform.apply_bind, apply_effect_of_memory]
  rcases e.apply m.world with ⟨err | a, w'⟩
  · rfl
  · exact hk a { m with world := w' }

/-! ## Array instructions -/

theorem reads_newArray {dst : LocalId} {size : Operand} {v : Value}
    (hv : fr.value? size = some v) : fr.Reads (.newArray dst size) :=
  List.forall_mem_singleton.mpr ⟨v, hv⟩

/-- **The heap after a new array**, also when there is no slot for it. -/
theorem heap_newArray (ht : Table.standard = .ok s.table) (dst : LocalId) {size : Operand}
    {v : Value} (hv : fr.value? size = some v) :
    ((execute s (.newArray dst size)).apply (.ofFrames (fr :: rest) globals world)).2.world.heap =
      ((Operation.newArray v).apply world).2.heap := by
  have hclosed := sameHeap_closed ht
  rw [execute_eq_resolve (reads_newArray hv), resolve, fr.value_eq hv]
  simp only [bind_assoc, pure_bind]
  -- once the array is made, only a slot of the frame is written
  exact heap_effect_bind (fun a => hclosed.bind (hclosed.deliver (some dst) a) fun _ =>
    hclosed.pure none) _

/-- No array is made of a negative size. -/
theorem execute_newArray_negative {dst : LocalId} {size : Operand} {n : Int64}
    (hv : fr.value? size = some (.int n)) (hn : n.toInt < 0) :
    (execute s (.newArray dst size)).apply (.ofFrames (fr :: rest) globals world) =
      (.error (.negativeSize n), .ofFrames (fr :: rest) globals world) := by
  rw [execute_eq_resolve (reads_newArray hv), resolve, fr.value_eq hv, bind_assoc]
  refine Transform.apply_bind_error ?_
  rw [apply_effect, Operation.newArray_negative hn]

/-- A load finds nothing unless its operands are an array and an index of it. -/
theorem execute_loadArray_fails (dst : LocalId) {array index : Operand} {a n : Value}
    (ha : fr.value? array = some a) (hn : fr.value? index = some n)
    (hout : ¬ world.heap.Indexes a n) :
    ∃ e, (execute s (.loadArray dst array index)).apply (.ofFrames (fr :: rest) globals world) =
      (.error e, .ofFrames (fr :: rest) globals world) := by
  have hreads : fr.Reads (.loadArray dst array index) :=
    List.forall_mem_cons.mpr ⟨⟨a, ha⟩, List.forall_mem_singleton.mpr ⟨n, hn⟩⟩
  obtain ⟨e, he⟩ := Operation.load_fails hout
  refine ⟨e, ?_⟩
  rw [execute_eq_resolve hreads, resolve, fr.value_eq ha, fr.value_eq hn, bind_assoc]
  refine Transform.apply_bind_error ?_
  rw [apply_effect, he]

/-- **A store replaces an element, or fails and changes nothing.** -/
theorem execute_storeArray_cases (fr : Frame) (array index value : Operand) :
    (∃ e, (execute s (.storeArray array index value)).apply
        (.ofFrames (fr :: rest) globals world) = (.error e, .ofFrames (fr :: rest) globals world)) ∨
      ∃ a n v w', fr.value? array = some (.array a) ∧ fr.value? index = some (.int n) ∧
        fr.value? value = some v ∧ world.heap.Sets w'.heap a n v ∧
        (execute s (.storeArray array index value)).apply
          (.ofFrames (fr :: rest) globals world) = (.ok none, .ofFrames (fr :: rest) globals w') := by
  by_cases hreads : fr.Reads (.storeArray array index value)
  · obtain ⟨⟨a, ha⟩, ⟨n, hn⟩, ⟨v, hv⟩, -⟩ := by
      simpa only [Frame.Reads, Instruction.operands, List.forall_mem_cons] using hreads
    rw [execute_storeArray ha hn hv]
    rcases Operation.store_cases a n v world with ⟨e, he⟩ | ⟨address, k, w', rfl, rfl, hok, hsets⟩
    · exact .inl ⟨e, conclude_error he⟩
    · exact .inr ⟨address, k, v, w', ha, hn, hv, hsets, conclude_ok hok⟩
  · obtain ⟨e, he, -⟩ := refuses_execute hreads
    exact .inl ⟨e, he⟩

/-! ## From one moment to the next -/

/-- The next instruction makes an array of some size. -/
def Creating (p : Program) (m : Memory) (size : Value) : Prop :=
  ∃ fr rest dst op, m.stack.frames = fr :: rest ∧ fetch p fr = .ok (.newArray dst op) ∧
    fr.value? op = some size

/-- The next instruction loads into a slot what an array has at an index. -/
def Loading (p : Program) (m : Memory) (dst : LocalId) (a n : Value) : Prop :=
  ∃ fr rest array index, m.stack.frames = fr :: rest ∧
    fetch p fr = .ok (.loadArray dst array index) ∧ fr.value? array = some a ∧
    fr.value? index = some n

/-- The next instruction stores a value at an index of an array. -/
def Storing (p : Program) (m : Memory) (a n v : Value) : Prop :=
  ∃ fr rest array index value, m.stack.frames = fr :: rest ∧
    fetch p fr = .ok (.storeArray array index value) ∧ fr.value? array = some a ∧
    fr.value? index = some n ∧ fr.value? value = some v

/-- The next instruction makes no array and does not store where there is an
element. -/
structure Quiet (p : Program) (m : Memory) : Prop where
  creating : ∀ n : Int64, Creating p m (.int n) → n.toInt < 0
  storing : ∀ a n v, Storing p m a n v → ¬ m.world.heap.Indexes a n

/-- **What a step makes of the heap**, as the next instruction has it. -/
inductive Revises (p : Program) (m : Memory) (h : Heap) : Prop
  /-- It stays as it is. -/
  | keep : Quiet p m → h = m.world.heap → Revises p m h
  /-- It gains an array. -/
  | create {n : Int64} : Creating p m (.int n) → 0 ≤ n.toInt →
      m.world.heap.Adds h n.toInt.toNat → Revises p m h
  /-- An element of an array is replaced. -/
  | store {a : Address} {n : Int64} {v : Value} : Storing p m (.array a) (.int n) v →
      m.world.heap.Sets h a n v → Revises p m h

/-- A revision keeps the lengths of all arrays. -/
theorem Revises.keepsLengths {h : Heap} (hrevises : Revises p m h) :
    m.world.heap.KeepsLengths h := by
  cases hrevises with
  | keep _ heq =>
    rw [heq]
    exact .refl _
  | create _ _ hadds => exact hadds.keepsLengths
  | store _ hsets => exact hsets.keepsLengths

/-- A step executes what the top frame fetches. -/
theorem apply_step_of_frames (hframes : m.stack.frames = fr :: rest)
    (hi : fetch s.program fr = .ok i) :
    (step s).apply m =
      (execute s i).apply (.ofFrames (fr.advance :: rest) m.globals m.world) := by
  rw [← apply_step hi, ← hframes, ← m.eq_ofFrames]

/-- **A store in range succeeds and replaces the element.** -/
theorem storing_in_range {a : Address} {n : Int64} {v : Value}
    (h : Storing s.program m (.array a) (.int n) v) (hnonneg : 0 ≤ n.toInt)
    (hlt : n.toInt < m.world.heap.length a) :
    ((step s).apply m).1 = .ok none ∧
      m.world.heap.Sets ((step s).apply m).2.world.heap a n v := by
  obtain ⟨fr, rest, array, index, value, hframes, hfetch, ha, hn, hv⟩ := h
  rw [← fr.value?_advance] at ha hn hv
  obtain ⟨w', hok, hsets⟩ := Operation.store_in_range hnonneg hlt v
  rw [apply_step_of_frames hframes hfetch, execute_storeArray ha hn hv, conclude_ok hok]
  exact ⟨rfl, hsets⟩

/-- **A new array of a size that is not negative is added to the others.** -/
theorem creating_nonneg (ht : Table.standard = .ok s.table) {n : Int64}
    (h : Creating s.program m (.int n)) (hn : 0 ≤ n.toInt) :
    m.world.heap.Adds ((step s).apply m).2.world.heap n.toInt.toNat := by
  obtain ⟨fr, rest, dst, size, hframes, hfetch, hv⟩ := h
  rw [← fr.value?_advance] at hv
  rw [apply_step_of_frames hframes hfetch, heap_newArray ht dst hv, Operation.apply_newArray hn]
  exact m.world.heap.adds_allocateNulls _

/-- All other steps leave the heap as it is. -/
theorem heap_of_quiet (ht : Table.standard = .ok s.table) (h : Quiet s.program m) :
    ((step s).apply m).2.world.heap = m.world.heap := by
  cases hframes : m.stack.frames with
  | nil =>
    rw [m.eq_ofFrames, hframes]
    rfl
  | cons fr rest =>
    cases hi : fetch s.program fr with
    | error e => rw [m.eq_ofFrames, hframes, apply_step_stuck hi]
    | ok i =>
      rw [apply_step_of_frames hframes hi]
      by_cases hreads : fr.advance.Reads i
      · -- all but two instructions only read the heap
        cases hchanges : i.changesArrays with
        | false => exact (sameHeap_closed ht).execute hchanges _
        | true =>
          cases i with
          | newArray dst size =>
            obtain ⟨v, hv⟩ := hreads size List.mem_cons_self
            rw [heap_newArray ht dst hv]
            refine (Operation.newArray_cases v m.world).resolve_right ?_
            rintro ⟨n, rfl, hnonneg, -⟩
            rw [fr.value?_advance] at hv
            have hneg := h.creating n ⟨fr, rest, dst, size, hframes, hi, hv⟩
            omega
          | storeArray array index value =>
            rcases execute_storeArray_cases (s := s) fr.advance array index value with
              ⟨e, he⟩ | ⟨a, n, v, w', ha, hn, hv, hsets, -⟩
            · rw [he]
              rfl
            · rw [fr.value?_advance] at ha hn hv
              exact absurd ⟨a, n, rfl, rfl, hsets.nonneg, hsets.lt⟩
                (h.storing _ _ v ⟨fr, rest, array, index, value, hframes, hi, ha, hn, hv⟩)
          | _ => cases hchanges
      · obtain ⟨e, he, -⟩ := refuses_execute hreads
        rw [he]
        rfl

/-- **A step does to the heap what its instruction says.** -/
theorem revises_step (ht : Table.standard = .ok s.table) (m : Memory) :
    Revises s.program m ((step s).apply m).2.world.heap := by
  by_cases hcreating : ∃ n : Int64, Creating s.program m (.int n) ∧ 0 ≤ n.toInt
  · obtain ⟨n, hcreating, hn⟩ := hcreating
    exact .create hcreating hn (creating_nonneg ht hcreating hn)
  · by_cases hstoring : ∃ a n v, Storing s.program m a n v ∧ m.world.heap.Indexes a n
    · obtain ⟨_, _, v, hstoring, a, n, rfl, rfl, hnonneg, hlt⟩ := hstoring
      exact .store hstoring (storing_in_range hstoring hnonneg hlt).2
    · have hquiet : Quiet s.program m := by
        refine ⟨fun n h => ?_, fun a n v h hin => hstoring ⟨a, n, v, h, hin⟩⟩
        exact Int.not_le.mp fun hn => hcreating ⟨n, h, hn⟩
      exact .keep hquiet (heap_of_quiet ht hquiet)

/-- **What becomes of the heap from one moment to the next.** A step revises it;
where a call from outside begins, or calls that have failed end, it stays. -/
inductive Evolves (s : Setting) (m : Memory) : Memory → Prop
  | enter (ref : FunctionRef) (args : List Value) :
      ((enter s ref args .halt).apply m).2.world.heap = m.world.heap →
      Evolves s m ((enter s ref args .halt).apply m).2
  | step : Revises s.program m ((step s).apply m).2.world.heap →
      Evolves s m ((step s).apply m).2
  | unwind : Evolves s m { m with stack := m.stack.unwind }

/-- **From one memory to the next the heap evolves.** -/
theorem Next.evolves (ht : Table.standard = .ok s.table) (h : Next s m m') : Evolves s m m' := by
  cases h with
  | enter ref args => exact .enter ref args ((sameHeap_closed ht).enter s ref args .halt m)
  | step => exact .step (revises_step ht m)
  | unwind => exact .unwind

/-- However the heap evolves, it keeps the lengths of all arrays. -/
theorem Evolves.keepsLengths (h : Evolves s m m') : m.world.heap.KeepsLengths m'.world.heap := by
  cases h with
  | enter ref args heq =>
    rw [heq]
    exact .refl _
  | step hrevises => exact hrevises.keepsLengths
  | unwind => exact .refl _

/-- **Arrays keep their lengths** from each moment to all later ones. -/
theorem moments_keepLengths (ht : Table.standard = .ok s.table) (fuel : Nat) (args : List Value)
    (w : World) :
    (moments s fuel args w).Pairwise fun m m' => m.world.heap.KeepsLengths m'.world.heap := by
  have htrans : Trans (fun m m' : Memory => m.world.heap.KeepsLengths m'.world.heap)
      (fun m m' : Memory => m.world.heap.KeepsLengths m'.world.heap)
      (fun m m' : Memory => m.world.heap.KeepsLengths m'.world.heap) := ⟨fun h h' => h.trans h'⟩
  exact ((isChain_moments s fuel args w).imp fun m m' hnext =>
    (hnext.evolves ht).keepsLengths).pairwise

/-! ## Failures -/

/-- The next instruction loads from an array at an index, or stores there. -/
def Accessing (p : Program) (m : Memory) (a n : Value) : Prop :=
  (∃ dst, Loading p m dst a n) ∨ ∃ v, Storing p m a n v

/-- A load or store that fails leaves the heap as it is. -/
theorem heap_of_failed_access (ht : Table.standard = .ok s.table) {e : RuntimeError}
    (hnext : Upcoming s.program m i) (hi : i.accessesArray = true)
    (hstep : (step s).apply m = (.error e, m')) : m'.world.heap = m.world.heap := by
  obtain ⟨fr, rest, hframes, hfetch⟩ := hnext
  rw [apply_step_of_frames hframes hfetch] at hstep
  cases i with
  | loadArray dst array index =>
    have hsame : SameHeap _ _ := (sameHeap_closed ht).execute (s := s)
      (i := .loadArray dst array index) rfl (.ofFrames (fr.advance :: rest) m.globals m.world)
    rw [hstep] at hsame
    exact hsame
  | storeArray array index value =>
    rcases execute_storeArray_cases (s := s) fr.advance array index value with
      ⟨e', he⟩ | ⟨a, n, v, w', -, -, -, -, hok⟩
    · cases he.symm.trans hstep
      rfl
    · cases hok.symm.trans hstep
  | _ => cases hi

/-- A load or store fails unless it is of an array, at an index of it. -/
theorem access_fails {a n : Value} (h : Accessing s.program m a n)
    (hout : ¬ m.world.heap.Indexes a n) : ∃ e, ((step s).apply m).1 = .error e := by
  rcases h with ⟨dst, fr, rest, array, index, hframes, hfetch, ha, hn⟩ |
    ⟨v, fr, rest, array, index, value, hframes, hfetch, ha, hn, hv⟩
  all_goals
    rw [apply_step_of_frames hframes hfetch]
    rw [← fr.value?_advance] at ha hn
  · obtain ⟨e, he⟩ := execute_loadArray_fails (s := s) dst ha hn hout
    exact ⟨e, congrArg Prod.fst he⟩
  · rcases execute_storeArray_cases (s := s) fr.advance array index value with
      ⟨e, he⟩ | ⟨address, k, v', w', ha', hn', -, hsets, -⟩
    · exact ⟨e, congrArg Prod.fst he⟩
    · -- a store that succeeds is of an array, at an index of it
      obtain rfl := Option.some.inj (ha.symm.trans ha')
      obtain rfl := Option.some.inj (hn.symm.trans hn')
      exact absurd ⟨address, k, rfl, rfl, hsets.nonneg, hsets.lt⟩ hout

/-- There is no array of negative size. -/
theorem creating_negative {n : Int64} (h : Creating s.program m (.int n)) (hn : n.toInt < 0) :
    ((step s).apply m).1 = .error (.negativeSize n) ∧
      ((step s).apply m).2.world.heap = m.world.heap := by
  obtain ⟨fr, rest, dst, size, hframes, hfetch, hv⟩ := h
  rw [← fr.value?_advance] at hv
  rw [apply_step_of_frames hframes hfetch, execute_newArray_negative hv hn]
  exact ⟨rfl, rfl⟩

/-- **A load delivers what the heap holds at the address.** -/
theorem load_delivers {dst : LocalId} {a : Address} {n : Int64}
    (h : Loading s.program m dst (.array a) (.int n)) (hstep : (step s).apply m = (.ok none, m')) :
    ∃ v fr rest, m.world.heap.load a n = .ok v ∧ m'.stack.frames = fr :: rest ∧
      fr.locals[dst]? = some v := by
  obtain ⟨fr, rest, array, index, hframes, hfetch, ha, hn⟩ := h
  rw [← fr.value?_advance] at ha hn
  have hreads : fr.advance.Reads (.loadArray dst array index) :=
    List.forall_mem_cons.mpr ⟨⟨_, ha⟩, List.forall_mem_singleton.mpr ⟨_, hn⟩⟩
  rw [apply_step_of_frames hframes hfetch, execute_eq_resolve hreads, resolve,
    fr.advance.value_eq ha, fr.advance.value_eq hn] at hstep
  simp only [bind_assoc, pure_bind] at hstep
  obtain ⟨v, t, hload, hdeliver⟩ := apply_bind_eq_ok.mp hstep
  rw [apply_effect, Operation.apply_load] at hload
  obtain ⟨hv, rfl⟩ := Prod.mk.inj hload
  obtain ⟨_, t, hwrite, hnone⟩ := apply_bind_eq_ok.mp hdeliver
  cases hnone
  rcases Nat.lt_or_ge dst fr.advance.locals.size with hdst | hdst
  · cases (apply_writeLocal hdst).symm.trans hwrite
    exact ⟨v, _, _, hv, rfl, Array.getElem?_setIfInBounds_self_of_lt hdst⟩
  · cases (apply_writeLocal_of_le hdst).symm.trans hwrite

/-- **Arrays have a fixed size, and change by stores in range alone.** The moments
of an evaluation lead from the world it is given to the one it leaves, whether it
succeeds or fails. From each to the next the heap stays as it is, unless a step is
made whose instruction makes an array or stores at an index in range. Such a store
succeeds and replaces that element and no other; a load from that address, by
whatever name the program has it, delivers what the heap holds there. An array that
exists at some moment has the same length at all later ones. A load or store that
fails leaves the heap as it is, and it does fail unless its operands are an array
and an index of it. A new array of a size that is not negative is added to the
others, and there is none of negative size. -/
theorem arrays_change_only_by_stores (p : Program) (limits : Limits) {table : Table}
    (ht : Table.standard = .ok table) :
    let s : Setting := ⟨p, table, limits.maxCallDepth⟩
    (∀ fuel args w,
      ((moments s fuel args w).head?.map Memory.world = some w ∧
        ∀ result w', evaluateStandard p limits fuel args w = some (result, w') →
          (moments s fuel args w).getLast?.map Memory.world = some w') ∧
      (moments s fuel args w).IsChain (Evolves s) ∧
      (moments s fuel args w).Pairwise fun m m' => m.world.heap.KeepsLengths m'.world.heap) ∧
    ∀ m result m', (step s).apply m = (result, m') →
      Revises p m m'.world.heap ∧
      (∀ a n v, Storing p m (.array a) (.int n) v →
        0 ≤ n.toInt → n.toInt < m.world.heap.length a →
        result = .ok none ∧ m.world.heap.Sets m'.world.heap a n v) ∧
      (∀ n : Int64, Creating p m (.int n) → 0 ≤ n.toInt →
        m.world.heap.Adds m'.world.heap n.toInt.toNat) ∧
      (∀ i e, Upcoming p m i → i.accessesArray = true → result = .error e →
        m'.world.heap = m.world.heap) ∧
      (∀ a n, Accessing p m a n → ¬ m.world.heap.Indexes a n → ∃ e, result = .error e) ∧
      (∀ n : Int64, Creating p m (.int n) → n.toInt < 0 →
        result = .error (.negativeSize n) ∧ m'.world.heap = m.world.heap) ∧
      ∀ dst a n, Loading p m dst (.array a) (.int n) → result = .ok none →
        ∃ v fr rest, m.world.heap.load a n = .ok v ∧ m'.stack.frames = fr :: rest ∧
          fr.locals[dst]? = some v := by
  intro s
  refine ⟨fun fuel args w => ⟨⟨rfl, fun result w' hrun => ?_⟩, ?_, ?_⟩, ?_⟩
  · simp only [evaluateStandard, ht] at hrun
    exact getLast?_moments hrun
  · exact (isChain_moments s fuel args w).imp fun m m' hnext => hnext.evolves ht
  · exact moments_keepLengths ht fuel args w
  · rintro m result m' hstep
    refine ⟨?_, fun a n v hstoring hnonneg hlt => ?_, fun n hcreating hn => ?_,
      fun i e hnext hi he => ?_, fun a n haccess hout => ?_, fun n hcreating hn => ?_,
      fun dst a n hloading hok => ?_⟩
    · have hrevises := revises_step (s := s) ht m
      rwa [hstep] at hrevises
    · have hstored := storing_in_range (s := s) hstoring hnonneg hlt
      rwa [hstep] at hstored
    · have hadds := creating_nonneg (s := s) ht hcreating hn
      rwa [hstep] at hadds
    · exact heap_of_failed_access ht hnext hi (he ▸ hstep)
    · have hfails := access_fails (s := s) haccess hout
      rwa [hstep] at hfails
    · have hnegative := creating_negative (s := s) hcreating hn
      rwa [hstep] at hnegative
    · exact load_delivers hloading (hok ▸ hstep)

/-- A function of an array and a size. It makes an array of that size, and stores
into it under another name; what it then loads under the first name it stores
into the array it was given. The last store is at index two. -/
def sharingFunction : Function :=
  ([.newArray (.var 1), .freshLocal, .copy 3 (.var 2),
    .storeArray (.var 3) (.const (.int 1)) (.const (.int 7)),
    .loadArray (.var 2) (.const (.int 1)), .storeArray (.var 0) (.const (.int 0)) (.var 4),
    .storeArray (.var 2) (.const (.int 2)) (.const (.int 9)), .ret (.var 4)].foldl
    (fun c e => Emission.leave e c) (Cursor.atEntry (Function.empty "share" ["a", "n"]))).function

/-- The program of that function. -/
def sharingProgram : Program where
  modules := #[{ id := "m", functions := #[sharingFunction] }]
  globals := #[]
  entry := ⟨0, 0⟩
  initOrder := [0]

/-- The memory in which a call of that function has come to some instruction. -/
def sharingMemory (next : Nat) (locals : Array Value) (w : World) : Memory :=
  .ofFrames [⟨⟨0, 0⟩, locals, 0, next, .halt⟩] #[] w

/-- A size of two is too small for the last store, which fails; the array passed in
has kept its length and has the element that was shared. No array is made of a
size below zero. The array of size two is made and stored into under one name, and
the load delivers that under the other. -/
theorem arrays_change_only_by_stores_shared :
    let w : World := ⟨⟨#[#[.null]]⟩, {}, .steady 0⟩
    let w₀ : World := ⟨⟨#[#[.null], #[.null, .null]]⟩, {}, .steady 0⟩
    let w₁ : World := ⟨⟨#[#[.null], #[.null, .int 7]]⟩, {}, .steady 0⟩
    ∃ table, Table.standard = .ok table ∧
      (∃ w', evaluateStandard sharingProgram {} 20 [.array 0, .int 2] w =
          some (.error (.indexOutOfBounds 2 2), w') ∧
        w'.heap = ⟨#[#[.int 7], #[.null, .int 7]]⟩ ∧ w.heap.KeepsLengths w'.heap) ∧
      let s : Setting := ⟨sharingProgram, table, 1000⟩
      (∃ e m', (step s).apply
          (sharingMemory 5 #[.array 0, .int 2, .array 1, .array 1, .int 7] w₁) = (.error e, m') ∧
        m'.world.heap = w₁.heap) ∧
      (∃ m', (step s).apply
          (sharingMemory 0 #[.array 0, .int (-1), .null, .null, .null] w) =
            (.error (.negativeSize (-1)), m') ∧ m'.world.heap = w.heap) ∧
      w.heap.Adds ((step s).apply
        (sharingMemory 0 #[.array 0, .int 2, .null, .null, .null] w)).2.world.heap 2 ∧
      (∃ m', (step s).apply
          (sharingMemory 2 #[.array 0, .int 2, .array 1, .array 1, .null] w₀) = (.ok none, m') ∧
        w₀.heap.Sets m'.world.heap 1 1 (.int 7)) ∧
      ∃ m' fr rest, (step s).apply
          (sharingMemory 3 #[.array 0, .int 2, .array 1, .array 1, .null] w₁) = (.ok none, m') ∧
        m'.stack.frames = fr :: rest ∧ fr.locals[4]? = some (.int 7) := by
  intro w w₀ w₁
  obtain ⟨table, ht, -⟩ := Table.exists_standard
  obtain ⟨hrun, hsteps⟩ := arrays_change_only_by_stores sharingProgram {} ht
  have hfails : (evaluateStandard sharingProgram {} 20 [.array 0, .int 2] w).map
      (fun r => (r.1.map (·.value), r.2.heap)) =
      some (.error (.indexOutOfBounds 2 2), ⟨#[#[.int 7], #[.null, .int 7]]⟩) := by decide +kernel
  refine ⟨table, ht, ?_, ?_, ?_, ?_, ?_, ?_⟩
  · obtain ⟨⟨e | o, w'⟩, hevaluate, hdone⟩ := Option.map_eq_some_iff.mp hfails
    · obtain rfl : e = .indexOutOfBounds 2 2 := Except.error.inj (congrArg Prod.fst hdone)
      refine ⟨w', hevaluate, congrArg Prod.snd hdone, ?_⟩
      obtain ⟨⟨-, hlast⟩, -, hlengths⟩ := hrun 20 [.array 0, .int 2] w
      obtain ⟨m', hm', rfl⟩ := Option.map_eq_some_iff.mp (hlast _ _ hevaluate)
      rcases List.mem_cons.mp (List.mem_of_getLast? hm') with rfl | hmem
      · exact .refl _
      · exact List.rel_of_pairwise_cons hlengths hmem
    · cases congrArg Prod.fst hdone
  · have haccess : Accessing sharingProgram
        (sharingMemory 5 #[.array 0, .int 2, .array 1, .array 1, .int 7] w₁) (.array 1) (.int 2) :=
      .inr ⟨.int 9, _, [], .var 2, .const (.int 2), .const (.int 9), rfl, by decide +kernel, rfl,
        rfl, rfl⟩
    have hout : ¬ w₁.heap.Indexes (.array 1) (.int 2) := by
      rintro ⟨_, _, ⟨⟩, ⟨⟩, -, hlt⟩
      exact absurd hlt (by decide)
    obtain ⟨-, -, -, hsame, hfail, -, -⟩ := hsteps _ _ _ rfl
    obtain ⟨e, he⟩ := hfail _ _ haccess hout
    exact ⟨e, _, Prod.ext he rfl, hsame (.storeArray (.var 2) (.const (.int 2)) (.const (.int 9))) e
      ⟨_, [], rfl, by decide +kernel⟩ rfl he⟩
  · have hcreating : Creating sharingProgram
        (sharingMemory 0 #[.array 0, .int (-1), .null, .null, .null] w) (.int (-1)) :=
      ⟨_, [], 2, .var 1, rfl, by decide +kernel, rfl⟩
    obtain ⟨-, -, -, -, -, hnegative, -⟩ := hsteps _ _ _ rfl
    obtain ⟨he, hsame⟩ := hnegative (-1) hcreating (by decide)
    exact ⟨_, Prod.ext he rfl, hsame⟩
  · have hcreating : Creating sharingProgram
        (sharingMemory 0 #[.array 0, .int 2, .null, .null, .null] w) (.int 2) :=
      ⟨_, [], 2, .var 1, rfl, by decide +kernel, rfl⟩
    obtain ⟨-, -, hadds, -⟩ := hsteps _ _ _ rfl
    exact hadds 2 hcreating (by decide)
  · have hstoring : Storing sharingProgram
        (sharingMemory 2 #[.array 0, .int 2, .array 1, .array 1, .null] w₀) (.array 1) (.int 1)
          (.int 7) :=
      ⟨_, [], .var 3, .const (.int 1), .const (.int 7), rfl, by decide +kernel, rfl, rfl, rfl⟩
    obtain ⟨-, hstore, -⟩ := hsteps _ _ _ rfl
    obtain ⟨hok, hsets⟩ := hstore 1 1 (.int 7) hstoring (by decide) (by decide)
    exact ⟨_, Prod.ext hok rfl, hsets⟩
  · have hloading : Loading sharingProgram
        (sharingMemory 3 #[.array 0, .int 2, .array 1, .array 1, .null] w₁) 4 (.array 1) (.int 1) :=
      ⟨_, [], .var 2, .const (.int 1), rfl, by decide +kernel, rfl, rfl⟩
    have hok : ((step ⟨sharingProgram, table, 1000⟩).apply
        (sharingMemory 3 #[.array 0, .int 2, .array 1, .array 1, .null] w₁)).1 = .ok none := rfl
    obtain ⟨-, -, -, -, -, -, hload⟩ := hsteps _ _ _ rfl
    obtain ⟨v, fr, rest, hv, hframes, hslot⟩ := hload 4 1 1 hloading hok
    cases hv
    exact ⟨_, fr, rest, Prod.ext hok rfl, hframes, hslot⟩

end Machine

end BlockIR
