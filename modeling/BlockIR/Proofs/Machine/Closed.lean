import BlockIR.Proofs.Builtin.Standard
import BlockIR.Machine.Step
/-!
# What the actions of a machine are made of

Everything that a machine does is put together from a few acts: it asks the calls
and the globals, changes them, and acts on the heap and through its table of
operations. A property of actions that these acts have, and that sequences
inherit (`Exec.Closed`), is therefore a property of every instruction and step.
One that the acts have which change no array (`Exec.ClosedReading`) is a property
of every instruction but two. The standard operations in turn ask the heap,
print, read and take readings of the clock (`Effect.Closed`).
-/

namespace BlockIR

/-! ## The standard operations -/

/-- **A property that effects inherit from their parts**: from questions about the
heap, and from what is done to the console and the clock. -/
structure Effect.Closed (Q : ∀ α : Type, Effect α → Prop) : Prop where
  pure : ∀ {α : Type} (a : α), Q α (pure a)
  throw : ∀ {α : Type} (e : RuntimeError), Q α (throw e)
  bind : ∀ {α β : Type} {x : Effect α} {f : α → Effect β}, Q α x → (∀ a, Q β (f a)) →
    Q β (x >>= f)
  ask : ∀ {α : Type} {f : World → Effect α}, (∀ w, Q α (f w)) →
    (∀ w console clock, f ⟨w.heap, console, clock⟩ = f w) → Q α (get >>= f)
  print : ∀ text, Q Unit (Effect.printLine Builtin.Name.print text)
  read : ∀ op, Q String (Effect.readLine op)
  clock : Q Int (liftM Effect.readClock)

namespace Effect.Closed

variable {Q : ∀ α : Type, Effect α → Prop} {α : Type} {t : Table}

/-- Refusing arguments is in every closed set of effects. -/
theorem badArguments (h : Closed Q) (op : String) (args : List Value) :
    Q α (Builtin.badArguments op args) :=
  h.ask (fun _ => h.throw _) fun _ _ _ => rfl

/-- An operation on two integers is in a closed set when it is for all integers. -/
theorem onInts (h : Closed Q) (op : String) {f : Int64 → Int64 → Effect Value}
    (hf : ∀ a b, Q Value (f a b)) (args : List Value) : Q Value (Builtin.onInts op f args) := by
  unfold Builtin.onInts
  split
  · exact hf _ _
  · exact h.badArguments op _

/-- Arithmetic is in every closed set of effects. -/
theorem arithmetic (h : Closed Q) (op : String) (f : Int64 → Int64 → Int64) (args : List Value) :
    Q Value (Builtin.arithmetic op f args) :=
  h.onInts op (fun _ _ => h.pure _) args

/-- Comparisons are in every closed set of effects. -/
theorem comparison (h : Closed Q) (op : String) (f : Int64 → Int64 → Bool) (args : List Value) :
    Q Value (Builtin.comparison op f args) :=
  h.onInts op (fun _ _ => h.pure _) args

/-- Division, which fails for zero, is in every closed set of effects. -/
theorem division (h : Closed Q) (op : String) (f : Int64 → Int64 → Int64) (args : List Value) :
    Q Value (Builtin.division op f args) := by
  refine h.onInts op (fun a b => ?_) args
  split
  · exact h.throw _
  · exact h.pure _

/-- Equality is in every closed set of effects. -/
theorem equality (h : Closed Q) (op : String) (f : Bool → Bool) (args : List Value) :
    Q Value (Builtin.equality op f args) := by
  unfold Builtin.equality
  split
  · exact h.pure _
  · exact h.badArguments op _

/-- An operation on a text is in a closed set when it is for all texts. -/
theorem onText (h : Closed Q) (op : String) {f : String → Effect Value}
    (hf : ∀ text, Q Value (f text)) (args : List Value) : Q Value (Builtin.onText op f args) := by
  unfold Builtin.onText
  split
  · exact hf _
  · exact h.badArguments op _

/-- Concatenation is in every closed set of effects. -/
theorem concatenate (h : Closed Q) (args : List Value) : Q Value (Builtin.concatenate args) := by
  unfold Builtin.concatenate
  split
  · exact h.pure _
  · exact h.badArguments _ _

/-- Reading a number from a text is in every closed set of effects. -/
theorem textToInt (h : Closed Q) (args : List Value) : Q Value (Builtin.textToInt args) := by
  refine h.onText _ (fun text => ?_) args
  cases Decimal.canonicalInt64? text with
  | none => exact h.throw _
  | some n => exact h.pure _

/-- Asking whether a text is a number is in every closed set of effects. -/
theorem isIntText (h : Closed Q) (args : List Value) : Q Value (Builtin.isIntText args) :=
  h.onText _ (fun _ => h.pure _) args

/-- Writing a number as text is in every closed set of effects. -/
theorem intToText (h : Closed Q) (args : List Value) : Q Value (Builtin.intToText args) := by
  unfold Builtin.intToText
  split
  · exact h.pure _
  · exact h.badArguments _ _

/-- Printing is in every closed set of effects. -/
theorem printValue (h : Closed Q) (args : List Value) : Q Value (Builtin.printValue args) := by
  unfold Builtin.printValue
  split
  · exact h.ask (fun w => h.bind (h.print _) fun _ => h.pure _) fun _ _ _ => rfl
  · exact h.badArguments _ _

/-- Reading a line is in every closed set of effects. -/
theorem readText (h : Closed Q) (args : List Value) : Q Value (Builtin.readText args) :=
  h.bind (h.read _) fun _ => h.pure _

/-- The length of an array is in every closed set of effects. -/
theorem lengthOf (h : Closed Q) (args : List Value) : Q Value (Builtin.lengthOf args) := by
  unfold Builtin.lengthOf
  split
  · exact h.ask (fun _ => h.pure _) fun _ _ _ => rfl
  · exact h.badArguments _ _

/-- Reading the clock is in every closed set of effects. -/
theorem now (h : Closed Q) (args : List Value) : Q Value (Builtin.now args) := by
  refine h.bind h.clock fun reading => ?_
  cases reading with
  | ofNat n => exact h.pure _
  | negSucc n => exact h.throw _

/-- **Every standard operation has the property.** -/
theorem primitives (h : Closed Q) : ∀ p ∈ Builtin.primitives, ∀ args, Q Value (p.2 args) := by
  simp only [Builtin.primitives, List.forall_mem_cons]
  exact ⟨h.arithmetic _ _, h.arithmetic _ _, h.arithmetic _ _, h.division _ _, h.division _ _,
    h.equality _ _, h.equality _ _, h.comparison _ _, h.comparison _ _, h.comparison _ _,
    h.comparison _ _, h.comparison _ _, h.comparison _ _, h.concatenate, h.textToInt,
    h.isIntText, h.intToText, h.printValue, h.readText, h.lengthOf, h.now,
    fun p hp => absurd hp List.not_mem_nil⟩

/-- A call through a table has the property that its operations have. -/
theorem call_of_entries (h : Closed Q) (ht : ∀ e ∈ t.entries, ∀ args, Q Value (e.run args))
    (name : String) (args : List Value) : Q Value (t.call name args) := by
  unfold Table.call
  cases he : t.entry? name with
  | none => exact h.throw _
  | some e =>
    simp only
    split
    · exact h.throw _
    · cases Table.mismatch? 0 e.signature.params args with
      | some found => exact h.throw _
      | none =>
        refine h.bind (ht e (List.mem_of_find?_eq_some he) args) fun v => ?_
        split
        · exact h.pure _
        · exact h.throw _

/-- **Every call through the standard table has the property.** -/
theorem call (h : Closed Q) (ht : Table.standard = .ok t) (name : String) (args : List Value) :
    Q Value (t.call name args) :=
  h.call_of_entries (fun _ he => h.primitives _ (Table.mem_standard ht he).2) name args

end Effect.Closed

/-! ## Instructions -/

/-- **A property that actions inherit from their parts**, as long as these change
no array: from questions about the calls and the globals, from changes of these,
from loads and from the operations of the table. -/
structure Exec.ClosedReading (P : ∀ α : Type, Exec α → Prop) (t : Table) : Prop where
  pure : ∀ {α : Type} (a : α), P α (pure a)
  throw : ∀ {α : Type} (e : RuntimeError), P α (throw e)
  bind : ∀ {α β : Type} {x : Exec α} {f : α → Exec β}, P α x → (∀ a, P β (f a)) →
    P β (x >>= f)
  ask : ∀ {α : Type} {f : Memory → Exec α}, (∀ m, P α (f m)) →
    (∀ m w, f { m with world := w } = f m) → P α (get >>= f)
  stack : ∀ g, P Unit (Exec.modifyStack g)
  globals : ∀ g : Array Value → Array Value,
    P Unit (modify fun m => { m with globals := g m.globals })
  load : ∀ a i, P Value (Exec.effect (Effect.load a i))
  call : ∀ name args, P Value (Exec.effect (t.call name args))

/-- **A property that actions inherit from their parts**, the allocations and the
stores included. -/
structure Exec.Closed (P : ∀ α : Type, Exec α → Prop) (t : Table) : Prop
    extends Exec.ClosedReading P t where
  allocate : ∀ n, P Address (Exec.effect (liftM (Effect.allocateNulls n)))
  store : ∀ a i v, P Unit (Exec.effect (Effect.store a i v))

/-- The instruction allocates an array or stores into one. -/
def Instruction.changesArrays : Instruction → Bool
  | .newArray .. | .storeArray .. => true
  | _ => false

namespace Exec.ClosedReading

open Machine

variable {P : ∀ α : Type, Exec α → Prop} {t : Table} {s : Setting}

/-- Looking at the frame on top is in every set closed under reading. -/
theorem top (h : ClosedReading P t) : P Frame Exec.top := by
  refine h.ask (fun m => ?_) fun _ _ => rfl
  cases m.stack.top? with
  | none => exact h.throw _
  | some fr => exact h.pure fr

/-- Reading an operand is in every set closed under reading. -/
theorem operand (h : ClosedReading P t) (op : Operand) : P Value (operand op) := by
  cases op with
  | const c => exact h.pure _
  | var l =>
    refine h.bind h.top fun fr => ?_
    cases fr.locals[l]? with
    | none => exact h.throw _
    | some v => exact h.pure v

/-- Reading several operands is. -/
theorem operands (h : ClosedReading P t) (ops : List Operand) : P (List Value) (operands ops) := by
  unfold Machine.operands
  induction ops with
  | nil => exact h.pure []
  | cons op ops ih =>
    rw [List.mapM_cons]
    exact h.bind (h.operand op) fun v => h.bind ih fun vs => h.pure _

/-- Reading an operand as an integer is. -/
theorem intOperand (h : ClosedReading P t) (role : OperandRole) (op : Operand) :
    P Int64 (intOperand role op) := by
  refine h.bind (h.operand op) fun v => ?_
  cases v with
  | int n => exact h.pure n
  | str _ => exact h.throw _
  | array _ => exact h.throw _
  | null => exact h.throw _

/-- Reading an operand as an array is. -/
theorem arrayOperand (h : ClosedReading P t) (role : OperandRole) (op : Operand) :
    P Address (arrayOperand role op) := by
  refine h.bind (h.operand op) fun v => ?_
  cases v with
  | array a => exact h.pure a
  | int _ => exact h.throw _
  | str _ => exact h.throw _
  | null => exact h.throw _

/-- Writing a local slot is. -/
theorem writeLocal (h : ClosedReading P t) (l : LocalId) (v : Value) : P Unit (Exec.writeLocal l v) := by
  refine h.bind h.top fun fr => ?_
  split
  · exact h.stack _
  · exact h.throw _

/-- Delivering the result of a call is. -/
theorem deliver (h : ClosedReading P t) (dst : Option LocalId) (v : Value) : P Unit (deliver dst v) := by
  cases dst with
  | none => exact h.pure ()
  | some l => exact h.writeLocal l v

/-- Reading a global is. -/
theorem readGlobal (h : ClosedReading P t) (g : GlobalId) : P Value (Exec.readGlobal g) := by
  refine h.ask (fun m => ?_) fun _ _ => rfl
  cases m.globals[g]? with
  | none => exact h.throw _
  | some v => exact h.pure v

/-- Writing a global is. -/
theorem writeGlobal (h : ClosedReading P t) (g : GlobalId) (v : Value) :
    P Unit (Exec.writeGlobal g v) := by
  refine h.ask (fun m => ?_) fun _ _ => rfl
  split
  · exact h.globals fun values => values.setIfInBounds g v
  · exact h.throw _

/-- Beginning a call is. -/
theorem enter (h : ClosedReading P t) (s : Setting) (ref : FunctionRef) (args : List Value)
    (resume : Resume) : P Unit (enter s ref args resume) := by
  unfold Machine.enter
  cases s.program.function? ref with
  | none => exact h.throw _
  | some f =>
    simp only
    split
    · exact h.throw _
    · refine h.ask (fun m => ?_) fun _ _ => rfl
      split
      · exact h.throw _
      · exact h.stack _

/-- Ending a call is. -/
theorem leave (h : ClosedReading P t) (v : Value) : P (Option Value) (leave v) := by
  refine h.bind h.top fun fr => h.bind (h.stack _) fun _ => ?_
  cases fr.resume with
  | halt => exact h.pure _
  | caller dst => exact h.bind (h.deliver dst v) fun _ => h.pure none

/-- Going on at a block, by a condition, is. -/
theorem branch (h : ClosedReading P t) (cond : Value) (thenTarget elseTarget : BlockId) :
    P Unit (branch cond thenTarget elseTarget) := by
  cases cond with
  | int n => exact h.stack _
  | str _ => exact h.throw _
  | array _ => exact h.throw _
  | null => exact h.throw _

/-- **An instruction that changes no array has the property.** -/
theorem execute (h : ClosedReading P s.table) {i : Instruction} (hi : i.changesArrays = false) :
    P (Option Value) (execute s i) := by
  have hnone : P (Option Value) (Pure.pure none) := h.pure none
  unfold Machine.execute
  cases i with
  | newArray dst size => cases hi
  | storeArray array index value => cases hi
  | copy dst src =>
    exact h.bind (h.operand src) fun v => h.bind (h.writeLocal dst v) fun _ => hnone
  | loadArray dst array index =>
    exact h.bind (h.arrayOperand _ array) fun a => h.bind (h.intOperand _ index) fun n =>
      h.bind (h.load a n) fun v => h.bind (h.writeLocal dst v) fun _ => hnone
  | loadGlobal dst g =>
    exact h.bind (h.readGlobal g) fun v => h.bind (h.writeLocal dst v) fun _ => hnone
  | storeGlobal g src =>
    exact h.bind (h.operand src) fun v => h.bind (h.writeGlobal g v) fun _ => hnone
  | call dst callee args =>
    cases callee with
    | builtin name =>
      exact h.bind (h.operands args) fun vs => h.bind (h.call name vs) fun v =>
        h.bind (h.deliver dst v) fun _ => hnone
    | function ref =>
      exact h.bind (h.operands args) fun vs => h.bind (h.enter s ref vs _) fun _ => hnone
  | binary dst op lhs rhs =>
    exact h.bind (h.operand lhs) fun a => h.bind (h.operand rhs) fun b =>
      h.bind (h.call _ _) fun v => h.bind (h.writeLocal dst v) fun _ => hnone
  | jump target => exact h.bind (h.stack _) fun _ => hnone
  | branch cond thenTarget elseTarget =>
    exact h.bind (h.operand cond) fun v => h.bind (h.branch v _ _) fun _ => hnone
  | ret value => exact h.bind (h.operand value) fun v => h.leave v

end Exec.ClosedReading

namespace Exec.Closed

open Machine

variable {P : ∀ α : Type, Exec α → Prop} {t : Table} {s : Setting}

/-- Making an array is in every closed set. -/
theorem allocateArray (h : Closed P t) (size : Int64) : P Value (Machine.allocate size) := by
  unfold Machine.allocate
  simp only
  split
  · exact h.throw _
  · exact h.bind (h.allocate _) fun a => h.pure _

/-- **Every instruction has the property.** -/
theorem execute (h : Closed P s.table) (i : Instruction) : P (Option Value) (execute s i) := by
  have hnone : P (Option Value) (Pure.pure none) := h.pure none
  cases hi : i.changesArrays with
  | false => exact h.toClosedReading.execute hi
  | true =>
    unfold Machine.execute
    cases i with
    | newArray dst size =>
      exact h.bind (h.intOperand _ size) fun n => h.bind (h.allocateArray n) fun v =>
        h.bind (h.writeLocal dst v) fun _ => hnone
    | storeArray array index value =>
      exact h.bind (h.arrayOperand _ array) fun a => h.bind (h.intOperand _ index) fun n =>
        h.bind (h.operand value) fun v => h.bind (h.store a n v) fun _ => hnone
    | _ => cases hi

/-- **Every step has the property.** -/
theorem step (h : Closed P s.table) : P (Option Value) (step s) := by
  refine h.bind h.top fun fr => ?_
  cases fetch s.program fr with
  | error e => exact h.throw e
  | ok i => exact h.bind (h.stack _) fun _ => h.execute i

end Exec.Closed

end BlockIR
