import BlockIR.Proofs.Machine.Closed
import BlockIR.Proofs.Machine.Run
/-!
# What a run does to the world

A run acts on the world only by its array instructions and through the
operations of its table. A relation between worlds that can be chained and that
each of these acts keeps to (`Keeps`) is therefore kept by every step, and by
every run and evaluation. The operations of the standard table in turn do no
more to the world than print, read and take readings of the clock (`Tracks`). So
what an evaluation has printed stays printed.
-/

namespace BlockIR

open Success

variable {R : World → World → Prop} {t : Table}

/-- **A relation that every act of a machine with some table keeps to**, and that
can be chained. -/
structure Keeps (R : World → World → Prop) (t : Table) : Prop where
  refl : ∀ w, R w w
  trans : ∀ {w w' w''}, R w w' → R w' w'' → R w w''
  allocate : ∀ n, Within R (liftM (Effect.allocateNulls n) : Effect Address)
  store : ∀ a i v, Within R (Effect.store a i v)
  call : ∀ name args, Within R (t.call name args)

namespace Machine

open Exec

variable {s : Setting} {α β : Type}

/-- **An action leads the world along a relation.** -/
abbrev Leads (R : World → World → Prop) (x : Exec α) : Prop :=
  Within (InvImage R Memory.world) x

end Machine

namespace Keeps

open Machine Exec

/-! ## Steps -/

/-- Keeping to the relation is inherited by all that a machine does. -/
theorem closed (h : Keeps R t) : Exec.Closed (fun _ x => Leads R x) t where
  pure a := Within.pure (fun m => h.refl m.world) a
  throw e := Within.throw (fun m => h.refl m.world) e
  bind hx hf := Within.bind h.trans hx hf
  ask hf _ := Within.bind h.trans (Within.get fun m => h.refl m.world) hf
  stack _ := Within.modify fun m => h.refl m.world
  globals _ := Within.modify fun m => h.refl m.world
  allocate n m := h.allocate n m.world
  load _ _ m := h.refl m.world
  store a i v m := h.store a i v m.world
  call name args m := h.call name args m.world

/-! ## Runs and evaluations -/

section Runs

variable {s : Setting} {fuel : Nat} {m m' : Memory} {args : List Value}

/-- A run keeps to the relation. -/
theorem run {result : Except RuntimeError Value} (h : Keeps R s.table)
    (hrun : run s fuel m = some (result, m')) : R m.world m'.world := by
  induction fuel generalizing m with
  | zero => cases hrun
  | succ fuel ih =>
    have hstep := h.closed.step m
    rw [Machine.run] at hrun
    rcases hr : (Machine.step s).apply m with ⟨e | _ | v, m₁⟩
    all_goals
      rw [hr] at hstep hrun
    · cases hrun
      exact hstep
    · exact h.trans hstep (ih hrun)
    · cases hrun
      exact hstep

/-- A call keeps to the relation. -/
theorem invoke {ref : FunctionRef} {result : Except RuntimeError Value} (h : Keeps R s.table)
    (hinvoke : invoke s fuel ref args m = some (result, m')) : R m.world m'.world := by
  have henter := h.closed.enter s ref args .halt m
  rw [Machine.invoke] at hinvoke
  rcases hr : (Machine.enter s ref args .halt).apply m with ⟨e | _, inner⟩
  all_goals
    rw [hr] at henter hinvoke
  · cases hinvoke
    exact henter
  · obtain ⟨⟨outcome, left⟩, hrun, heq⟩ := Option.map_eq_some_iff.mp hinvoke
    cases heq
    rw [world_settle]
    exact h.trans henter (h.run hrun)

/-- The initialization of modules keeps to the relation. -/
theorem initModules {order : List ModuleIndex} {result : Except RuntimeError Unit}
    (h : Keeps R s.table) (hinit : initModules s fuel order m = some (result, m')) :
    R m.world m'.world := by
  induction order generalizing m with
  | nil =>
    cases hinit
    exact h.refl _
  | cons i rest ih =>
    cases href : initializer? s.program i with
    | none =>
      simp only [Machine.initModules, href] at hinit
      exact ih hinit
    | some ref =>
      rw [initModules_cons href] at hinit
      rcases hr : Machine.invoke s fuel ref [] m with _ | ⟨e | v, m₁⟩
      all_goals
        rw [hr] at hinit
      · cases hinit
      · cases hinit
        exact h.invoke hr
      · exact h.trans (h.invoke hr) (ih hinit)

/-- The call of the entry keeps to the relation. -/
theorem runEntry {result : Except RuntimeError Outcome} (h : Keeps R s.table)
    (hentry : runEntry s fuel args m = some (result, m')) : R m.world m'.world := by
  obtain ⟨⟨outcome, left⟩, hinvoke, heq⟩ := Option.map_eq_some_iff.mp hentry
  cases heq
  exact h.invoke hinvoke

end Runs

end Keeps

/-! ## The standard operations -/

/-- **A relation that every elementary act on the world keeps to**, and that can
be chained. -/
structure Tracks (R : World → World → Prop) : Prop where
  refl : ∀ w, R w w
  trans : ∀ {w w' w''}, R w w' → R w' w'' → R w w''
  allocate : ∀ n, Within R (liftM (Effect.allocateNulls n) : Effect Address)
  store : ∀ a i v, Within R (Effect.store a i v)
  print : ∀ op text, Within R (Effect.printLine op text)
  read : ∀ op, Within R (Effect.readLine op)
  clock : Within R (liftM Effect.readClock : Effect Int)

namespace Tracks

/-- The effects within a relation that tracks them are closed. -/
theorem closed (h : Tracks R) : Effect.Closed fun _ e => Within R e where
  pure a := Within.pure h.refl a
  throw e := Within.throw h.refl e
  bind hx hf := Within.bind h.trans hx hf
  ask hf _ := Within.bind h.trans (Within.get h.refl) hf
  print text := h.print Builtin.Name.print text
  read op := h.read op
  clock := h.clock

/-- A machine with the standard table keeps to the relation. -/
theorem keeps (h : Tracks R) (ht : Table.standard = .ok t) : Keeps R t where
  refl := h.refl
  trans := h.trans
  allocate := h.allocate
  store := h.store
  call := h.closed.call ht

end Tracks

/-! ## The output -/

/-- **What was printed stays printed.** -/
def World.Prints (w w' : World) : Prop :=
  w.console.output.toList <+: w'.console.output.toList

/-- **A write only adds to the output.** -/
theorem Console.output_write (c : Console) (bytes : List UInt8) :
    ∃ more : List UInt8, (c.write bytes).2.output = c.output ++ more := by
  obtain ⟨input, output, room, inputFault, outputFault⟩ := c
  cases room with
  | none => exact ⟨bytes, by simp [write]⟩
  | some room =>
    by_cases hfits : bytes.length ≤ room
    · exact ⟨bytes, by simp [write, hfits]⟩
    · exact ⟨bytes.take room, by simp [write, hfits]⟩

/-- Reading a line leaves the output. -/
theorem Console.output_readLine (c : Console) : c.readLine.2.output = c.output := rfl

/-- What reading a line on behalf of an operation comes to. -/
def Effect.lineFor (op : String) : Except IoFault (Option String) → Except RuntimeError String
  | .ok (some line) => .ok line
  | .ok none => .error (.io op .endOfInput)
  | .error fault => .error (.io op fault)

/-- Reading a line changes the console alone. -/
theorem Effect.apply_readLine (op : String) (w : World) :
    (Effect.readLine op).apply w =
      (Effect.lineFor op w.console.readLine.1, { w with console := w.console.readLine.2 }) := by
  obtain ⟨heap, console, clock⟩ := w
  rcases hr : console.readLine with ⟨_ | _ | line, console'⟩ <;>
    simp [Effect.readLine, Effect.lineFor, Transform.apply, ExceptT.run, ExceptT.mk, StateT.run, hr]

/-- Printing tracks all effects: what was printed stays. -/
theorem World.prints_tracks : Tracks World.Prints where
  refl _ := List.prefix_refl _
  trans h h' := h.trans h'
  allocate _ _ := List.prefix_refl _
  store a i v w := List.prefix_refl _
  print op text w := by
    obtain ⟨more, hmore⟩ := w.console.output_write (Utf8.encode (text ++ "\n"))
    refine ⟨more, ?_⟩
    rw [← Array.toList_appendList, ← hmore]
    rfl
  read op w := by
    refine ⟨[], ?_⟩
    rw [List.append_nil, Effect.apply_readLine, Console.output_readLine]
  clock _ := List.prefix_refl _

end BlockIR
