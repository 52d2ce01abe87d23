import BlockIR.Proofs.Console
import BlockIR.Proofs.Machine.Depth
/-!
# Limited room only cuts the output off

With limited room for its output a run does what it does without a limit, up to
the line that does not fit. `Curbed` relates what the two come to: if everything
printed fits, the same with less room left, and otherwise a failure to print,
with as much printed as fits. It is inherited by sequences of actions, and so by
steps, runs, calls and evaluations.
-/

namespace BlockIR

open Success

/-- The world with so much room left for the output. -/
def World.withRoom (n : Nat) (w : World) : World := { w with console := w.console.withRoom n }

/-- The memory with so much room left for the output. -/
def Memory.withRoom (n : Nat) (m : Memory) : Memory := { m with world := m.world.withRoom n }

namespace Machine

open Exec

variable {α β : Type} {s : Setting} {m m₁ : Memory} {n : Nat}

/-- What a run fails with when a line does not fit. -/
def full : RuntimeError := .io Builtin.Name.print .outputFull

/-- **What an action comes to with limited room, given what it comes to without a
limit.** -/
def Curbed (n : Nat) (m : Memory) (x x' : Finish α) : Prop :=
  ∀ result m₁, x = some (result, m₁) → m₁.world.console.room = none ∧
    ∃ bytes : List UInt8,
      m₁.world.console.output.toList = m.world.console.output.toList ++ bytes ∧
      (bytes.length ≤ n → x' = some (result, m₁.withRoom (n - bytes.length))) ∧
      (n < bytes.length → ∃ m₂, x' = some (.error full, m₂) ∧
        m₂.world.console.output.toList = m.world.console.output.toList ++ bytes.take n)

namespace Curbed

variable {x x' : Finish α}

/-- What prints nothing needs no room. -/
theorem silent {result : Except RuntimeError α} (hroom : m₁.world.console.room = none)
    (houtput : m₁.world.console.output = m.world.console.output) :
    Curbed n m (some (result, m₁)) (some (result, m₁.withRoom n)) := by
  rintro _ _ ⟨⟩
  refine ⟨hroom, [], ?_, fun _ => rfl, fun hlt => absurd hlt (Nat.not_lt_zero n)⟩
  rw [houtput, List.append_nil]

/-- **What follows an action finds what room that leaves.** -/
theorem andThen {f : α → Memory → Finish β} (h : Curbed n m x x')
    (hf : ∀ a m₁ k, m₁.world.console.room = none →
      Curbed k m₁ (f a m₁) (f a (m₁.withRoom k))) :
    Curbed n m (x.andThen f) (x'.andThen f) := by
  intro result m₂ hfinish
  rcases hx : x with _ | ⟨e | a, m₁⟩
  · rw [hx] at hfinish
    cases hfinish
  · rw [hx] at hfinish
    cases hfinish
    obtain ⟨hroom, bytes, houtput, hfits, hcut⟩ := h (.error e) _ hx
    refine ⟨hroom, bytes, houtput, fun hle => ?_, fun hlt => ?_⟩
    · rw [hfits hle]
      rfl
    · obtain ⟨m₂, hx', houtput'⟩ := hcut hlt
      exact ⟨m₂, by rw [hx']; rfl, houtput'⟩
  · rw [hx] at hfinish
    obtain ⟨hroom, bytes, houtput, hfits, hcut⟩ := h (.ok a) m₁ hx
    obtain ⟨hroom', bytes', houtput', hfits', hcut'⟩ :=
      hf a m₁ (n - bytes.length) hroom result m₂ hfinish
    -- both print one after the other, the second into the room that the first leaves
    refine ⟨hroom', bytes ++ bytes', by rw [houtput', houtput, List.append_assoc], ?_, ?_⟩
    · intro hle
      rw [List.length_append] at hle ⊢
      rw [hfits (by omega), ← Nat.sub_sub]
      exact hfits' (by omega)
    · intro hlt
      rw [List.length_append] at hlt
      rcases Nat.lt_or_ge n bytes.length with hfirst | hfirst
      · -- the first action is cut off already, and the second never begins
        obtain ⟨m₃, hx', houtput₃⟩ := hcut hfirst
        refine ⟨m₃, by rw [hx']; rfl, ?_⟩
        rw [houtput₃, List.take_append_of_le_length (Nat.le_of_lt hfirst)]
      · obtain ⟨m₃, hnext, houtput₃⟩ := hcut' (by omega)
        refine ⟨m₃, by rw [hfits hfirst]; exact hnext, ?_⟩
        rw [houtput₃, houtput, List.append_assoc, List.take_append, List.take_of_length_le hfirst]

/-- What is made of the outcome afterwards, if it is the same with limited room. -/
theorem map (h : Curbed n m x x')
    {g : Except RuntimeError α × Memory → Except RuntimeError β × Memory}
    (hworld : ∀ r, (g r).2.world = r.2.world)
    (hlimited : ∀ result m₁ k, g (result, m₁.withRoom k) =
      ((g (result, m₁)).1, (g (result, m₁)).2.withRoom k))
    (hfull : ∀ m₁, (g (.error full, m₁)).1 = .error full) :
    Curbed n m (x.map g) (x'.map g) := by
  intro result m₂ hfinish
  obtain ⟨⟨result₁, m₁⟩, hx, hg⟩ := Option.map_eq_some_iff.mp hfinish
  obtain ⟨hroom, bytes, houtput, hfits, hcut⟩ := h result₁ m₁ hx
  have hm₂ : m₂.world = m₁.world := by
    rw [← hworld (result₁, m₁), hg]
  rw [hm₂]
  refine ⟨hroom, bytes, houtput, fun hle => ?_, fun hlt => ?_⟩
  · rw [hfits hle, Option.map_some, hlimited, hg]
  · obtain ⟨m₃, hx', houtput'⟩ := hcut hlt
    refine ⟨(g (.error full, m₃)).2, ?_, by rw [hworld]; exact houtput'⟩
    rw [hx', Option.map_some, ← hfull m₃]

end Curbed

/-! ## Steps -/

/-- **An action is only curbed by limited room.** -/
def Truncates (x : Exec α) : Prop :=
  ∀ m n, m.world.console.room = none →
    Curbed n m (some (x.apply m)) (some (x.apply (m.withRoom n)))

/-- A sequence is cut off where its first or its second part is. -/
theorem Truncates.bind {x : Exec α} {f : α → Exec β} (hx : Truncates x)
    (hf : ∀ a, Truncates (f a)) : Truncates (x >>= f) := by
  have hseq : ∀ m, some ((x >>= f).apply m) =
      Finish.andThen (some (x.apply m)) fun a m₁ => some ((f a).apply m₁) := by
    intro m
    rw [Transform.apply_bind]
    rcases x.apply m with ⟨e | a, m₁⟩ <;> rfl
  intro m n hroom
  rw [hseq, hseq]
  exact (hx m n hroom).andThen fun a m₁ k hroom₁ => hf a m₁ k hroom₁

/-- An action that prints nothing and does not ask for the room. -/
theorem Truncates.of_silent {x : Exec α}
    (hsame : ∀ m n, x.apply (m.withRoom n) = ((x.apply m).1, (x.apply m).2.withRoom n))
    (hconsole : ∀ m, (x.apply m).2.world.console = m.world.console) : Truncates x := by
  intro m n hroom
  rw [hsame]
  exact Curbed.silent ((congrArg Console.room (hconsole m)).trans hroom)
    (congrArg Console.output (hconsole m))

/-- A question about the memory that is not about the world does not see the room. -/
theorem Truncates.ask {f : Memory → Exec α} (hf : ∀ m, Truncates (f m))
    (hworld : ∀ m w, f { m with world := w } = f m) : Truncates (get >>= f) := by
  intro m n hroom
  have hget : ∀ m, (get >>= f).apply m = (f m).apply m :=
    fun m => Transform.apply_bind_ok (Transform.apply_get m)
  have hlimited : f (m.withRoom n) = f m := hworld m (m.world.withRoom n)
  rw [hget, hget, hlimited]
  exact hf m m n hroom

/-- A line is printed as far as it fits. -/
theorem truncates_printLine (text : String) :
    Truncates (effect (Effect.printLine Builtin.Name.print text)) := by
  intro m n hroom
  let after (c : Console) : Memory := { m with world := { m.world with console := c } }
  have hprint : (effect (Effect.printLine Builtin.Name.print text)).apply m =
      ((m.world.console.printLine text).1.mapError (.io Builtin.Name.print),
        after (m.world.console.printLine text).2) := rfl
  have hlimited : (effect (Effect.printLine Builtin.Name.print text)).apply (m.withRoom n) =
      (((m.world.console.withRoom n).printLine text).1.mapError (.io Builtin.Name.print),
        after ((m.world.console.withRoom n).printLine text).2) := rfl
  rw [hprint, hlimited, Console.printLine_of_unlimited hroom]
  rintro _ _ ⟨⟩
  refine ⟨hroom, Utf8.encode (text ++ "\n"), Array.toList_appendList, fun hle => ?_, fun hlt => ?_⟩
  · rw [Console.printLine_withRoom hle]
    rfl
  · rw [Console.printLine_withRoom_of_lt hlt]
    exact ⟨_, rfl, Array.toList_appendList⟩

/-- Reading a line does not see the room. -/
theorem truncates_readLine (op : String) : Truncates (effect (Effect.readLine op)) := by
  intro m n hroom
  have hconsole : (m.withRoom n).world.console = m.world.console.withRoom n := rfl
  rw [apply_effect_of_memory, apply_effect_of_memory, Effect.apply_readLine, Effect.apply_readLine,
    hconsole, Console.readLine_withRoom]
  exact Curbed.silent ((Console.room_readLine _).trans hroom) (Console.output_readLine _)

/-- Effects are curbed if their parts are. -/
theorem truncates_effects : Effect.Closed fun _ e => Truncates (effect e) where
  pure _ := .of_silent (fun _ _ => rfl) fun _ => rfl
  throw _ := .of_silent (fun _ _ => rfl) fun _ => rfl
  bind hx hf := by
    rw [effect_bind]
    exact hx.bind hf
  ask {α f} hf hheap := by
    -- the question is about the heap, and the room is not in it
    intro m n hroom
    have hlimited : f (m.withRoom n).world = f m.world := hheap m.world _ _
    have hget : ∀ m, (effect (get >>= f)).apply m = (effect (f m.world)).apply m := fun _ => rfl
    rw [hget, hget, hlimited]
    exact hf m.world m n hroom
  print := truncates_printLine
  read := truncates_readLine
  clock := .of_silent (fun _ _ => rfl) fun _ => rfl

/-- **Every action of a machine with the standard table is only curbed.** -/
theorem truncates_closed {t : Table} (ht : Table.standard = .ok t) :
    Exec.Closed (fun _ x => Truncates x) t where
  pure _ := .of_silent (fun _ _ => rfl) fun _ => rfl
  throw _ := .of_silent (fun _ _ => rfl) fun _ => rfl
  bind hx hf := hx.bind hf
  ask hf hworld := .ask hf hworld
  stack _ := .of_silent (fun _ _ => rfl) fun _ => rfl
  globals _ := .of_silent (fun _ _ => rfl) fun _ => rfl
  allocate _ := .of_silent (fun _ _ => rfl) fun _ => rfl
  load _ _ := .of_silent (fun _ _ => rfl) fun _ => rfl
  store _ _ _ := .of_silent (fun _ _ => rfl) fun _ => rfl
  call := truncates_effects.call ht

/-! ## Runs, calls and evaluations -/

section

variable (ht : Table.standard = .ok s.table)
include ht

/-- A run with less room is the run cut off. -/
theorem run_curbed (fuel : Nat) (m : Memory) (n : Nat) (hroom : m.world.console.room = none) :
    Curbed n m (run s fuel m) (run s fuel (m.withRoom n)) := by
  -- by induction on the number of steps, for any room: each step may leave less of it
  induction fuel generalizing m n with
  | zero =>
    intro result m₁ hfinish
    cases hfinish
  | succ fuel ih =>
    rw [run_succ, run_succ]
    refine ((truncates_closed ht).step m n hroom).andThen fun r m₁ k hroom₁ => ?_
    cases r with
    | none => exact ih m₁ k hroom₁
    | some v => exact Curbed.silent hroom₁ rfl

/-- A call with less room is the call cut off. -/
theorem invoke_curbed (fuel : Nat) (ref : FunctionRef) (args : List Value) (m : Memory) (n : Nat)
    (hroom : m.world.console.room = none) :
    Curbed n m (invoke s fuel ref args m) (invoke s fuel ref args (m.withRoom n)) := by
  rw [invoke_eq, invoke_eq]
  refine ((truncates_closed ht).enter s ref args .halt m n hroom).andThen fun _ m₁ k hroom₁ => ?_
  refine (run_curbed ht fuel m₁ k hroom₁).map (fun r => world_settle r.1 r.2) ?_ fun _ => rfl
  rintro (e | v) m₂ k <;> rfl

/-- An initialization with less room is the initialization cut off. -/
theorem initModules_curbed (fuel : Nat) (order : List ModuleIndex) (m : Memory) (n : Nat)
    (hroom : m.world.console.room = none) :
    Curbed n m (initModules s fuel order m) (initModules s fuel order (m.withRoom n)) := by
  induction order generalizing m n with
  | nil => exact Curbed.silent hroom rfl
  | cons i rest ih =>
    cases href : initializer? s.program i with
    | none =>
      simp only [initModules, href]
      exact ih m n hroom
    | some ref =>
      rw [initModules_cons href, initModules_cons href]
      exact (invoke_curbed ht fuel ref [] m n hroom).andThen fun _ m₁ k hroom₁ => ih m₁ k hroom₁

/-- The call of the entry with less room is that call cut off. -/
theorem runEntry_curbed (fuel : Nat) (args : List Value) (m : Memory) (n : Nat)
    (hroom : m.world.console.room = none) :
    Curbed n m (runEntry s fuel args m) (runEntry s fuel args (m.withRoom n)) :=
  (invoke_curbed ht fuel s.program.entry args m n hroom).map (fun _ => rfl) (fun _ _ _ => rfl)
    fun _ => rfl

/-- Both parts of an evaluation with less room are cut off together. -/
theorem entry_curbed (fuel : Nat) (args : List Value) (m : Memory) (n : Nat)
    (hroom : m.world.console.room = none) :
    Curbed n m
      ((initModules s fuel s.program.initOrder m).andThen fun _ => runEntry s fuel args)
      ((initModules s fuel s.program.initOrder (m.withRoom n)).andThen fun _ =>
        runEntry s fuel args) :=
  (initModules_curbed ht fuel s.program.initOrder m n hroom).andThen fun _ m₁ k hroom₁ =>
    runEntry_curbed ht fuel args m₁ k hroom₁

end

/-- **A full sink truncates an evaluation and does nothing else.** A line is printed
by writing until all of it is taken. If an evaluation without a limit on its
output finishes and all that it prints fits, then with limited room it comes to
the same, but for the room. Otherwise it fails to print, and what it has printed
is exactly as much as fits. -/
theorem full_sink_truncates (p : Program) (limits : Limits) (fuel : Nat) (args : List Value)
    (w : World) (hroom : w.console.room = none) (n : Nat) :
    (∀ text (c : Console), c.printLine text = c.writeLine text) ∧
    ∀ result w₁, evaluateStandard p limits fuel args w = some (result, w₁) →
      ∃ bytes : List UInt8, w₁.console.output.toList = w.console.output.toList ++ bytes ∧
        (bytes.length ≤ n → evaluateStandard p limits fuel args (w.withRoom n) =
          some (result, w₁.withRoom (n - bytes.length))) ∧
        (n < bytes.length → ∃ w₂, evaluateStandard p limits fuel args (w.withRoom n) =
            some (.error (.io "print" .outputFull), w₂) ∧
          w₂.console.output.toList = w.console.output.toList ++ bytes.take n) := by
  refine ⟨fun text c => c.printLine_eq_writeLine text, fun result w₁ hrun => ?_⟩
  obtain ⟨table, ht, -⟩ := Table.exists_standard
  simp only [evaluateStandard, ht] at hrun ⊢
  cases hentry : checkEntry p args with
  | error e =>
    simp only [Machine.evaluate, hentry] at hrun ⊢
    cases hrun
    exact ⟨[], by simp, fun _ => rfl, fun hlt => absurd hlt (Nat.not_lt_zero n)⟩
  | ok _ =>
    have hevaluate : ∀ w, Machine.evaluate ⟨p, table, limits.maxCallDepth⟩ fuel args w = _ :=
      fun w => evaluate_of_checkEntry (s := ⟨p, table, limits.maxCallDepth⟩) hentry fuel w
    have hcurbed := entry_curbed (s := ⟨p, table, limits.maxCallDepth⟩) ht fuel args
      (startMemory p w) n hroom
    rw [hevaluate] at hrun ⊢
    obtain ⟨⟨_, m₁⟩, hfinish, heq⟩ := Option.map_eq_some_iff.mp hrun
    cases heq
    obtain ⟨-, bytes, houtput, hfits, hcut⟩ := hcurbed _ m₁ hfinish
    refine ⟨bytes, houtput, fun hle => ?_, fun hlt => ?_⟩
    · exact Option.map_eq_some_iff.mpr ⟨_, hfits hle, rfl⟩
    · obtain ⟨m₂, hfull, houtput'⟩ := hcut hlt
      exact ⟨m₂.world, Option.map_eq_some_iff.mpr ⟨_, hfull, rfl⟩, houtput'⟩

/-- Counting down from one prints four bytes. They fit into five, and of three the
second line misses its end. -/
theorem full_sink_truncates_countdown :
    let w : World := ⟨{}, {}, .steady 0⟩
    ∃ o w₁, evaluateStandard countdownProgram {} 20 [.int 1] w = some (.ok o, w₁) ∧
      evaluateStandard countdownProgram {} 20 [.int 1] (w.withRoom 5) =
        some (.ok o, w₁.withRoom 1) ∧
      ∃ w₂, evaluateStandard countdownProgram {} 20 [.int 1] (w.withRoom 3) =
          some (.error (.io "print" .outputFull), w₂) ∧
        w₂.console.output.toList = [49, 10, 48] := by
  intro w
  have hone : (evaluateStandard countdownProgram {} 20 [.int 1] w).map
      (fun r => (r.1.map (·.value), r.2.console.output.toList)) =
      some (.ok (.int 0), [49, 10, 48, 10]) := by decide +kernel
  obtain ⟨⟨e | o, w₁⟩, hrun, hdone⟩ := Option.map_eq_some_iff.mp hone
  · cases congrArg Prod.fst hdone
  have hbytes : w₁.console.output.toList = [49, 10, 48, 10] := congrArg Prod.snd hdone
  obtain ⟨bytes, houtput, hfits, -⟩ :=
    (full_sink_truncates countdownProgram {} 20 [.int 1] w rfl 5).2 _ _ hrun
  obtain rfl : bytes = [49, 10, 48, 10] := houtput.symm.trans hbytes
  obtain ⟨bytes, houtput', -, hcut⟩ :=
    (full_sink_truncates countdownProgram {} 20 [.int 1] w rfl 3).2 _ _ hrun
  obtain rfl : bytes = [49, 10, 48, 10] := houtput'.symm.trans hbytes
  exact ⟨o, w₁, hrun, hfits (by decide), hcut (by decide)⟩

end Machine

end BlockIR
