import BlockIR.Proofs.Machine.Safety
/-!
# What a step makes of the frames

`Steps` lists what a step can do to the calls in progress, for any program: it
changes the innermost frame, begins a call, returns to the caller or ends the
run. Everything below the innermost frame and its caller stays. A step that
fails leaves the frames below as they were. What a run does to the frames is
derived from this list alone.
-/

namespace BlockIR

open Success

namespace Machine

open Exec

variable {s : Setting} {fr : Frame} {rest frames : List Frame} {globals : Array Value}
variable {world : World} {i : Instruction} {m m' : Memory}

/-! ## Instructions whose operands cannot be read -/

/-- An action fails and changes nothing, and not for want of room for a call. -/
def Refuses {α : Type} (x : Exec α) (m : Memory) : Prop :=
  ∃ e, x.apply m = (.error e, m) ∧ ∀ limit, e ≠ .stackOverflow limit

/-- A sequence is refused when its first part is. -/
theorem Refuses.bind {α β : Type} {x : Exec α} (h : Refuses x m) (k : α → Exec β) :
    Refuses (x >>= k) m := by
  obtain ⟨e, he, hne⟩ := h
  exact ⟨e, Transform.apply_bind_error he, hne⟩

/-- A sequence is refused when its second part is, behind a first that changes
nothing. -/
theorem Refuses.of_bind_ok {α β : Type} {x : Exec α} {k : α → Exec β} {a : α}
    (hx : x.apply m = (.ok a, m)) (h : Refuses (k a) m) : Refuses (x >>= k) m := by
  obtain ⟨e, he, hne⟩ := h
  exact ⟨e, (Transform.apply_bind_ok hx).trans he, hne⟩

/-- An operand without value is refused. -/
theorem refuses_operand {op : Operand} (h : fr.value? op = none) :
    Refuses (operand op) (.ofFrames (fr :: rest) globals world) := by
  cases op with
  | const c => cases h
  | var l =>
    have hl : fr.locals[l]? = none := h
    refine ⟨.internal (.localOutOfRange l), ?_, by rintro _ ⟨⟩⟩
    rw [operand, readLocal, Transform.apply_bind_ok apply_top, hl]
    rfl

/-- Operands are refused when one of them has no value. -/
theorem refuses_operands {ops : List Operand} (h : ∃ op ∈ ops, fr.value? op = none) :
    Refuses (operands ops) (.ofFrames (fr :: rest) globals world) := by
  induction ops with
  | nil =>
    obtain ⟨op, hop, -⟩ := h
    cases hop
  | cons op ops ih =>
    unfold operands at ih ⊢
    rw [List.mapM_cons]
    cases hv : fr.value? op with
    | none => exact (refuses_operand hv).bind _
    | some v =>
      refine .of_bind_ok (apply_operand hv) (Refuses.bind (ih ?_) _)
      obtain ⟨op', hop', hnone⟩ := h
      rcases List.mem_cons.mp hop' with rfl | hop'
      · rw [hv] at hnone
        cases hnone
      · exact ⟨op', hop', hnone⟩

/-- A check of a value either passes it on or fails for its kind. -/
def Checks {α : Type} (check : Value → Effect α) : Prop :=
  ∀ v, (∃ a, check v = pure a) ∨ ∃ role kind, check v = throw (.operandKind role kind v.kind)

/-- The check for an integer changes nothing. -/
theorem checks_int (role : OperandRole) : Checks (Operation.int role) := by
  intro v
  cases v with
  | int n => exact .inl ⟨n, rfl⟩
  | str _ => exact .inr ⟨role, .int, rfl⟩
  | array _ => exact .inr ⟨role, .int, rfl⟩
  | null => exact .inr ⟨role, .int, rfl⟩

/-- The check for an array changes nothing. -/
theorem checks_array (role : OperandRole) : Checks (Operation.array role) := by
  intro v
  cases v with
  | array a => exact .inl ⟨a, rfl⟩
  | int _ => exact .inr ⟨role, .array, rfl⟩
  | str _ => exact .inr ⟨role, .array, rfl⟩
  | null => exact .inr ⟨role, .array, rfl⟩

/-- **An operand with a check is refused if it cannot be read**, and else what
follows is refused or the check fails. -/
theorem refuses_checked {α β : Type} {check : Value → Effect α} {op : Operand} {k : α → Exec β}
    (hcheck : Checks check)
    (h : fr.value? op = none ∨ ∀ a, Refuses (k a) (.ofFrames (fr :: rest) globals world)) :
    Refuses ((operand op >>= fun v => effect (check v)) >>= k)
      (.ofFrames (fr :: rest) globals world) := by
  rw [bind_assoc]
  cases hv : fr.value? op with
  | none => exact (refuses_operand hv).bind _
  | some v =>
    have hk := h.resolve_left (by rw [hv]; exact Option.some_ne_none v)
    refine .of_bind_ok (apply_operand hv) ?_
    rcases hcheck v with ⟨a, ha⟩ | ⟨role, kind, he⟩
    · rw [ha]
      exact .of_bind_ok (apply_effect _ _) (hk a)
    · rw [he]
      exact ⟨_, rfl, by rintro _ ⟨⟩⟩

/-- Where an operand must be an integer, it is refused unless it is one. -/
theorem refuses_intOperand {α : Type} {role : OperandRole} {op : Operand} {k : Int64 → Exec α}
    (h : fr.value? op = none ∨ ∀ n, Refuses (k n) (.ofFrames (fr :: rest) globals world)) :
    Refuses (intOperand role op >>= k) (.ofFrames (fr :: rest) globals world) := by
  rw [intOperand_eq]
  exact refuses_checked (checks_int role) h

/-- Where an operand must be an array, it is refused unless it is one. -/
theorem refuses_arrayOperand {α : Type} {role : OperandRole} {op : Operand} {k : Address → Exec α}
    (h : fr.value? op = none ∨ ∀ a, Refuses (k a) (.ofFrames (fr :: rest) globals world)) :
    Refuses (arrayOperand role op >>= k) (.ofFrames (fr :: rest) globals world) := by
  rw [arrayOperand_eq]
  exact refuses_checked (checks_array role) h

/-- **An instruction reads all its operands before it does anything**, so it does
nothing if one of them cannot be read. -/
theorem refuses_execute (h : ¬ fr.Reads i) :
    Refuses (execute s i) (.ofFrames (fr :: rest) globals world) := by
  obtain ⟨op, hop, hnone⟩ : ∃ op ∈ i.operands, fr.value? op = none := by
    simpa [Frame.Reads, Option.eq_none_iff_forall_ne_some] using h
  -- operands are read from left to right; one before the missing one may fail its
  -- check, and that changes nothing either
  unfold execute
  cases i with
  | copy dst src =>
    obtain rfl := List.mem_singleton.mp hop
    exact (refuses_operand hnone).bind _
  | newArray dst size =>
    obtain rfl := List.mem_singleton.mp hop
    exact refuses_intOperand (.inl hnone)
  | loadArray dst array index =>
    rcases List.mem_cons.mp hop with rfl | hop
    · exact refuses_arrayOperand (.inl hnone)
    · obtain rfl := List.mem_singleton.mp hop
      exact refuses_arrayOperand (.inr fun _ => refuses_intOperand (.inl hnone))
  | storeArray array index value =>
    rcases List.mem_cons.mp hop with rfl | hop
    · exact refuses_arrayOperand (.inl hnone)
    · rcases List.mem_cons.mp hop with rfl | hop
      · exact refuses_arrayOperand (.inr fun _ => refuses_intOperand (.inl hnone))
      · obtain rfl := List.mem_singleton.mp hop
        exact refuses_arrayOperand (.inr fun _ =>
          refuses_intOperand (.inr fun _ => (refuses_operand hnone).bind _))
  | loadGlobal dst g => cases hop
  | storeGlobal g src =>
    obtain rfl := List.mem_singleton.mp hop
    exact (refuses_operand hnone).bind _
  | call dst callee args =>
    cases callee with
    | builtin name => exact (refuses_operands ⟨op, hop, hnone⟩).bind _
    | function ref => exact (refuses_operands ⟨op, hop, hnone⟩).bind _
  | binary dst operator lhs rhs =>
    cases hl : fr.value? lhs with
    | none => exact (refuses_operand hl).bind _
    | some v =>
      rcases List.mem_cons.mp hop with rfl | hop
      · rw [hl] at hnone
        cases hnone
      · obtain rfl := List.mem_singleton.mp hop
        exact .of_bind_ok (apply_operand hl) ((refuses_operand hnone).bind _)
  | jump target => cases hop
  | branch cond thenTarget elseTarget =>
    obtain rfl := List.mem_singleton.mp hop
    exact (refuses_operand hnone).bind _
  | ret value =>
    obtain rfl := List.mem_singleton.mp hop
    exact (refuses_operand hnone).bind _

/-! ## The move that an instruction comes to -/

/-- The moves that an instruction can come to. -/
def Permits (val : Operand → Value) (i : Instruction) : Move → Prop
  | .deliver dst _ => dst = i.def? ∧ i.isTerminator = false
  | .goto target => target ∈ i.targets
  | .call dst ref args => ∃ ops, i = .call dst (.function ref) ops ∧ args = ops.map val
  | .ret v => ∃ op, i = .ret op ∧ v = val op

/-- An instruction resolves only to moves that it permits. -/
theorem permits_of_resolve {val : Operand → Value} {move : Move}
    (h : (resolve s val i).apply m = (.ok move, m')) : Permits val i move := by
  cases i with
  | copy dst src =>
    cases h
    exact ⟨rfl, rfl⟩
  | newArray dst size =>
    obtain ⟨v, t, -, ht⟩ := apply_bind_eq_ok.mp h
    cases ht
    exact ⟨rfl, rfl⟩
  | loadArray dst array index =>
    obtain ⟨v, t, -, ht⟩ := apply_bind_eq_ok.mp h
    cases ht
    exact ⟨rfl, rfl⟩
  | storeArray array index value =>
    obtain ⟨v, t, -, ht⟩ := apply_bind_eq_ok.mp h
    cases ht
    exact ⟨rfl, rfl⟩
  | loadGlobal dst g =>
    obtain ⟨v, t, -, ht⟩ := apply_bind_eq_ok.mp h
    cases ht
    exact ⟨rfl, rfl⟩
  | storeGlobal g src =>
    obtain ⟨v, t, -, ht⟩ := apply_bind_eq_ok.mp h
    cases ht
    exact ⟨rfl, rfl⟩
  | call dst callee args =>
    cases callee with
    | builtin name =>
      obtain ⟨v, t, -, ht⟩ := apply_bind_eq_ok.mp h
      cases ht
      exact ⟨rfl, rfl⟩
    | function ref =>
      cases h
      exact ⟨args, rfl, rfl⟩
  | binary dst op lhs rhs =>
    obtain ⟨v, t, -, ht⟩ := apply_bind_eq_ok.mp h
    cases ht
    exact ⟨rfl, rfl⟩
  | jump target =>
    cases h
    exact List.mem_cons_self
  | branch cond thenTarget elseTarget =>
    rw [resolve] at h
    split at h
    · cases h
      refine Instruction.mem_targets_branch.mpr ?_
      split
      · exact .inr rfl
      · exact .inl rfl
    · cases h
  | ret value =>
    cases h
    exact ⟨value, rfl, rfl⟩

/-- An action that neither reads nor changes the frames. -/
def Aside {α : Type} (x : Exec α) : Prop :=
  ∀ globals world, ∃ result globals' world', ∀ frames,
    x.apply (.ofFrames frames globals world) = (result, .ofFrames frames globals' world')

/-- A value leaves the frames. -/
theorem Aside.pure {α : Type} (a : α) : Aside (pure a : Exec α) :=
  fun globals world => ⟨.ok a, globals, world, fun _ => rfl⟩

/-- A failure leaves the frames. -/
theorem Aside.throw {α : Type} (e : RuntimeError) : Aside (throw e : Exec α) :=
  fun globals world => ⟨.error e, globals, world, fun _ => rfl⟩

/-- An effect leaves the frames. -/
theorem Aside.effect {α : Type} (e : Effect α) : Aside (effect e) :=
  fun globals world => ⟨(e.apply world).1, globals, (e.apply world).2, fun _ => rfl⟩

/-- Reading a global leaves the frames. -/
theorem Aside.readGlobal (g : GlobalId) : Aside (readGlobal g) := by
  intro globals world
  rcases Nat.lt_or_ge g globals.size with hg | hg
  · exact ⟨_, globals, world, fun _ => apply_readGlobal (Array.getElem?_eq_getElem hg)⟩
  · exact ⟨_, globals, world, fun _ => apply_readGlobal_of_le hg⟩

/-- Writing a global leaves the frames. -/
theorem Aside.writeGlobal (g : GlobalId) (v : Value) : Aside (writeGlobal g v) := by
  intro globals world
  rcases Nat.lt_or_ge g globals.size with hg | hg
  · exact ⟨_, globals.setIfInBounds g v, world, fun _ => apply_writeGlobal hg⟩
  · exact ⟨_, globals, world, fun _ => apply_writeGlobal_of_le hg⟩

/-- A sequence leaves the frames when both parts do. -/
theorem Aside.bind {α β : Type} {x : Exec α} {k : α → Exec β} (hx : Aside x)
    (hk : ∀ a, Aside (k a)) : Aside (x >>= k) := by
  intro globals world
  obtain ⟨e | a, globals', world', happly⟩ := hx globals world
  · exact ⟨.error e, globals', world', fun frames => Transform.apply_bind_error (happly frames)⟩
  · obtain ⟨result, globals'', world'', happly'⟩ := hk a globals' world'
    exact ⟨result, globals'', world'', fun frames =>
      (Transform.apply_bind_ok (happly frames)).trans (happly' frames)⟩

/-- **The move is settled aside from the frames.** -/
theorem resolve_aside (s : Setting) (val : Operand → Value) (i : Instruction) :
    Aside (resolve s val i) := by
  cases i with
  | copy dst src => exact .pure _
  | newArray dst size => exact (Aside.effect _).bind fun _ => .pure _
  | loadArray dst array index => exact (Aside.effect _).bind fun _ => .pure _
  | storeArray array index value => exact (Aside.effect _).bind fun _ => .pure _
  | loadGlobal dst g => exact (Aside.readGlobal g).bind fun _ => .pure _
  | storeGlobal g src => exact (Aside.writeGlobal g _).bind fun _ => .pure _
  | call dst callee args =>
    cases callee with
    | builtin name => exact (Aside.effect _).bind fun _ => .pure _
    | function ref => exact .pure _
  | binary dst op lhs rhs => exact (Aside.effect _).bind fun _ => .pure _
  | jump target => exact .pure _
  | branch cond thenTarget elseTarget =>
    rw [resolve]
    cases val cond with
    | int n => exact .pure _
    | str _ => exact .throw _
    | array _ => exact .throw _
    | null => exact .throw _
  | ret value => exact .pure _

/-- **The error does not name a full stack**, unless an operation of the table
reports one. -/
def Reports (s : Setting) (e : RuntimeError) : Prop :=
  ∀ limit, e = .stackOverflow limit →
    ∃ name args w w', (s.table.call name args).apply w = (.error e, w')

/-- A report of an operation is one of the run. -/
theorem reports_of_isReport {e : RuntimeError} (h : e.isReport = true) : Reports s e := by
  rintro limit rfl
  cases h

/-- An effect in the machine fails only as the effect does. -/
theorem meets_effect {α : Type} {e : Effect α} {bad : RuntimeError → Prop}
    (h : ∀ w err w', e.apply w = (.error err, w') → bad err) (m : Memory) :
    Meets (effect e) m (fun _ _ => True) fun err _ => bad err := by
  refine Meets.congr (congrArg (effect e).apply m.eq_ofFrames) ?_
  unfold Meets
  rw [apply_effect]
  rcases hr : e.apply m.world with ⟨err | a, w'⟩
  · exact h _ _ _ hr
  · trivial

/-- A sound effect fails only with reports. -/
theorem reports_effect {α : Type} {e : Effect α} (h : ∀ w, e.Sound w fun _ => True) (m : Memory) :
    Meets (effect e) m (fun _ _ => True) fun err _ => Reports s err := by
  refine meets_effect (fun w err w' herr => ?_) m
  have hw := h w
  unfold Effect.Sound Meets at hw
  rw [herr] at hw
  exact reports_of_isReport hw

/-- A call of an operation fails only with reports. -/
theorem reports_operation (s : Setting) (name : String) (args : List Value) (m : Memory) :
    Meets (effect (s.table.call name args)) m (fun _ _ => True) fun err _ => Reports s err :=
  meets_effect (fun w _ w' herr _ _ => ⟨name, args, w, w', herr⟩) m

/-- Before a move is made, only an operation can name a full stack. -/
theorem reports_resolve (s : Setting) (val : Operand → Value) (i : Instruction) (m : Memory) :
    Meets (resolve s val i) m (fun _ _ => True) fun e _ => Reports s e := by
  cases i with
  | copy dst src => exact Meets.pure trivial
  | newArray dst size =>
    exact (reports_effect (newArray_sound _) m).bind fun _ _ _ => Meets.pure trivial
  | loadArray dst array index =>
    exact (reports_effect (load_sound _ _) m).bind fun _ _ _ => Meets.pure trivial
  | storeArray array index value =>
    exact (reports_effect (store_sound _ _ _) m).bind fun _ _ _ => Meets.pure trivial
  | loadGlobal dst g =>
    have hread : Meets (readGlobal g) m (fun _ _ => True) fun e _ => Reports s e := by
      refine Meets.bind Meets.get fun m' _ _ => ?_
      cases m'.globals[g]? with
      | none => exact Meets.throw (by rintro _ ⟨⟩)
      | some v => exact Meets.pure trivial
    exact hread.bind fun _ _ _ => Meets.pure trivial
  | storeGlobal g src =>
    have hwrite : Meets (writeGlobal g (val src)) m (fun _ _ => True) fun e _ => Reports s e := by
      refine Meets.bind Meets.get fun m' _ _ => ?_
      split
      · trivial
      · exact Meets.throw (by rintro _ ⟨⟩)
    exact hwrite.bind fun _ _ _ => Meets.pure trivial
  | call dst callee args =>
    cases callee with
    | builtin name =>
      exact (reports_operation s name _ m).bind fun _ _ _ => Meets.pure trivial
    | function ref => exact Meets.pure trivial
  | binary dst op lhs rhs =>
    exact (reports_operation s _ _ m).bind fun _ _ _ => Meets.pure trivial
  | jump target => exact Meets.pure trivial
  | branch cond thenTarget elseTarget =>
    rw [resolve]
    cases val cond with
    | int n => exact Meets.pure trivial
    | str _ => exact Meets.throw (reports_of_isReport rfl)
    | array _ => exact Meets.throw (reports_of_isReport rfl)
    | null => exact Meets.throw (reports_of_isReport rfl)
  | ret value => exact Meets.pure trivial

/-! ## Steps -/

/-- **What a step makes of the frames**, and what it comes to. -/
inductive Steps (s : Setting) (fr : Frame) (rest : List Frame) :
    Except RuntimeError (Option Value) → List Frame → Prop
  /-- There is no next instruction. -/
  | stuck {e : RuntimeError} : fetch s.program fr = .error e → Reports s e →
      Steps s fr rest (.error e) (fr :: rest)
  /-- The instruction fails. -/
  | fail {i : Instruction} {e : RuntimeError} : fetch s.program fr = .ok i → Reports s e →
      Steps s fr rest (.error e) (fr.advance :: rest)
  /-- The innermost call keeps a result, if there is one, and goes on. -/
  | write {i : Instruction} (v : Value) : fetch s.program fr = .ok i → i.isTerminator = false →
      Steps s fr rest (.ok none) (fr.advance.deliver i.def? v :: rest)
  /-- The innermost call continues at another block. -/
  | goto {i : Instruction} {target : BlockId} : fetch s.program fr = .ok i → target ∈ i.targets →
      Steps s fr rest (.ok none) (fr.goto target :: rest)
  /-- A call begins. -/
  | call {dst : Option LocalId} {ref : FunctionRef} {ops : List Operand} {args : List Value}
      {f : Function} : fetch s.program fr = .ok (.call dst (.function ref) ops) →
      fr.Values ops args → s.program.function? ref = some f → args.length = f.arity →
      rest.length + 1 < s.limit →
      Steps s fr rest (.ok none) (Frame.start ref f args (.caller dst) :: fr.advance :: rest)
  /-- There is no room for a call. -/
  | full {dst : Option LocalId} {ref : FunctionRef} {ops : List Operand} {args : List Value}
      {f : Function} : fetch s.program fr = .ok (.call dst (.function ref) ops) →
      fr.Values ops args → s.program.function? ref = some f → args.length = f.arity →
      s.limit ≤ rest.length + 1 →
      Steps s fr rest (.error (.stackOverflow s.limit)) (fr.advance :: rest)
  /-- The call that the run is of returns. -/
  | halt {op : Operand} (v : Value) : fetch s.program fr = .ok (.ret op) → fr.resume = .halt →
      Steps s fr rest (.ok (some v)) rest
  /-- The innermost call returns to its caller. -/
  | ret {op : Operand} {dst : Option LocalId} (v : Value) : fetch s.program fr = .ok (.ret op) →
      fr.resume = .caller dst → Steps s fr rest (.ok none) (rest.modifyHead (·.deliver dst v))
  /-- The caller has no slot for the result. -/
  | lost {op : Operand} {dst : Option LocalId} {e : RuntimeError} :
      fetch s.program fr = .ok (.ret op) → fr.resume = .caller dst → Reports s e →
      Steps s fr rest (.error e) rest

/-- A result is kept in the innermost call, or refused. -/
theorem deliver_cases (dst : Option LocalId) (v : Value) (frames : List Frame)
    (globals : Array Value) (world : World) :
    (deliver dst v).apply (.ofFrames frames globals world) =
        (.ok (), .ofFrames (frames.modifyHead (·.deliver dst v)) globals world) ∨
      Refuses (deliver dst v) (.ofFrames frames globals world) := by
  cases dst with
  | none =>
    cases frames with
    | nil => exact .inl rfl
    | cons fr rest => exact .inl rfl
  | some l =>
    cases frames with
    | nil => exact .inr ⟨_, rfl, by rintro _ ⟨⟩⟩
    | cons fr rest =>
      rcases Nat.lt_or_ge l fr.locals.size with hl | hl
      · exact .inl (apply_writeLocal hl)
      · exact .inr ⟨_, apply_writeLocal_of_le hl, by rintro _ ⟨⟩⟩

/-- Fetching fails only with reports. -/
theorem reports_fetch {p : Program} {e : RuntimeError} (h : fetch p fr = .error e) :
    Reports s e := by
  rintro limit rfl
  unfold fetch at h
  split at h
  · cases h
  · split at h
    · cases h
    · split at h
      · cases h
      · split at h <;> cases h

/-- A move that an instruction comes to makes one of the listed steps. -/
theorem steps_of_perform {move : Move} {result : Except RuntimeError (Option Value)}
    (hi : fetch s.program fr = .ok i) (hreads : fr.Reads i) (hmove : Permits fr.value i move)
    (h : (perform s move).apply (.ofFrames (fr.advance :: rest) globals world) = (result, m')) :
    Steps s fr rest result m'.stack.frames := by
  cases move with
  | deliver dst v =>
    obtain ⟨rfl, hlast⟩ := hmove
    rw [perform] at h
    rcases deliver_cases i.def? v (fr.advance :: rest) globals world with hok | hfail
    · rw [Transform.apply_bind_ok hok] at h
      cases h
      exact .write v hi hlast
    · obtain ⟨e, he, hne⟩ := hfail.bind fun _ => pure none
      rw [he] at h
      cases h
      exact .fail hi fun limit heq => absurd heq (hne limit)
  | goto target =>
    cases h
    exact .goto hi hmove
  | call dst ref args =>
    obtain ⟨ops, rfl, rfl⟩ := hmove
    have hvs : fr.Values ops (ops.map fr.value) := fr.values_map hreads
    rw [perform, Transform.apply_bind, apply_enter] at h
    cases hf : s.program.function? ref with
    | none =>
      simp only [hf] at h
      cases h
      exact .fail hi nofun
    | some f =>
      simp only [hf] at h
      by_cases harity : (ops.map fr.value).length = f.arity
      · by_cases hdepth : s.limit ≤ (fr.advance :: rest).length
        · simp only [harity, hdepth, ne_eq, not_true_eq_false, if_false, if_true] at h
          cases h
          exact .full hi hvs hf harity hdepth
        · simp only [harity, hdepth, ne_eq, not_true_eq_false, if_false] at h
          cases h
          exact .call hi hvs hf harity (Nat.lt_of_not_le hdepth)
      · simp only [harity, ne_eq, not_false_eq_true, if_true] at h
        cases h
        exact .fail hi nofun
  | ret v =>
    obtain ⟨op, rfl, -⟩ := hmove
    cases hr : fr.resume with
    | halt =>
      have hr' : fr.advance.resume = .halt := hr
      rw [perform, apply_leave_halt hr'] at h
      cases h
      exact .halt v hi hr
    | caller dst =>
      have hr' : fr.advance.resume = .caller dst := hr
      rw [perform, apply_leave_caller hr'] at h
      rcases deliver_cases dst v rest globals world with hok | hfail
      · rw [Transform.apply_bind_ok hok] at h
        cases h
        exact .ret v hi hr
      · obtain ⟨e, he, hne⟩ := hfail.bind fun _ => pure none
        rw [he] at h
        cases h
        exact .lost hi hr fun limit heq => absurd heq (hne limit)

/-- **A step is one of those listed**, whatever the program. -/
theorem steps_of_step {result : Except RuntimeError (Option Value)}
    (h : (step s).apply (.ofFrames (fr :: rest) globals world) = (result, m')) :
    Steps s fr rest result m'.stack.frames := by
  cases hi : fetch s.program fr with
  | error e =>
    rw [apply_step_stuck hi] at h
    cases h
    exact .stuck hi (reports_fetch hi)
  | ok i =>
    rw [apply_step hi] at h
    -- what can fail before the move is made leaves the frames alone
    by_cases hreads : fr.advance.Reads i
    · rw [execute_eq_resolve hreads] at h
      have hreads' : fr.Reads i := by simpa only [Frame.Reads, Frame.value?_advance] using hreads
      obtain ⟨resolved, globals', world', haside⟩ :=
        resolve_aside s fr.advance.value i globals world
      cases resolved with
      | error e =>
        have hreports := reports_resolve s fr.advance.value i
          (.ofFrames (fr.advance :: rest) globals world)
        unfold Meets at hreports
        rw [haside] at hreports
        rw [Transform.apply_bind_error (haside _)] at h
        cases h
        exact .fail hi hreports
      | ok move =>
        have hmove := permits_of_resolve (haside (fr.advance :: rest))
        rw [Frame.value_advance] at hmove
        rw [Transform.apply_bind_ok (haside _)] at h
        exact steps_of_perform hi hreads' hmove h
    · obtain ⟨e, he, hne⟩ := refuses_execute hreads
      rw [he] at h
      cases h
      exact .fail hi fun limit heq => absurd heq (hne limit)

/-- Without a frame there is no step. -/
theorem apply_step_nil (s : Setting) (globals : Array Value) (world : World) :
    (step s).apply (.ofFrames [] globals world) =
      (.error (.internal .noFrame), .ofFrames [] globals world) := rfl

end Machine

end BlockIR
