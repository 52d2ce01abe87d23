import BlockIR.Proofs.Source.FollowsCall
/-!
# Evaluations agree

An evaluation calls the initializers and then the entry function, and each of
these calls is given a number of steps. `Agrees` says of an action that is given
steps that it comes to what an evaluation of the tree comes to: given enough of
them if that has a result, and never within as many as loops may take rounds if
it has none.
-/

namespace BlockIR

open Machine Success

namespace Source

variable {α β γ : Type} {n : Nat} {x : Eval α} {f : α → Eval β} {σ σ' : Store}

/-- **No call is in progress**, and the memory shows a store. -/
def Rests (symbols : Symbols) (σ : Store) (m : Memory) : Prop :=
  ∃ globals, m = .ofFrames [] globals σ.world ∧ ShowsGlobals symbols globals σ.globals

/-- **An action agrees with an evaluation.** -/
def Agrees (n : Nat) (x : Eval α) (σ : Store) (act : Nat → Finish γ)
    (post : α → Store → γ → Memory → Prop) : Prop :=
  match x.apply σ with
  | none => act n = none
  | some (.ok a, σ') => ∃ k c m, act k = some (.ok c, m) ∧ post a σ' c m
  | some (.error e, σ') => ∃ k m, act k = some (.error e, m) ∧ m.world = σ'.world

namespace Agrees

variable {δ : Type} {act : Nat → Finish γ} {post : α → Store → γ → Memory → Prop}

theorem of_ok {a : α} {c : γ} {m : Memory} {k : Nat} (hx : x.apply σ = some (.ok a, σ'))
    (hact : act k = some (.ok c, m)) (hpost : post a σ' c m) : Agrees n x σ act post := by
  rw [Agrees, hx]
  exact ⟨k, c, m, hact, hpost⟩

theorem of_error {e : RuntimeError} {m : Memory} {k : Nat} (hx : x.apply σ = some (.error e, σ'))
    (hact : act k = some (.error e, m)) (hworld : m.world = σ'.world) :
    Agrees n x σ act post := by
  rw [Agrees, hx]
  exact ⟨k, m, hact, hworld⟩

/-- What the action comes to may be stated otherwise. -/
theorem imp {post' : α → Store → γ → Memory → Prop} (h : Agrees n x σ act post)
    (hpost : ∀ a σ' c m, post a σ' c m → post' a σ' c m) : Agrees n x σ act post' := by
  unfold Agrees at h ⊢
  generalize x.apply σ = r at h ⊢
  rcases r with _ | ⟨e | a, σ'⟩
  · exact h
  · exact h
  · obtain ⟨k, c, m, hact, hc⟩ := h
    exact ⟨k, c, m, hact, hpost a σ' c m hc⟩

/-- The result of the action may be changed. -/
theorem map {post' : α → Store → δ → Memory → Prop} {g : γ → Memory → δ}
    (h : Agrees n x σ act post) (hpost : ∀ a σ' c m, post a σ' c m → post' a σ' (g c m) m) :
    Agrees n x σ (fun k => (act k).map fun r => (r.1.map fun c => g c r.2, r.2)) post' := by
  unfold Agrees at h ⊢
  generalize x.apply σ = r at h ⊢
  rcases r with _ | ⟨e | a, σ'⟩
  · simp only [h, Option.map_none]
  · obtain ⟨k, m, hact, hworld⟩ := h
    exact ⟨k, m, by simp only [hact]; rfl, hworld⟩
  · obtain ⟨k, c, m, hact, hc⟩ := h
    exact ⟨k, g c m, m, by simp only [hact]; rfl, hpost a σ' c m hc⟩

/-- **Sequences agree when their parts do.** -/
theorem bind {next : Nat → γ → Memory → Finish δ} {last : β → Store → δ → Memory → Prop}
    (hx : Agrees n x σ act post) (hact : Steady act) (hnext : ∀ c m, Steady fun k => next k c m)
    (hf : ∀ a σ' c m, post a σ' c m → Agrees n (f a) σ' (fun k => next k c m) last) :
    Agrees n (x >>= f) σ (fun k => (act k).andThen (next k)) last := by
  unfold Agrees at hx ⊢
  rw [Eval.apply_bind]
  generalize x.apply σ = r at hx ⊢
  rcases r with _ | ⟨e | a, σ'⟩
  · simp only [hx]
    rfl
  · obtain ⟨k, m, hk, hworld⟩ := hx
    exact ⟨k, m, by simp only [hk]; rfl, hworld⟩
  · obtain ⟨k, c, m, hk, hc⟩ := hx
    -- given enough steps for both parts, the second begins where the first ended
    have hjoin : ∀ {j r}, next j c m = some r → (act (max k j)).andThen (next (max k j)) = some r := by
      intro j r hr
      rw [hact k (max k j) _ hk (Nat.le_max_left k j)]
      exact hnext c m j (max k j) r hr (Nat.le_max_right k j)
    have hrest := hf a σ' c m hc
    unfold Agrees at hrest
    simp only
    generalize (f a).apply σ' = r at hrest ⊢
    rcases r with _ | ⟨e | b, σ''⟩
    · simp only at hrest ⊢
      cases hn : act n with
      | none => rfl
      | some r =>
        rw [hact.unique hn hk]
        exact hrest
    · obtain ⟨j, m', hj, hworld⟩ := hrest
      exact ⟨max k j, m', hjoin hj, hworld⟩
    · obtain ⟨j, c', m', hj, hlast⟩ := hrest
      exact ⟨max k j, c', m', hjoin hj, hlast⟩

end Agrees

/-! ## Calls from outside -/

/-- A call that cannot begin fails as the evaluation does. -/
theorem invoke_agrees_of_error {s : Setting} {ref : FunctionRef} {args : List Value} {m m' : Memory}
    {e : RuntimeError} {post : α → Store → Value → Memory → Prop}
    (henter : (enter s ref args .halt).apply m = (.error e, m'))
    (hx : x.apply σ = some (.error e, σ')) (hworld : m'.world = σ'.world) :
    Agrees n x σ (fun k => invoke s k ref args m) post := by
  have hact : invoke s 0 ref args m = some (.error e, m') := by rw [invoke, henter]
  exact .of_error hx hact hworld

/-- **A call agrees with what its run follows.** -/
theorem invoke_agrees {s : Setting} {symbols : Symbols} {ref : FunctionRef} {code : Function}
    {args : List Value} {globals : Array Value} {world : World} {inner : Memory} {v : α → Value}
    (henter : (enter s ref args .halt).apply (.ofFrames [] globals world) = (.ok (), inner))
    (hfollows : Follows s n inner x σ fun a =>
      Lower.Returns s ⟨ref, code, .halt, []⟩ symbols (v a)) :
    Agrees n x σ (fun k => invoke s k ref args (.ofFrames [] globals world)) fun a σ' c m =>
      c = v a ∧ Rests symbols σ' m := by
  have hinvoke : ∀ k, invoke s k ref args (.ofFrames [] globals world) =
      (run s k inner).map fun r => (r.1, r.2.settle r.1) := by
    intro k
    rw [invoke, henter]
  unfold Follows at hfollows
  unfold Agrees
  generalize x.apply σ = r at hfollows ⊢
  rcases r with _ | ⟨e | a, σ'⟩
  · simp only [hinvoke, hfollows, Option.map_none]
  · obtain ⟨k, m, hrun, hworld⟩ := hfollows
    exact ⟨k, { m with stack := m.stack.unwind }, (hinvoke k).trans (by rw [hrun]; rfl), hworld⟩
  · obtain ⟨m, hreach, fr, o, hresume, hfetch, hv, globals', rfl, hglobals⟩ := hfollows
    have hret : run s 1 (.ofFrames [fr] globals' σ'.world) =
        some (.ok (v a), .ofFrames [] globals' σ'.world) := by
      have hhalt : fr.advance.resume = .halt := hresume
      rw [run, apply_step hfetch, execute_ret ((fr.value?_advance o).trans hv),
        apply_leave_halt hhalt]
    obtain ⟨k, hrun⟩ := hreach.exists_run hret
    exact ⟨k, _, _, (hinvoke k).trans (by rw [hrun]; rfl), rfl, globals', rfl, hglobals⟩

namespace Program

variable {p : Program} {entry : String} {modules : List (String × Module)} {d : Declared}
variable {lowered : BlockIR.Program} {m : Memory}

/-- **A call of a function agrees with what the program tree says it does.** -/
theorem Lowering.invoke_call_agrees (h : p.Lowering entry modules d lowered) {module name : String}
    {ref : FunctionRef} (href : d.symbols.functions.lookup (module, name) = some ref)
    (table : Table) (limit : Nat) (args : List Value) (hm : Rests d.symbols σ m) :
    Agrees n (p.call table n limit limit module name args) σ
      (fun k => invoke ⟨lowered, table, limit⟩ k ref args m) fun v σ' c m' =>
        c = v ∧ Rests d.symbols σ' m' := by
  obtain ⟨f, code, hlinks⟩ := h.exists_links href
  obtain ⟨globals, rfl, hglobals⟩ := hm
  have henter : (enter ⟨lowered, table, limit⟩ ref args .halt).apply
    (.ofFrames [] globals σ.world) = _ := hlinks.apply_enter args .halt [] globals σ.world
  have hcallee := hlinks.apply_callee args σ
  by_cases hlength : args.length = f.params.length
  · rw [if_neg (not_not_intro hlength)] at henter hcallee
    cases limit with
    | zero =>
      rw [if_pos (Nat.zero_le _)] at henter
      refine invoke_agrees_of_error henter ?_ rfl
      rw [call, Eval.apply_bind_ok hcallee]
      rfl
    | succ room =>
      have hroom : ¬ room + 1 ≤ ([] : List Frame).length := Nat.not_succ_le_zero room
      rw [if_neg hroom] at henter
      have hsetup : Setup ⟨lowered, table, room + 1⟩ d.symbols p.environment
          ⟨table, p.call table n (room + 1) room, n⟩ ⟨ref, code, .halt, []⟩ n :=
        ⟨h.lists.matches h.covers, hlinks.holds, rfl, rfl,
          h.calls_follow table n (room + 1) room _ (Nat.add_comm 1 room)⟩
      exact invoke_agrees henter (.after hcallee
        (Lower.function_follows hsetup hlinks.lower hlength ⟨globals, rfl, hglobals⟩))
  · rw [if_pos hlength] at henter hcallee
    refine invoke_agrees_of_error henter ?_ rfl
    cases limit with
    | zero => rw [call, Eval.apply_bind, hcallee]
    | succ room => rw [call, Eval.apply_bind, hcallee]

/-- The initializer of a module has its place behind the functions, if there is
one. -/
theorem Lowering.initializer?_eq (h : p.Lowering entry modules d lowered) {i : ModuleIndex}
    {listed : String × Module} (hlisted : modules[i]? = some listed) :
    initializer? lowered i = listed.2.initIndex.map fun k => ⟨i, k⟩ := by
  obtain ⟨slots, hdeclared⟩ := h.covers.rows i listed.1 listed.2 hlisted
  obtain ⟨row, hrow, hshape⟩ := h.exists_row hdeclared
  have hinit : row.init = listed.2.initIndex := congrArg (fun shape => shape.2.2.2.1) hshape
  rw [initializer?, hrow, Option.bind_some, hinit]

theorem Lowering.exists_initializer (h : p.Lowering entry modules d lowered) {i : ModuleIndex}
    {id : String} {module : Module} (hlisted : modules[i]? = some (id, module))
    (hhas : module.HasInit) :
    ∃ code, lowered.function? ⟨i, module.functions.length⟩ = some code ∧
      module.lowerInit d.symbols id = .ok code ∧ code.arity = 0 := by
  have hinit : initializer? lowered i = some ⟨i, module.functions.length⟩ := by
    rw [h.initializer?_eq hlisted, Module.initIndex, if_pos hhas]
    rfl
  obtain ⟨code, hcode⟩ := Option.isSome_iff_exists.mp (h.isSome_initializer hinit)
  refine ⟨code, hcode, ?_⟩
  obtain ⟨_, _, hlisted', ⟨f, hf, -⟩ | ⟨-, -, hlower⟩⟩ := h.code _ code hcode
  · cases hlisted.symm.trans hlisted'
    rw [List.getElem?_eq_none (Nat.le_refl _)] at hf
    cases hf
  · cases hlisted.symm.trans hlisted'
    have hincludes := (h.lists.mem_iff id module).mp (List.mem_of_getElem? hlisted)
    have hlowered := ((module.lowerInit_spec (h.lists.matches h.covers) fun g hg =>
      ⟨module, hincludes, g, hg, rfl⟩).of_eq_ok hlower).2
    exact ⟨hlower, by rw [Function.arity, hlowered.params]; rfl⟩

/-- **Initializing a module agrees with giving its globals their initial values.** -/
theorem Lowering.invoke_init_agrees (h : p.Lowering entry modules d lowered) {i : ModuleIndex}
    {id : String} {module : Module} (hlisted : modules[i]? = some (id, module))
    (hhas : module.HasInit) (table : Table) (limit : Nat) (hm : Rests d.symbols σ m) :
    Agrees n (p.initModule table n limit (id, module)) σ
      (fun k => invoke ⟨lowered, table, limit⟩ k ⟨i, module.functions.length⟩ [] m)
      fun _ σ' _ m' => Rests d.symbols σ' m' := by
  obtain ⟨code, hcode, hlower, harity⟩ := h.exists_initializer hlisted hhas
  obtain ⟨globals, rfl, hglobals⟩ := hm
  have hincludes := (h.lists.mem_iff id module).mp (List.mem_of_getElem? hlisted)
  have henter : (enter ⟨lowered, table, limit⟩ ⟨i, module.functions.length⟩ [] .halt).apply
    (.ofFrames [] globals σ.world) = _ := apply_enter _ [] .halt []
  simp only [hcode, harity, List.length_nil, ne_eq, not_true_eq_false, if_false] at henter
  cases limit with
  | zero =>
    have hinit : p.initModule table n 0 (id, module) = throw (.stackOverflow 0) := if_pos hhas
    rw [hinit]
    exact invoke_agrees_of_error henter rfl rfl
  | succ room =>
    have hinit : p.initModule table n (room + 1) (id, module) = module.globals.forM
      (GlobalDef.assignInit ⟨table, p.call table n (room + 1) room, n⟩ id) := if_pos hhas
    rw [hinit]
    have hsetup : Setup ⟨lowered, table, room + 1⟩ d.symbols p.environment
        ⟨table, p.call table n (room + 1) room, n⟩
        ⟨⟨i, module.functions.length⟩, code, .halt, []⟩ n :=
      ⟨h.lists.matches h.covers, hcode, rfl, rfl,
        h.calls_follow table n (room + 1) room _ (Nat.add_comm 1 room)⟩
    have hfollows := Lower.initializer_follows hsetup hlower
      (fun g hg => ⟨module, hincludes, g, hg, rfl⟩) ⟨globals, rfl, hglobals⟩
    exact (invoke_agrees henter hfollows).imp fun _ _ _ _ hpost => hpost.2

/-- **Initializing modules agrees with giving their globals their initial values**, in
order. -/
theorem Lowering.initModules_agrees (h : p.Lowering entry modules d lowered) (table : Table)
    (limit : Nat) {order : List ModuleIndex} {listed : List (String × Module)}
    (horder : List.Forall₂ (fun i entry => modules[i]? = some entry) order listed)
    (hm : Rests d.symbols σ m) :
    Agrees n (listed.forM (p.initModule table n limit)) σ
      (fun k => initModules ⟨lowered, table, limit⟩ k order m)
      fun _ σ' _ m' => Rests d.symbols σ' m' := by
  induction horder generalizing σ m with
  | nil =>
    have hact : initModules ⟨lowered, table, limit⟩ 0 [] m = some (.ok (), m) := rfl
    exact .of_ok rfl hact hm
  | @cons i entry order listed hentry _ ih =>
    obtain ⟨id, module⟩ := entry
    have hinit := h.initializer?_eq hentry
    rw [Module.initIndex] at hinit
    rw [List.forM_eq_forM, List.forM_cons]
    by_cases hhas : module.HasInit
    · rw [if_pos hhas] at hinit
      simp only [initModules_cons (s := ⟨lowered, table, limit⟩) hinit]
      refine .bind (h.invoke_init_agrees hentry hhas table limit hm) (invoke_steady _ _ _ _)
        (fun _ m' => initModules_steady _ order m') ?_
      exact fun _ σ' _ m' hm' => ih hm'
    · rw [if_neg hhas] at hinit
      have hskip : p.initModule table n limit (id, module) = pure () := if_neg hhas
      rw [hskip, pure_bind]
      simp only [initModules, hinit]
      exact ih hm

end Program

end Source

end BlockIR
