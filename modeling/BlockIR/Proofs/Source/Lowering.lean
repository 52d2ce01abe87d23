import BlockIR.Proofs.Program.Reached
import BlockIR.Proofs.Source.Body
import BlockIR.Proofs.Source.Declared
/-!
# Lowering accepts the well-scoped programs

Once the modules are declared, lowering puts the code of every function and
every initializer in the place of its placeholder, and finishes the assembly.
All functions that it made pass the check, so it fails only where a name is
not declared. `Lowering` says what a lowered program consists of.
-/

namespace BlockIR

open Success

namespace Source

namespace Program

variable {p : Program} {modules : List (String × Module)} {d : Declared}

/-- Among the modules of a program, the symbols denote what the program declares. -/
theorem Lists.matches (hlists : p.Lists modules) (h : d.Covers modules modules) :
    d.symbols.Matches p.environment where
  function id name := by
    constructor
    · rintro ⟨m, hm, f, hf, hname⟩
      obtain ⟨i, hi⟩ := List.getElem?_of_mem ((hlists.mem_iff id m).mpr hm)
      obtain ⟨k, hk⟩ := List.getElem?_of_mem hf
      rw [(h.functions id name ⟨i, k⟩).mpr ⟨m, f, hi, hk, hname⟩]
      rfl
    · intro hsome
      obtain ⟨ref, href⟩ := Option.isSome_iff_exists.mp hsome
      obtain ⟨m, f, hm, hf, hname⟩ := (h.functions id name ref).mp href
      exact ⟨m, (hlists.mem_iff id m).mp (List.mem_of_getElem? hm), f, List.mem_of_getElem? hf, hname⟩
  global id name := by
    rw [h.globals]
    exact exists_congr fun m => and_congr_left fun _ => (hlists.mem_iff id m).symm

/-! ## Code in its place -/

/-- **The code of a place**: that of the function declared there, or of the
initializer behind the functions. -/
def CodeAt (symbols : Symbols) (modules : List (String × Module)) (ref : FunctionRef)
    (code : Function) : Prop :=
  ∃ id m, modules[ref.module]? = some (id, m) ∧
    ((∃ f, m.functions[ref.index]? = some f ∧ f.lower symbols = .ok code) ∨
      m.HasInit ∧ ref.index = m.functions.length ∧ m.lowerInit symbols id = .ok code)

/-- Some places of an assembly have been filled with their code. -/
structure Filled (d : Declared) (modules : List (String × Module)) (filled : FunctionRef → Prop)
    (a : Assembly) : Prop where
  shape : a.SameShape d.assembly
  code : ∀ ref, filled ref → ∃ code, a.function? ref = some code ∧
    CodeAt d.symbols modules ref code

theorem Filled.mono {filled filled' : FunctionRef → Prop} {a : Assembly}
    (h : Filled d modules filled a) (himp : ∀ ref, filled' ref → filled ref) :
    Filled d modules filled' a :=
  ⟨h.shape, fun ref href => h.code ref (himp ref href)⟩

theorem Filled.start (d : Declared) : Filled d modules (fun _ => False) d.assembly :=
  ⟨.refl _, nofun⟩

/-- Putting code in its place fills it. -/
theorem Filled.put {filled : FunctionRef → Prop} {a : Assembly} {ref : FunctionRef} {code : Function}
    (h : Filled d modules filled a) (hcode : CodeAt d.symbols modules ref code)
    (href : (d.assembly.function? ref).isSome = true) :
    Filled d modules (fun ref' => filled ref' ∨ ref' = ref) (a.putFunction ref code) := by
  refine ⟨(Assembly.sameShape_putFunction a ref code).trans h.shape, fun ref' hfilled => ?_⟩
  rw [Assembly.function?_putFunction]
  by_cases heq : ref = ref'
  · subst heq
    rw [← h.shape.isSome_function?] at href
    obtain ⟨old, hold⟩ := Option.isSome_iff_exists.mp href
    exact ⟨code, by rw [if_pos rfl, hold]; rfl, hcode⟩
  · rw [if_neg heq]
    exact h.code ref' (hfilled.resolve_right fun h => heq h.symm)

/-- A place is filled when its code can be made. -/
theorem Filled.put_decides {filled : FunctionRef → Prop} {a : Assembly} {ref : FunctionRef}
    {x : Except LoweringError Function} {fits : Prop} {good : Function → Prop}
    {bad : LoweringError → Prop} (h : Filled d modules filled a) (hx : Decides x fits good bad)
    (hcode : ∀ code, x = .ok code → CodeAt d.symbols modules ref code)
    (href : (d.assembly.function? ref).isSome = true) :
    Decides (x >>= fun code => pure (a.putFunction ref code)) fits
      (Filled d modules fun ref' => filled ref' ∨ ref' = ref) bad := by
  cases x with
  | error e => exact hx
  | ok code => exact ⟨hx.1, h.put (hcode code rfl) href⟩

/-- A loop fills the places that its steps fill. -/
theorem Filled.foldlM {τ : Type} {step : Assembly → τ → Except LoweringError Assembly}
    {fits : τ → Prop} {places : τ → FunctionRef → Prop} {bad : LoweringError → Prop}
    {filled : FunctionRef → Prop} {a : Assembly} (h : Filled d modules filled a) (xs : List τ)
    (hstep : ∀ x ∈ xs, ∀ {filled : FunctionRef → Prop} {a : Assembly},
      Filled d modules filled a → Decides (step a x) (fits x)
        (Filled d modules fun ref => filled ref ∨ places x ref) bad) :
    Decides (xs.foldlM step a) (∀ x ∈ xs, fits x)
      (Filled d modules fun ref => filled ref ∨ ∃ x ∈ xs, places x ref) bad := by
  let invariant (done : List τ) (a : Assembly) : Prop :=
    Filled d modules (fun ref => filled ref ∨ ∃ x ∈ done, places x ref) a
  have hstart : invariant [] a := h.mono fun ref href => href.resolve_right nofun
  refine Decides.foldlM invariant xs (fun done x rest a heq ha => ?_) hstart
  refine (hstep x (by simp [heq]) ha).imp Iff.rfl (fun a' _ h' => h'.mono fun ref href => ?_)
    fun _ _ hbad => hbad
  simpa [or_and_right, exists_or, or_assoc] using href

/-- What stands in a place before it is filled. -/
theorem function?_of_covers {id : String} {m : Module} {ref : FunctionRef}
    (h : d.Covers modules modules) (hm : modules[ref.module]? = some (id, m)) :
    d.assembly.function? ref = m.outline[ref.index]? := by
  obtain ⟨slots, hrow⟩ := h.rows _ _ _ hm
  simp [Assembly.function?, functionIn?, hrow, rowOf]

theorem length_outline (m : Module) :
    m.outline.length = m.functions.length + if m.HasInit then 1 else 0 := by
  unfold Module.outline
  rw [List.length_append, List.length_map]
  split <;> rfl

/-- What a symbol denotes has a place. -/
theorem isSome_of_lookup {id name : String} {ref : FunctionRef} (h : d.Covers modules modules)
    (href : d.symbols.functions.lookup (id, name) = some ref) :
    (d.assembly.function? ref).isSome = true := by
  obtain ⟨m, f, hm, hf, -⟩ := (h.functions id name ref).mp href
  have hlt : ref.index < m.outline.length := by
    have hlt := (List.getElem?_eq_some_iff.mp hf).1
    rw [length_outline]
    omega
  rw [function?_of_covers h hm, List.getElem?_eq_getElem hlt]
  rfl

/-- An error that names an undeclared reference of the program is a report. -/
theorem reports_of_unresolved {entry function : String} {refs : List Reference}
    {e : LoweringError} (hblames : Blames p.environment function refs e) (he : p.Unresolved e) :
    p.Reports entry e := by
  obtain ⟨before, r, after, -, -, hr, rfl⟩ := hblames
  cases r with
  | named name names => exact he
  | global module name => exact ⟨hr, he⟩
  | function module name => exact ⟨hr, he⟩

section

variable {entry : String} {filled : FunctionRef → Prop} {a : Assembly}
variable (hlists : p.Lists modules) (hcovers : d.Covers modules modules)

include hlists hcovers

/-- Lowering a function fills its place. -/
theorem lowerFunction_decides {id : String} {m : Module} {f : FunctionDef}
    (hm : (id, m) ∈ modules) (hf : f ∈ m.functions) (h : Filled d modules filled a) :
    Decides (lowerFunction d.symbols id a f) (f.Scoped p.environment)
      (Filled d modules fun ref =>
        filled ref ∨ d.symbols.functions.lookup (id, f.name) = some ref)
      (p.Reports entry) := by
  obtain ⟨i, hi⟩ := List.getElem?_of_mem hm
  obtain ⟨k, hk⟩ := List.getElem?_of_mem hf
  have hlookup : d.symbols.functions.lookup (id, f.name) = some ⟨i, k⟩ :=
    (hcovers.functions id f.name ⟨i, k⟩).mpr ⟨m, f, hi, hk, rfl⟩
  have hplace := isSome_of_lookup hcovers hlookup
  unfold lowerFunction
  rw [Symbols.function, hlookup]
  refine (h.put_decides (f.lower_spec (hlists.matches hcovers))
    (fun code hcode => ⟨id, m, hi, .inl ⟨f, hk, hcode⟩⟩) hplace).imp Iff.rfl ?_ ?_
  · exact fun a' _ h' => h'.mono fun ref href => href.imp_right fun heq =>
      (Option.some.inj heq).symm
  · intro e _ he
    exact reports_of_unresolved he ⟨id, m, (hlists.mem_iff id m).mp hm, .inl ⟨f, hf, he⟩⟩

/-- Lowering the functions of a module fills their places. -/
theorem lowerFunctions_decides {listed : String × Module} (hm : listed ∈ modules)
    (h : Filled d modules filled a) :
    Decides (lowerFunctions d.symbols a listed) (∀ f ∈ listed.2.functions, f.Scoped p.environment)
      (Filled d modules fun ref => filled ref ∨ ∃ f ∈ listed.2.functions,
        d.symbols.functions.lookup (listed.1, f.name) = some ref)
      (p.Reports entry) :=
  h.foldlM listed.2.functions fun _ hf _ _ h' => lowerFunction_decides hlists hcovers hm hf h'

/-- Lowering an initializer fills its place. -/
theorem lowerInit_decides {init : String × Module × FunctionRef} (hinit : init ∈ d.inits)
    (h : Filled d modules filled a) :
    Decides (lowerInit d.symbols a init)
      (∀ g ∈ init.2.1.globals, Expr.OptScoped p.environment [] g.init)
      (Filled d modules fun ref => filled ref ∨ ref = init.2.2) (p.Reports entry) := by
  obtain ⟨id, m, ref⟩ := init
  obtain ⟨hi, hhas, hindex⟩ := (hcovers.inits id m ref).mp hinit
  have hincludes := (hlists.mem_iff id m).mp (List.mem_of_getElem? hi)
  have hlt : ref.index < m.outline.length := by
    rw [length_outline, if_pos hhas, hindex]
    exact Nat.lt_succ_self _
  have hplace : (d.assembly.function? ref).isSome = true := by
    rw [function?_of_covers hcovers hi, List.getElem?_eq_getElem hlt]
    rfl
  have hspec : Decides (m.lowerInit d.symbols id) _ _ _ :=
    m.lowerInit_spec (hlists.matches hcovers) fun g hg => ⟨m, hincludes, g, hg, rfl⟩
  refine (h.put_decides hspec (fun code hcode => ⟨id, m, hi, .inr ⟨hhas, hindex, hcode⟩⟩)
    hplace).imp Iff.rfl (fun _ _ h' => h') fun e _ he => ?_
  exact reports_of_unresolved he ⟨id, m, hincludes, .inr he⟩

/-- Lowering the functions of all modules. -/
theorem lowerModules_decides :
    Decides (modules.foldlM (lowerFunctions d.symbols) d.assembly)
      (∀ id m, p.Includes id m → ∀ f ∈ m.functions, f.Scoped p.environment)
      (Filled d modules fun ref => ∃ listed ∈ modules, ∃ f ∈ listed.2.functions,
        d.symbols.functions.lookup (listed.1, f.name) = some ref)
      (p.Reports entry) := by
  have hloop : Decides (modules.foldlM (lowerFunctions d.symbols) d.assembly) _ _ (p.Reports entry) :=
    (Filled.start d).foldlM modules fun _ hm _ _ h =>
      lowerFunctions_decides hlists hcovers hm h
  refine hloop.imp ?_ (fun _ _ h => h.mono fun _ => .inr) fun _ _ h => h
  simp only [Prod.forall, hlists.mem_iff]

/-- Lowering all initializers. -/
theorem lowerInits_decides (h : Filled d modules filled a) :
    Decides (d.inits.foldlM (lowerInit d.symbols) a)
      (∀ id m, p.Includes id m → ∀ g ∈ m.globals, Expr.OptScoped p.environment [] g.init)
      (Filled d modules fun ref => filled ref ∨ ∃ init ∈ d.inits, ref = init.2.2)
      (p.Reports entry) := by
  have hloop : Decides (d.inits.foldlM (lowerInit d.symbols) a) _ _ (p.Reports entry) :=
    h.foldlM d.inits fun _ hinit _ _ h' =>
      lowerInit_decides hlists hcovers hinit h'
  refine hloop.imp ?_ (fun _ _ h => h) fun _ _ h => h
  constructor
  · intro hall id m hm g hg
    cases hinit : g.init with
    | none => trivial
    | some init =>
      obtain ⟨i, hi⟩ := List.getElem?_of_mem ((hlists.mem_iff id m).mpr hm)
      have hhas : m.HasInit := ⟨g, hg, by rw [hinit]; rfl⟩
      have hscoped := hall (id, m, ⟨i, m.functions.length⟩)
        ((hcovers.inits _ _ _).mpr ⟨hi, hhas, rfl⟩) g hg
      rwa [hinit] at hscoped
  · rintro hall ⟨id, m, ref⟩ hinit
    obtain ⟨hi, -⟩ := (hcovers.inits id m ref).mp hinit
    exact hall id m ((hlists.mem_iff id m).mp (List.mem_of_getElem? hi))

omit hlists in
/-- Once all functions and initializers are lowered, every place holds its code. -/
theorem code_of_filled {ref : FunctionRef} {code : Function}
    (h : Filled d modules (fun ref =>
      (∃ listed ∈ modules, ∃ f ∈ listed.2.functions,
        d.symbols.functions.lookup (listed.1, f.name) = some ref) ∨
      ∃ init ∈ d.inits, ref = init.2.2) a)
    (hcode : a.function? ref = some code) : CodeAt d.symbols modules ref code := by
  have hsome : (d.assembly.function? ref).isSome = true := by
    rw [← h.shape.isSome_function?, hcode]
    rfl
  obtain ⟨⟨id, m⟩, hm⟩ : ∃ listed, modules[ref.module]? = some listed := by
    obtain ⟨_, hplaceholder⟩ := Option.isSome_iff_exists.mp hsome
    obtain ⟨row, hrow, -⟩ := Option.bind_eq_some_iff.mp hplaceholder
    exact hcovers.exists_listed hrow
  -- the initializer, if there is one, has the place behind the functions
  have hplace : ref.index < m.functions.length ∨ m.HasInit ∧ ref.index = m.functions.length := by
    rw [function?_of_covers hcovers hm] at hsome
    have hlt := (List.getElem?_eq_some_iff.mp (Option.some_get hsome).symm).1
    rw [length_outline] at hlt
    split at hlt
    · rename_i hhas
      rcases Nat.lt_succ_iff_lt_or_eq.mp hlt with hlt | heq
      · exact .inl hlt
      · exact .inr ⟨hhas, heq⟩
    · exact .inl hlt
  obtain ⟨code', hcode', hat⟩ := h.code ref (by
    rcases hplace with hlt | ⟨hhas, hindex⟩
    · have hf := List.getElem?_eq_getElem hlt
      exact .inl ⟨(id, m), List.mem_of_getElem? hm, _, List.mem_of_getElem? hf,
        (hcovers.functions _ _ _).mpr ⟨m, _, hm, hf, rfl⟩⟩
    · exact .inr ⟨(id, m, ref), (hcovers.inits id m ref).mpr ⟨hm, hhas, hindex⟩, rfl⟩)
  cases Option.some.inj (hcode.symm.trans hcode')
  exact hat

/-- The entry is found when the root declares it. -/
theorem entryRef_decides :
    Decides (p.entryRef d.symbols entry) (p.environment.function p.root entry)
      (fun ref => d.symbols.functions.lookup (p.root, entry) = some ref) (p.Reports entry) := by
  have hmatches := (hlists.matches hcovers).function p.root entry
  unfold entryRef Symbols.function
  cases href : d.symbols.functions.lookup (p.root, entry) with
  | some ref =>
    rw [href] at hmatches
    exact ⟨hmatches.mpr rfl, rfl⟩
  | none =>
    rw [href] at hmatches
    have hnot : ¬ p.environment.function p.root entry := fun h => by cases hmatches.mp h
    exact ⟨hnot, rfl, rfl, hnot⟩

end

/-! ## Programs -/

/-- **What a lowered program consists of**: the rows that declaring its modules
leaves, with all code in its place. -/
structure Lowering (p : Program) (entry : String) (modules : List (String × Module))
    (d : Declared) (lowered : BlockIR.Program) : Prop where
  lists : p.Lists modules
  covers : d.Covers modules modules
  shape : Assembly.SameShape { modules := lowered.modules, globals := lowered.globals } d.assembly
  code : ∀ ref code, lowered.function? ref = some code → CodeAt d.symbols modules ref code
  entry : d.symbols.functions.lookup (p.root, entry) = some lowered.entry
  initOrder : lowered.initOrder = InitOrder.ofModules lowered.modules

theorem Lowering.ids_eq {entry : String} {lowered : BlockIR.Program}
    (h : p.Lowering entry modules d lowered) :
    lowered.modules.toList.map (·.id) = modules.map Prod.fst :=
  h.shape.ids_eq.trans h.covers.ids

/-- Code in its place passes the check, and names only what symbols denote. -/
theorem CodeAt.lowered {ref : FunctionRef} {code : Function} (hlists : p.Lists modules)
    (hcovers : d.Covers modules modules) (h : CodeAt d.symbols modules ref code) :
    ∃ name params, Lower.Lowered d.symbols name params code := by
  obtain ⟨id, m, hm, ⟨f, -, hcode⟩ | ⟨-, -, hcode⟩⟩ := h
  · exact ⟨_, _, ((f.lower_spec (hlists.matches hcovers)).of_eq_ok hcode).2⟩
  · have hincludes := (hlists.mem_iff id m).mp (List.mem_of_getElem? hm)
    have hspec := m.lowerInit_spec (hlists.matches hcovers) fun g hg => ⟨m, hincludes, g, hg, rfl⟩
    exact ⟨_, _, (hspec.of_eq_ok hcode).2⟩

/-- The modules of a program can be declared when in each the function names are
distinct. -/
theorem ofModules_decides {entry : String} (hlists : p.Lists modules) :
    Decides (Declared.ofModules modules) (∀ id m, p.Includes id m → m.names.Nodup)
      (fun d => d.Covers modules modules) (p.Reports entry) := by
  refine (Declared.ofModules_decides hlists.distinct hlists.closed).imp ?_ (fun _ _ h => h) ?_
  · simp only [Prod.forall, hlists.mem_iff]
  · rintro _ - ⟨⟨id, m⟩, hm, name, rfl, hcount⟩
    exact ⟨m, (hlists.mem_iff id m).mp hm, hcount⟩

/-- An assembly with all code in its place can be finished. -/
theorem finish_eq_ok {a : Assembly} {ref : FunctionRef} (hlists : p.Lists modules)
    (hcovers : d.Covers modules modules)
    (hcode : ∀ ref code, a.function? ref = some code → CodeAt d.symbols modules ref code)
    (href : (a.function? ref).isSome = true) :
    finish a ref = .ok ⟨a.modules, a.globals, ref, InitOrder.ofModules a.modules⟩ := by
  have hcheck : a.All fun f => f.check = .ok () := by
    intro ref' code hcode'
    obtain ⟨_, _, hlowered⟩ := (hcode ref' code hcode').lowered hlists hcovers
    exact hlowered.check
  rw [finish, Assembly.finish_eq_ok.mpr ⟨href, hcheck, rfl⟩]

/-- **Lowering succeeds exactly on well-scoped programs**, with all code in its
place. -/
theorem lower_decides (p : Program) (entry : String) :
    Decides (p.lower entry) (p.WellScoped entry)
      (fun lowered => ∃ modules d, p.Lowering entry modules d lowered) (p.Reports entry) := by
  have hwell : p.WellScoped entry ↔ (∀ id, p.Needs id → ∃ m, p.module? id = some m) ∧
      (∀ id m, p.Includes id m → m.names.Nodup) ∧
      (∀ id m, p.Includes id m → ∀ f ∈ m.functions, f.Scoped p.environment) ∧
      (∀ id m, p.Includes id m → ∀ g ∈ m.globals, Expr.OptScoped p.environment [] g.init) ∧
      p.environment.function p.root entry ∧ True := by
    constructor
    · intro h
      refine ⟨h.provided, fun id m hm => ?_, h.bodies, h.inits, h.entry, trivial⟩
      exact m.names_nodup_iff.mpr ⟨h.distinct id m hm, h.initFree id m hm⟩
    · rintro ⟨hprovided, hnames, hbodies, hinits, hentry, -⟩
      exact ⟨hprovided, fun id m hm => (m.names_nodup_iff.mp (hnames id m hm)).1,
        fun id m hm => (m.names_nodup_iff.mp (hnames id m hm)).2, hbodies, hinits, hentry⟩
  rw [hwell]
  unfold lower
  refine Decides.bind (p.reachable_decides.imp Iff.rfl (fun _ _ h => h) ?_) fun modules hlists => ?_
  · rintro _ - ⟨id, rfl, hmissing⟩
    exact hmissing
  refine Decides.bind (ofModules_decides hlists) fun d hcovers => ?_
  refine Decides.bind (lowerModules_decides hlists hcovers) fun a ha => ?_
  refine Decides.bind (lowerInits_decides hlists hcovers ha) fun a ha => ?_
  refine Decides.bind (entryRef_decides hlists hcovers) fun ref href => ?_
  have hcode : ∀ ref code, a.function? ref = some code → CodeAt d.symbols modules ref code :=
    fun _ _ => code_of_filled hcovers ha
  have hplace : (a.function? ref).isSome = true := by
    rw [ha.shape.isSome_function?]
    exact isSome_of_lookup hcovers href
  exact .of_ok (finish_eq_ok hlists hcovers hcode hplace)
    ⟨modules, d, hlists, hcovers, ⟨ha.shape.globals, ha.shape.rows⟩, hcode, href, rfl⟩

/-- **Lowering accepts exactly the well-scoped program trees**, and otherwise fails
with an error that says what is missing or declared twice; one about a
reference names the first undeclared reference of a function or of the initial
values of a module. -/
theorem lower_accepts_exactly_wellScoped (p : Program) (entry : String) :
    ((∃ lowered, p.lower entry = .ok lowered) ↔ p.WellScoped entry) ∧
      ∀ e, p.lower entry = .error e → p.Reports entry e := by
  have hdecides := p.lower_decides entry
  cases h : p.lower entry with
  | error e =>
    obtain ⟨hnot, hreports⟩ := hdecides.of_eq_error h
    refine ⟨iff_of_false nofun hnot, ?_⟩
    rintro _ ⟨⟩
    exact hreports
  | ok lowered =>
    exact ⟨iff_of_true ⟨lowered, rfl⟩ (hdecides.of_eq_ok h).1, nofun⟩

end Program

end Source

end BlockIR
