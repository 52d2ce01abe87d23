import BlockIR.Proofs.Source.Meaning
import BlockIR.Proofs.Source.Mentions
import BlockIR.Sample
/-!
# Names and what they denote

Lowering resolves names by the symbols that it has declared, and a lowered
program is searched for them in its tables. Both find the same: the positions of
the functions of a row are those of its module's definitions, and a slot is listed
by the module that declares it. So every reference of the tree has become an
access of what the finished program finds under that name.
-/

namespace BlockIR

open Success

/-- The access that the tables of a program make of a reference. -/
def Program.access? (p : Program) : Source.Mention → Option Access
  | .load module name => (p.globalId? module name).map .load
  | .store module name => (p.globalId? module name).map .store
  | .call module name => (p.functionRef? module name).map .call

namespace Source

namespace Program

variable {p : Program} {entry : String} {modules : List (String × Module)} {d : Declared}
variable {lowered : BlockIR.Program} {id name : String} {m : Module} {i k : Nat}

/-! ## Rows -/

namespace Lowering

/-- Each module has its row, at its position. -/
theorem exists_row_of_listed (h : p.Lowering entry modules d lowered)
    (hm : modules[i]? = some (id, m)) :
    ∃ row slots, lowered.modules[i]? = some row ∧
      Assembly.shapeOf row = Assembly.shapeOf (rowOf modules id m slots) := by
  obtain ⟨slots, hrow⟩ := h.covers.rows i id m hm
  obtain ⟨row, hrow', hshape⟩ := h.exists_row hrow
  exact ⟨row, slots, hrow', hshape⟩

/-- The row of a module is found by its id. -/
theorem moduleIndex?_of_listed (h : p.Lowering entry modules d lowered)
    (hm : modules[i]? = some (id, m)) : lowered.moduleIndex? id = some i := by
  obtain ⟨row, slots, hrow, hshape⟩ := h.exists_row_of_listed hm
  have hid : row.id = id := congrArg Prod.fst hshape
  have hids : (lowered.modules.toList.map (·.id)).Nodup := by
    rw [h.ids_eq]
    exact h.lists.distinct
  rw [BlockIR.Program.moduleIndex?_eq_some hids, hrow, Option.map_some, hid]

/-- The functions of a row have the names that its module declares, in order. -/
theorem names_eq (h : p.Lowering entry modules d lowered) (hm : modules[i]? = some (id, m))
    {row : BlockIR.Module} (hrow : lowered.modules[i]? = some row) :
    row.functions.toList.map (·.name) = m.names := by
  obtain ⟨row', slots, hrow', hshape⟩ := h.exists_row_of_listed hm
  obtain rfl : row = row' := Option.some.inj (hrow.symm.trans hrow')
  have hmatches := h.lists.matches h.covers
  have hincludes := (h.lists.mem_iff id m).mp (List.mem_of_getElem? hm)
  have hsize : row.functions.size = m.names.length := by
    have houtline : row.functions.size = m.outline.toArray.size :=
      congrArg (fun shape => shape.2.2.2.2) hshape
    rw [houtline, List.size_toArray, length_outline, Module.names, List.length_append,
      List.length_map]
    split <;> rfl
  refine List.ext_getElem? fun k => ?_
  rw [List.getElem?_map, Array.getElem?_toList]
  cases hcode : row.functions[k]? with
  | none =>
    have hge : m.names.length ≤ k := hsize ▸ Array.getElem?_eq_none_iff.mp hcode
    rw [Option.map_none, List.getElem?_eq_none hge]
  | some code =>
    -- the code at a position is that of the definition there, or of the initializer
    have hat : lowered.function? ⟨i, k⟩ = some code := by
      rw [BlockIR.Program.function?, functionIn?, hrow, Option.bind_some, hcode]
    obtain ⟨_, _, hm', ⟨f, hf, hlower⟩ | ⟨hhas, hindex, hlower⟩⟩ := h.code ⟨i, k⟩ code hat
    · cases hm.symm.trans hm'
      have hname := ((f.lower_spec hmatches).of_eq_ok hlower).2.name
      have hlt : k < (m.functions.map (·.name)).length := by
        rw [List.length_map]
        exact (List.getElem?_eq_some_iff.mp hf).1
      rw [Option.map_some, hname, Module.names, List.getElem?_append_left hlt, List.getElem?_map, hf]
      rfl
    · cases hm.symm.trans hm'
      have hspec := m.lowerInit_spec hmatches fun g hg => ⟨m, hincludes, g, hg, rfl⟩
      have hname := (hspec.of_eq_ok hlower).2.name
      have hk : k = (m.functions.map (·.name)).length := by
        rw [List.length_map]
        exact hindex
      rw [Option.map_some, hname, Module.names, if_pos hhas, hk, List.getElem?_concat_length]

/-- **A function is found by name at the position of its definition.** -/
theorem functionRef?_of_names (h : p.Lowering entry modules d lowered) (hnodup : m.names.Nodup)
    (hm : modules[i]? = some (id, m)) (hk : m.names[k]? = some name) :
    lowered.functionRef? id name = some ⟨i, k⟩ := by
  obtain ⟨row, slots, hrow, -⟩ := h.exists_row_of_listed hm
  have hnames := h.names_eq hm hrow
  have hfind : row.function? name = some k := by
    rw [BlockIR.Module.function?_eq_some (by rwa [hnames]), ← hk, ← hnames, List.getElem?_map,
      Array.getElem?_toList]
  simp only [BlockIR.Program.functionRef?, h.moduleIndex?_of_listed hm, hrow, hfind,
    Option.bind_eq_bind, Option.bind_some]
  rfl

variable {ref : FunctionRef}

/-- The program finds a function where its symbol says. -/
theorem functionRef?_of_lookup (h : p.Lowering entry modules d lowered)
    (hnames : ∀ id m, p.Includes id m → m.names.Nodup)
    (href : d.symbols.functions.lookup (id, name) = some ref) :
    lowered.functionRef? id name = some ref := by
  obtain ⟨m, f, hm, hf, rfl⟩ := (h.covers.functions id name ref).mp href
  have hincludes := (h.lists.mem_iff id m).mp (List.mem_of_getElem? hm)
  refine h.functionRef?_of_names (hnames id m hincludes) hm ?_
  have hlt : ref.index < (m.functions.map (·.name)).length := by
    rw [List.length_map]
    exact (List.getElem?_eq_some_iff.mp hf).1
  rw [Module.names, List.getElem?_append_left hlt, List.getElem?_map, hf]
  rfl

/-- What the symbols make of references, the tables make of them. -/
theorem map_access? (h : p.Lowering entry modules d lowered)
    (hnames : ∀ id m, p.Includes id m → m.names.Nodup) {mentions : List Mention}
    {accesses : List Access} (hmap : accesses.map some = mentions.map d.symbols.access?) :
    mentions.map lowered.access? = accesses.map some := by
  rw [hmap]
  refine List.map_congr_left fun mention hmention => ?_
  have hsome : d.symbols.access? mention ∈ accesses.map some := by
    rw [hmap]
    exact List.mem_map_of_mem hmention
  obtain ⟨access, -, haccess⟩ := List.mem_map.mp hsome
  cases mention with
  | load module name =>
    rw [BlockIR.Program.access?, Symbols.access?, h.globalId?_eq_lookup]
  | store module name =>
    rw [BlockIR.Program.access?, Symbols.access?, h.globalId?_eq_lookup]
  | call module name =>
    obtain ⟨ref, href, -⟩ := Option.map_eq_some_iff.mp haccess.symm
    rw [BlockIR.Program.access?, Symbols.access?, href, h.functionRef?_of_lookup hnames href]

end Lowering

/-! ## Agreement -/

/-- **All ways to look a name up agree** in a program tree, in the symbols that it
is lowered with, and in the program that it is lowered to. -/
structure NamesAgree (p : Program) (symbols : Symbols) (lowered : BlockIR.Program) : Prop where
  /-- Each module is there once. -/
  ids_nodup : (lowered.modules.toList.map (·.id)).Nodup
  /-- The modules are those reachable from the root. -/
  mem_ids : ∀ id, id ∈ lowered.modules.toList.map (·.id) ↔ ∃ m, p.Includes id m
  /-- Every slot is that of a name. -/
  slots : ∀ g, g < lowered.globals.size ↔ ∃ module name, lowered.globalId? module name = some g
  /-- A name has a slot when its module declares it, however often. -/
  declared : ∀ module name, (lowered.globalId? module name).isSome = true ↔
    ∃ m, p.Includes module m ∧ ∃ g ∈ m.globals, g.name = name
  /-- Different names have different slots. -/
  distinct : ∀ module name module' name' g, lowered.globalId? module name = some g →
    lowered.globalId? module' name' = some g → module = module' ∧ name = name'
  /-- Symbols and tables give a global the same slot. -/
  global : ∀ module name,
    symbols.globals.lookup (module, name) = lowered.globalId? module name
  /-- Symbols and tables give a declared function the same place. -/
  call : ∀ module name ref, symbols.functions.lookup (module, name) = some ref ↔
    (∃ m, p.Includes module m ∧ ∃ f ∈ m.functions, f.name = name) ∧
      lowered.functionRef? module name = some ref
  /-- In the place of a function stands its code, and each of its references has
  become an access of what the tables find. -/
  function : ∀ id m, p.Includes id m → ∀ f ∈ m.functions,
    ∃ ref code, lowered.functionRef? id f.name = some ref ∧ lowered.function? ref = some code ∧
      f.lower symbols = .ok code ∧ f.mentions.map lowered.access? = code.accesses.map some
  /-- The same holds of the initializer of a module. -/
  init : ∀ id m, p.Includes id m → m.HasInit →
    ∃ ref code, Machine.initializer? lowered ref.module = some ref ∧
      lowered.moduleIndex? id = some ref.module ∧ lowered.function? ref = some code ∧
      m.lowerInit symbols id = .ok code ∧
      (m.initMentions id).map lowered.access? = code.accesses.map some

namespace Lowering

/-- The code of a function stands where its name is found. -/
theorem exists_code (h : p.Lowering entry modules d lowered)
    (hnames : ∀ id m, p.Includes id m → m.names.Nodup) (hm : p.Includes id m) {f : FunctionDef}
    (hf : f ∈ m.functions) :
    ∃ ref code, lowered.functionRef? id f.name = some ref ∧ lowered.function? ref = some code ∧
      f.lower d.symbols = .ok code := by
  obtain ⟨ref, hi, hk⟩ : ∃ ref : FunctionRef, modules[ref.module]? = some (id, m) ∧
      m.functions[ref.index]? = some f := by
    obtain ⟨i, hi⟩ := List.getElem?_of_mem ((h.lists.mem_iff id m).mpr hm)
    obtain ⟨k, hk⟩ := List.getElem?_of_mem hf
    exact ⟨⟨i, k⟩, hi, hk⟩
  have href := (h.covers.functions id f.name ref).mpr ⟨m, f, hi, hk, rfl⟩
  obtain ⟨f', code, hlinks⟩ := h.exists_links href
  have hsource := function?_of_lookup h.lists h.covers hi hk rfl
  obtain rfl : f = f' := Option.some.inj (hsource.symm.trans hlinks.source)
  exact ⟨ref, code, h.functionRef?_of_lookup hnames href, hlinks.holds, hlinks.lower⟩

/-- The initializer of a module comes behind its functions. -/
theorem initializer?_of_listed (h : p.Lowering entry modules d lowered)
    (hi : modules[i]? = some (id, m)) (hhas : m.HasInit) :
    Machine.initializer? lowered i = some ⟨i, m.functions.length⟩ := by
  obtain ⟨row, slots, hrow, hshape⟩ := h.exists_row_of_listed hi
  have hindex : row.init = some m.functions.length := by
    have hinit : row.init = m.initIndex := congrArg (fun shape => shape.2.2.2.1) hshape
    rw [hinit, Module.initIndex, if_pos hhas]
  rw [Machine.initializer?, hrow, Option.bind_some, hindex]
  rfl

/-- The code of an initializer stands behind the functions of its module. -/
theorem exists_init (h : p.Lowering entry modules d lowered) (hm : p.Includes id m)
    (hhas : m.HasInit) :
    ∃ ref code, Machine.initializer? lowered ref.module = some ref ∧
      lowered.moduleIndex? id = some ref.module ∧ lowered.function? ref = some code ∧
      m.lowerInit d.symbols id = .ok code := by
  obtain ⟨i, hi⟩ := List.getElem?_of_mem ((h.lists.mem_iff id m).mpr hm)
  have hinit := h.initializer?_of_listed hi hhas
  obtain ⟨code, hcode⟩ := Option.isSome_iff_exists.mp (h.isSome_initializer hinit)
  refine ⟨⟨i, m.functions.length⟩, code, hinit, h.moduleIndex?_of_listed hi, hcode, ?_⟩
  obtain ⟨_, _, hi', ⟨f, hf, -⟩ | ⟨-, -, hlower⟩⟩ := h.code _ code hcode
  · cases hi.symm.trans hi'
    exact absurd (List.getElem?_eq_some_iff.mp hf).1 (Nat.lt_irrefl _)
  · cases hi.symm.trans hi'
    exact hlower

/-- **All ways to look a name up in a lowered program agree.** -/
theorem namesAgree (h : p.Lowering entry modules d lowered)
    (hnames : ∀ id m, p.Includes id m → m.names.Nodup) : p.NamesAgree d.symbols lowered where
  ids_nodup := by
    rw [h.ids_eq]
    exact h.lists.distinct
  mem_ids id := by
    rw [h.ids_eq, List.mem_map]
    constructor
    · rintro ⟨⟨id, m⟩, hm, rfl⟩
      exact ⟨m, (h.lists.mem_iff id m).mp hm⟩
    · rintro ⟨m, hm⟩
      exact ⟨(id, m), (h.lists.mem_iff id m).mpr hm, rfl⟩
  slots g := by
    have hglobals : lowered.globals = d.assembly.globals := h.shape.globals
    constructor
    · intro hg
      rw [hglobals] at hg
      obtain ⟨i, row, hrow, hmem⟩ := h.covers.agree.listed g hg
      obtain ⟨name, -, hlookup⟩ := h.covers.agree.symbol i row g hrow hmem
      exact ⟨row.id, name, (h.globalId?_eq_lookup _ _).trans hlookup⟩
    · rintro ⟨module, name, hg⟩
      rw [h.globalId?_eq_lookup] at hg
      exact h.lt_size_globals hg
  declared module name := by
    rw [h.globalId?_eq_lookup]
    exact ((h.lists.matches h.covers).global module name).symm
  distinct module name module' name' g hg hg' := by
    rw [h.globalId?_eq_lookup] at hg hg'
    exact Prod.mk.inj (h.showsGlobals_start.distinct _ _ g hg hg')
  global module name := (h.globalId?_eq_lookup module name).symm
  call module name ref := by
    have hmatches := (h.lists.matches h.covers).function module name
    constructor
    · intro href
      refine ⟨hmatches.mpr ?_, h.functionRef?_of_lookup hnames href⟩
      rw [href]
      rfl
    · rintro ⟨hdeclared, href⟩
      obtain ⟨ref', href'⟩ := Option.isSome_iff_exists.mp (hmatches.mp hdeclared)
      rw [href', ← href, h.functionRef?_of_lookup hnames href']
  function id m hm f hf := by
    obtain ⟨ref, code, href, hcode, hlower⟩ := h.exists_code hnames hm hf
    exact ⟨ref, code, href, hcode, hlower, h.map_access? hnames (FunctionDef.accesses_lower hlower)⟩
  init id m hm hhas := by
    obtain ⟨ref, code, hinit, hindex, hcode, hlower⟩ := h.exists_init hm hhas
    exact ⟨ref, code, hinit, hindex, hcode, hlower,
      h.map_access? hnames (Module.accesses_lowerInit hlower)⟩

end Lowering

/-- **One slot for each declared name, and all lookups agree.** The modules of a
lowered program are the reachable ones, each once; its slots are those of the
globals that they declare, one for each; every reference of the tree to a global
or a function, in a body or an initial value, became an access of what the
program finds under that name; and the code found under the name of a function is
the lowering of its definition. So after an evaluation each declared global, and
no other, is read by name, from the slot that the code stores it in. -/
theorem lowered_names_agree {p : Program} {entry : String} {lowered : BlockIR.Program}
    (h : p.lower entry = .ok lowered) :
    (∃ symbols, p.NamesAgree symbols lowered) ∧
    ∀ limits fuel args w o w',
      Machine.evaluateStandard lowered limits fuel args w = some (.ok o, w') →
      ∀ module name,
        ((o.globalByName? lowered module name).isSome = true ↔ p.environment.global module name) ∧
        ∀ g, lowered.globalId? module name = some g →
          o.globalByName? lowered module name = o.globals[g]? := by
  obtain ⟨hscoped, modules, d, hlowering⟩ := (p.lower_decides entry).of_eq_ok h
  have hnames : ∀ id m, p.Includes id m → m.names.Nodup := fun id m hm =>
    m.names_nodup_iff.mpr ⟨hscoped.distinct id m hm, hscoped.initFree id m hm⟩
  have hagree := hlowering.namesAgree hnames
  refine ⟨⟨d.symbols, hagree⟩, fun limits fuel args w o w' hrun module name => ?_⟩
  have hsize := Machine.size_globals_of_evaluateStandard hlowering.runnable
    hlowering.globalsBound (hlowering.isSome_of_lookup hlowering.entry) hrun
  have hread : ∀ g, lowered.globalId? module name = some g →
      o.globalByName? lowered module name = o.globals[g]? := by
    intro g hg
    rw [Outcome.globalByName?, hg]
    rfl
  refine ⟨?_, hread⟩
  rw [show p.environment.global module name ↔ _ from (hagree.declared module name).symm]
  cases hg : lowered.globalId? module name with
  | none =>
    rw [Outcome.globalByName?, hg]
    rfl
  | some g =>
    have hlt : g < o.globals.size := hsize ▸ (hagree.slots g).mpr ⟨module, name, hg⟩
    rw [hread g hg, Array.getElem?_eq_getElem hlt]
    rfl

/-- In the diamond the two sides share the slot of the base module that counts
their calls and call the one function that it declares, and the count is read
from that slot. -/
theorem lowered_names_agree_diamond :
    ∃ lowered symbols o w', Sample.diamond.lower = .ok lowered ∧
      Sample.diamond.NamesAgree symbols lowered ∧
      lowered.globalId? "base" "calls" = some 0 ∧
      lowered.functionRef? "base" "ident" = some ⟨2, 0⟩ ∧
      ["left", "right"].map (fun id => ((lowered.functionRef? id "pass").bind
        lowered.function?).map (·.accesses)) =
        [some [.load 0, .store 0, .call ⟨2, 0⟩], some [.load 0, .store 0, .call ⟨2, 0⟩]] ∧
      Machine.evaluateStandard lowered {} 100 [.int 3] ⟨{}, {}, .steady 0⟩ = some (.ok o, w') ∧
      o.globalByName? lowered "base" "calls" = o.globals[0]? ∧ o.globals[0]? = some (.int 2) := by
  have htables : Sample.diamond.lower.toOption.map (fun lowered =>
      (lowered.globalId? "base" "calls", lowered.functionRef? "base" "ident",
        ["left", "right"].map (fun id => ((lowered.functionRef? id "pass").bind
          lowered.function?).map (·.accesses)))) =
      some (some 0, some ⟨2, 0⟩,
        [some [.load 0, .store 0, .call ⟨2, 0⟩], some [.load 0, .store 0, .call ⟨2, 0⟩]]) := by
    decide +kernel
  have hdone : Sample.diamond.lower.toOption.bind (fun lowered =>
      (Machine.evaluateStandard lowered {} 100 [.int 3] ⟨{}, {}, .steady 0⟩).map
        fun r => r.1.toOption.bind fun o => o.globals[0]?) = some (some (.int 2)) := by
    decide +kernel
  cases h : Sample.diamond.lower with
  | error e =>
    rw [h] at hdone
    cases hdone
  | ok lowered =>
    rw [h] at htables hdone
    obtain ⟨hslot, hrest⟩ := Prod.mk.inj (Option.some.inj htables)
    obtain ⟨href, haccesses⟩ := Prod.mk.inj hrest
    obtain ⟨⟨symbols, hagree⟩, hread⟩ := lowered_names_agree h
    obtain ⟨⟨e | o, w'⟩, hrun, hresult⟩ := Option.map_eq_some_iff.mp hdone
    · cases hresult
    · exact ⟨lowered, symbols, o, w', rfl, hagree, hslot, href, haccesses, hrun,
        (hread _ _ _ _ _ _ hrun "base" "calls").2 0 hslot, hresult⟩

end Program

end Source

end BlockIR
