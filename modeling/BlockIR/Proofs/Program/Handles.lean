import BlockIR.Proofs.Program.Consistent
/-!
# Handles and what they denote

Modules, globals and functions are known to the outside by handles: positions in
the tables of an assembly. A handle denotes a named entity (`entity?`), and an
entity is found by its name (`find?`). Where the tables are consistent the two
are inverse to each other. Steps only add to the tables or replace a function by
a namesake, so a handle denotes one entity from the step that returns it on, and
still does in the finished program.
-/

namespace BlockIR

/-- **A handle** of something that an assembly or a program holds. -/
inductive Handle where
  | module (m : ModuleIndex)
  | global (g : GlobalId)
  | function (f : FunctionRef)
  deriving DecidableEq

/-- **A named entity**: a module by its id, a global or a function by the id of its
module and its own name. -/
inductive Entity where
  | module (id : String)
  | global (module name : String)
  | function (module name : String)
  deriving DecidableEq

/-- The entity that a handle denotes in some tables. -/
def entityIn? (modules : Array Module) (globals : Array GlobalDecl) : Handle → Option Entity
  | .module m => (modules[m]?).map fun row => .module row.id
  | .global g => (globals[g]?).bind fun decl =>
      (modules[decl.module]?).map fun row => .global row.id decl.name
  | .function f => (modules[f.module]?).bind fun row =>
      (functionIn? modules f).map fun function => .function row.id function.name

namespace Program

/-- The entity that a handle denotes in a program. -/
def entity? (p : Program) : Handle → Option Entity := entityIn? p.modules p.globals

/-- The handle of an entity in a program. -/
def find? (p : Program) : Entity → Option Handle
  | .module id => (p.moduleIndex? id).map .module
  | .global module name => (p.globalId? module name).map .global
  | .function module name => (p.functionRef? module name).map .function

end Program

namespace Assembly

/-- The entity that a handle denotes in an assembly. -/
def entity? (a : Assembly) : Handle → Option Entity := entityIn? a.modules a.globals

/-- The handle of an entity in an assembly. -/
def find? (a : Assembly) : Entity → Option Handle
  | .module id => (a.moduleIndex? id).map .module
  | .global module name =>
      (a.moduleIndex? module).bind fun m => (a.global? m name).map .global
  | .function module name =>
      (a.moduleIndex? module).bind fun m => (a.functionRef? m name).map .function

/-- The handle that a step returns. -/
def Act.handle? : Act → Assembly → Option Handle
  | ensureModule id, a => some (.module ((Assembly.ensureModule id).run a).1)
  | ensureGlobal m name, a => (((Assembly.ensureGlobal m name).apply a).1.toOption).map .global
  | defineFunction m function, a =>
      (((Assembly.defineFunction m function).apply a).1.toOption).map .function
  | _, _ => none

/-- The entity that a step is to return a handle of. -/
def Act.entity? : Act → Assembly → Option Entity
  | ensureModule id, _ => some (.module id)
  | ensureGlobal m name, a => (a.modules[m]?).map fun row => .global row.id name
  | defineFunction m function, a => (a.modules[m]?).map fun row => .function row.id function.name
  | _, _ => none

variable {a b : Assembly} {m : ModuleIndex} {row : Module} {id name : String}

/-! ## Names and handles are inverse -/

/-- The slot of a name is the one that the table declares with it. -/
theorem Consistent.globalIn?_eq_some (h : a.Consistent) (hrow : a.modules[m]? = some row)
    {g : GlobalId} :
    globalIn? a.globals row name = some g ↔ a.globals[g]? = some ⟨name, m⟩ := by
  have hfits := h.rows m row hrow
  constructor
  · intro hg
    have hname := List.find?_some hg
    obtain ⟨name', hdecl⟩ := (hfits.globals g).mp (List.mem_of_find?_eq_some hg)
    rw [hdecl, Option.any_some, beq_iff_eq] at hname
    rw [hdecl, ← hname]
  · intro hdecl
    cases hg : globalIn? a.globals row name with
    | none =>
      have hnot := List.find?_eq_none.mp hg g ((hfits.globals g).mpr ⟨name, hdecl⟩)
      simp [hdecl] at hnot
    | some g' =>
      -- whatever slot is found, the table declares it with the same name for the same module
      have hname := List.find?_some hg
      obtain ⟨name', hdecl'⟩ := (hfits.globals g').mp (List.mem_of_find?_eq_some hg)
      rw [hdecl', Option.any_some, beq_iff_eq] at hname
      rw [← hname] at hdecl
      rw [h.distinct g' g _ hdecl' hdecl]

theorem entity?_eq_module {handle : Handle} :
    a.entity? handle = some (.module id) ↔
      ∃ m, handle = .module m ∧ (a.modules[m]?).map (·.id) = some id := by
  cases handle <;> simp [entity?, entityIn?, Option.bind_eq_some_iff]

theorem entity?_eq_global {handle : Handle} :
    a.entity? handle = some (.global id name) ↔
      ∃ g m, handle = .global g ∧ a.globals[g]? = some ⟨name, m⟩ ∧
        (a.modules[m]?).map (·.id) = some id := by
  cases handle with
  | module m => simp [entity?, entityIn?]
  | function f => simp [entity?, entityIn?, Option.bind_eq_some_iff]
  | global g =>
    simp only [entity?, entityIn?, Option.bind_eq_some_iff, Option.map_eq_some_iff]
    constructor
    · rintro ⟨decl, hdecl, row, hrow, heq⟩
      cases heq
      exact ⟨g, decl.module, rfl, hdecl, row, hrow, rfl⟩
    · rintro ⟨_, m, ⟨⟩, hdecl, row, hrow, rfl⟩
      exact ⟨_, hdecl, row, hrow, rfl⟩

theorem entity?_eq_function {handle : Handle} :
    a.entity? handle = some (.function id name) ↔
      ∃ f, handle = .function f ∧ (a.modules[f.module]?).map (·.id) = some id ∧
        (a.function? f).map (·.name) = some name := by
  cases handle with
  | module m => simp [entity?, entityIn?]
  | global g => simp [entity?, entityIn?, Option.bind_eq_some_iff]
  | function f =>
    simp only [entity?, entityIn?, Option.bind_eq_some_iff, Option.map_eq_some_iff]
    constructor
    · rintro ⟨row, hrow, function, hfunction, heq⟩
      cases heq
      exact ⟨f, rfl, ⟨row, hrow, rfl⟩, function, hfunction, rfl⟩
    · rintro ⟨_, ⟨⟩, ⟨row, hrow, rfl⟩, function, hfunction, rfl⟩
      exact ⟨row, hrow, function, hfunction, rfl⟩

/-- **Names and handles are inverse to each other.** -/
theorem Consistent.find?_eq_some (h : a.Consistent) {e : Entity} {handle : Handle} :
    a.find? e = some handle ↔ a.entity? handle = some e := by
  cases e with
  | module id =>
    simp only [find?, Option.map_eq_some_iff]
    rw [entity?_eq_module]
    constructor
    · rintro ⟨m, hm, rfl⟩
      exact ⟨m, rfl, (h.indexed id m).mp hm⟩
    · rintro ⟨m, rfl, hid⟩
      exact ⟨m, (h.indexed id m).mpr hid, rfl⟩
  | global id name =>
    simp only [find?, Option.bind_eq_some_iff, Option.map_eq_some_iff, global?]
    rw [entity?_eq_global]
    constructor
    · rintro ⟨m, hm, g, ⟨row, hrow, hg⟩, rfl⟩
      exact ⟨g, m, rfl, (h.globalIn?_eq_some hrow).mp hg, (h.indexed id m).mp hm⟩
    · rintro ⟨g, m, rfl, hdecl, hid⟩
      obtain ⟨row, hrow, -⟩ := Option.map_eq_some_iff.mp hid
      exact ⟨m, (h.indexed id m).mpr hid, g, ⟨row, hrow, (h.globalIn?_eq_some hrow).mpr hdecl⟩, rfl⟩
  | function id name =>
    simp only [find?, Option.bind_eq_some_iff, Option.map_eq_some_iff, functionRef?]
    rw [entity?_eq_function]
    constructor
    · rintro ⟨m, hm, _, ⟨k, ⟨row, hrow, hk⟩, rfl⟩, rfl⟩
      refine ⟨⟨m, k⟩, rfl, (h.indexed id m).mp hm, ?_⟩
      rw [function?, functionIn?, hrow]
      exact (Module.function?_eq_some (h.rows m row hrow).functions).mp hk
    · rintro ⟨f, rfl, hid, hname⟩
      obtain ⟨row, hrow, -⟩ := Option.map_eq_some_iff.mp hid
      rw [function?, functionIn?, hrow] at hname
      refine ⟨f.module, (h.indexed id f.module).mpr hid, f, ⟨f.index, ⟨row, hrow, ?_⟩, rfl⟩, rfl⟩
      exact (Module.function?_eq_some (h.rows f.module row hrow).functions).mpr hname

/-! ## Handles stay -/

/-- **What an assembly has, a later one has under the same names**: modules,
globals and functions. -/
structure Grows (a b : Assembly) : Prop where
  ids : ∀ (i : ModuleIndex) id, (a.modules[i]?).map (·.id) = some id →
    (b.modules[i]?).map (·.id) = some id
  globals : ∀ (g : GlobalId) decl, a.globals[g]? = some decl → b.globals[g]? = some decl
  functions : ∀ ref name, (a.function? ref).map (·.name) = some name →
    (b.function? ref).map (·.name) = some name

/-- An assembly has grown from itself. -/
theorem Grows.refl (a : Assembly) : Grows a a :=
  ⟨fun _ _ h => h, fun _ _ h => h, fun _ _ h => h⟩

/-- Growth composes. -/
theorem Grows.trans {c : Assembly} (hab : Grows a b) (hbc : Grows b c) : Grows a c :=
  ⟨fun i id h => hbc.ids i id (hab.ids i id h), fun g decl h => hbc.globals g decl (hab.globals g decl h),
    fun ref name h => hbc.functions ref name (hab.functions ref name h)⟩

/-- **What a handle stands for it stands for later.** -/
theorem Grows.entity? (hab : Grows a b) {handle : Handle} {e : Entity}
    (he : a.entity? handle = some e) : b.entity? handle = some e := by
  cases e with
  | module id =>
    obtain ⟨m, rfl, hid⟩ := entity?_eq_module.mp he
    exact entity?_eq_module.mpr ⟨m, rfl, hab.ids m id hid⟩
  | global id name =>
    obtain ⟨g, m, rfl, hdecl, hid⟩ := entity?_eq_global.mp he
    exact entity?_eq_global.mpr ⟨g, m, rfl, hab.globals g _ hdecl, hab.ids m id hid⟩
  | function id name =>
    obtain ⟨f, rfl, hid, hname⟩ := entity?_eq_function.mp he
    exact entity?_eq_function.mpr ⟨f, rfl, hab.ids f.module id hid, hab.functions f name hname⟩

/-- A row may be replaced by one of the same id in which every function has a
namesake at its position. -/
theorem grows_putModule {row' : Module} (hrow : a.modules[m]? = some row) (hid : row'.id = row.id)
    (hnames : ∀ (k : Nat) f, row.functions[k]? = some f →
      (row'.functions[k]?).map (·.name) = some f.name) : Grows a (a.putModule m row') := by
  refine ⟨fun i id hi => ?_, fun _ _ hg => hg, fun ref name hname => ?_⟩
  · rw [map_putModule hrow hid, hi]
  · obtain ⟨f, hfunction, rfl⟩ := Option.map_eq_some_iff.mp hname
    obtain ⟨row₁, hrow₁, hf⟩ := Option.bind_eq_some_iff.mp hfunction
    by_cases hm : m = ref.module
    · subst hm
      obtain rfl := Option.some.inj (hrow.symm.trans hrow₁)
      rw [function?, functionIn?, module_putModule hrow]
      exact hnames ref.index f hf
    · rw [function?, functionIn?, module_putModule_ne hm, hrow₁, Option.bind_some, hf,
        Option.map_some]

theorem getElem?_push_of_some {α : Type} {xs : Array α} {x y : α} {k : Nat} (h : xs[k]? = some x) :
    (xs.push y)[k]? = some x := by
  rw [Array.getElem?_push, if_neg, h]
  exact Nat.ne_of_lt (Array.getElem?_eq_some_iff.mp h).1

/-- **Every change keeps what there is.** -/
theorem Alters.grows (hab : Alters a b) : Grows a b := by
  cases hab with
  | nothing => exact Grows.refl a
  | addModule hnone =>
    refine ⟨fun i id hi => ?_, fun _ _ hg => hg, fun ref name hname => ?_⟩
    · obtain ⟨row, hrow, rfl⟩ := Option.map_eq_some_iff.mp hi
      rw [getElem?_push_of_some hrow, Option.map_some]
    · obtain ⟨f, hfunction, rfl⟩ := Option.map_eq_some_iff.mp hname
      obtain ⟨row, hrow, hf⟩ := Option.bind_eq_some_iff.mp hfunction
      rw [function?, functionIn?, getElem?_push_of_some hrow, Option.bind_some, hf, Option.map_some]
  | addImport hrow _ _ => exact grows_putModule hrow rfl fun k f hf => by rw [hf, Option.map_some]
  | @addGlobal i row name hrow _ =>
    have hput : Grows a (a.putModule i { row with globals := row.globals ++ [a.globals.size] }) :=
      grows_putModule hrow rfl fun k f hf => by rw [hf, Option.map_some]
    exact ⟨hput.ids, fun g decl hg => getElem?_push_of_some hg, hput.functions⟩
  | addFunction hrow _ =>
    exact grows_putModule hrow rfl fun k f hf => by rw [getElem?_push_of_some hf, Option.map_some]
  | replaceFunction hrow hname =>
    refine grows_putModule hrow rfl fun k f hf => ?_
    rw [Array.getElem?_modify]
    split
    · rename_i hk
      subst hk
      rw [hf, Option.map_some, Option.map_some, hname f hf]
    · rw [hf, Option.map_some]
  | setInit hrow => exact grows_putModule hrow rfl fun k f hf => by rw [hf, Option.map_some]

/-- What an assembly leads to has grown from it. -/
theorem LeadsTo.grows (hab : LeadsTo a b) : Grows a b := by
  induction hab with
  | refl => exact Grows.refl a
  | act act _ hact ih => exact ih.trans (alters_leave act hact).grows

/-! ## Handles that steps return -/

/-- What a step returns denotes what it was asked for. -/
theorem Consistent.entity?_of_handle? (h : a.Consistent) {act : Act} {handle : Handle}
    (hhandle : act.handle? a = some handle) :
    ∃ e, act.entity? a = some e ∧ (act.leave a).entity? handle = some e := by
  cases act with
  | ensureModule id =>
    cases hhandle
    refine ⟨.module id, rfl, entity?_eq_module.mpr ⟨_, rfl, ?_⟩⟩
    rw [Act.leave, run_ensureModule]
    cases hfound : a.moduleIndex? id with
    | some m => exact (h.indexed id m).mp hfound
    | none => rw [Array.getElem?_push_size, Option.map_some]
  | ensureGlobal m name =>
    cases hrow : a.modules[m]? with
    | none =>
      rw [Act.handle?, Assembly.ensureGlobal, apply_requireModule_bind_unknown hrow] at hhandle
      cases hhandle
    | some row =>
      have happly := apply_ensureGlobal hrow name
      refine ⟨.global row.id name, by rw [Act.entity?, hrow, Option.map_some], ?_⟩
      cases hfound : globalIn? a.globals row name with
      | some g =>
        rw [hfound] at happly
        rw [Act.handle?, happly] at hhandle
        rw [Act.leave, happly]
        cases hhandle
        refine entity?_eq_global.mpr ⟨g, m, rfl, (h.globalIn?_eq_some hrow).mp hfound, ?_⟩
        rw [hrow, Option.map_some]
      | none =>
        rw [hfound] at happly
        rw [Act.handle?, happly] at hhandle
        rw [Act.leave, happly]
        cases hhandle
        refine entity?_eq_global.mpr ⟨_, m, rfl, Array.getElem?_push_size, ?_⟩
        exact congrArg (Option.map (·.id)) (module_putModule hrow)
  | defineFunction m function =>
    cases hrow : a.modules[m]? with
    | none =>
      rw [Act.handle?, Assembly.defineFunction, apply_requireModule_bind_unknown hrow] at hhandle
      cases hhandle
    | some row =>
      have happly := apply_defineFunction hrow function
      refine ⟨.function row.id function.name, by rw [Act.entity?, hrow, Option.map_some], ?_⟩
      by_cases hmem : function.name ∈ row.functions.toList.map (·.name)
      · rw [if_pos hmem] at happly
        rw [Act.handle?, happly] at hhandle
        cases hhandle
      · rw [if_neg hmem] at happly
        rw [Act.handle?, happly] at hhandle
        rw [Act.leave, happly]
        cases hhandle
        refine entity?_eq_function.mpr ⟨_, rfl, ?_, ?_⟩
        · rw [module_putModule hrow, Option.map_some]
        · rw [function?, functionIn?, module_putModule hrow, Option.bind_some,
            Array.getElem?_push_size, Option.map_some]
  | importModule m imported => cases hhandle
  | putFunction ref function => cases hhandle
  | markInit ref => cases hhandle

/-- Only steps that replace a function have a name to keep. -/
theorem Act.keepsName_of_handle? {act : Act} {handle : Handle}
    (hhandle : act.handle? a = some handle) : act.KeepsName a := by
  cases act with
  | putFunction ref function => cases hhandle
  | _ => trivial

/-- A finished program finds by name what its assembly found. -/
theorem Consistent.find?_finish (h : a.Consistent) {entry : FunctionRef} {p : Program}
    (hp : a.finish entry = .ok p) (e : Entity) : p.find? e = a.find? e := by
  obtain ⟨-, -, heq⟩ := finish_eq_ok.mp hp
  have hmodules : p.modules = a.modules := by rw [heq]
  have hglobals : p.globals = a.globals := by rw [heq]
  have hindex : ∀ id, p.moduleIndex? id = a.moduleIndex? id := by
    intro id
    have hids : (p.modules.toList.map (·.id)).Nodup := hmodules ▸ h.indexed.nodup_ids
    refine Option.ext fun m => ?_
    rw [Program.moduleIndex?_eq_some hids, hmodules, h.indexed]
  cases e with
  | module id => rw [Program.find?, hindex, find?]
  | global id name =>
    rw [Program.find?, Program.globalId?, hindex, hmodules, hglobals, find?]
    cases a.moduleIndex? id <;> rfl
  | function id name =>
    rw [Program.find?, Program.functionRef?, hindex, hmodules, find?]
    cases hm : a.moduleIndex? id with
    | none => rfl
    | some m =>
      obtain ⟨row, hrow, -⟩ := h.indexed.exists_row hm
      simp only [functionRef?, Option.bind_eq_bind, Option.bind_some, hrow]
      cases row.function? name <;> rfl

/-- Entering a module again gives the same position, and changes nothing. -/
theorem run_ensureModule_again (hfound : a.moduleIndex? id = some m) :
    (ensureModule id).run a = (m, a) := by
  rw [run_ensureModule, hfound]

/-- Declaring a global again gives the same slot, and changes nothing. -/
theorem apply_ensureGlobal_again {g : GlobalId} (hfound : a.global? m name = some g) :
    (ensureGlobal m name).apply a = (.ok g, a) := by
  obtain ⟨row, hrow, hg⟩ := Option.bind_eq_some_iff.mp hfound
  rw [apply_ensureGlobal hrow, hg]

/-- **The tables of an assembly stay consistent and its handles stay valid.** After
any steps that keep the names of functions, the index finds exactly the modules
that are there, imports and slots are in order, and names are unique. What is
there already is not added again. A handle that a step returns denotes from then
on what the step was asked for, and is found by its name, in all that follows and
in every program finished from it. -/
theorem assembly_keeps_its_handles {a : Assembly} (ha : LeadsTo {} a) :
    a.Consistent ∧
    (∀ id m, a.moduleIndex? id = some m → (ensureModule id).run a = (m, a)) ∧
    (∀ m name g, a.global? m name = some g → (ensureGlobal m name).apply a = (.ok g, a)) ∧
    (∀ e handle, a.find? e = some handle ↔ a.entity? handle = some e) ∧
    ∀ (act : Act) handle, act.handle? a = some handle →
      ∃ e, act.entity? a = some e ∧ ∀ b, LeadsTo (act.leave a) b →
        b.entity? handle = some e ∧ b.find? e = some handle ∧
        ∀ entry p, b.finish entry = .ok p → p.entity? handle = some e ∧ p.find? e = some handle := by
  have hconsistent := ha.consistent Consistent.empty
  refine ⟨hconsistent, fun id m => run_ensureModule_again, fun m name g => apply_ensureGlobal_again,
    fun e handle => hconsistent.find?_eq_some, fun act handle hhandle => ?_⟩
  have hact := alters_leave act (Act.keepsName_of_handle? hhandle)
  obtain ⟨e, hasked, hdenotes⟩ := hconsistent.entity?_of_handle? hhandle
  refine ⟨e, hasked, fun b hb => ?_⟩
  have hlater := hb.consistent (hconsistent.alters hact)
  have hentity := hb.grows.entity? hdenotes
  have hfind := hlater.find?_eq_some.mpr hentity
  refine ⟨hentity, hfind, fun entry p hp => ⟨?_, (hlater.find?_finish hp e).trans hfind⟩⟩
  obtain ⟨-, -, rfl⟩ := finish_eq_ok.mp hp
  exact hentity

/-- Two modules that import each other, with globals and functions of the same
names. Some of the steps repeat others, and some fail. -/
def mirrored : Assembly :=
  [.ensureModule "m", .ensureModule "n", .ensureModule "m", .importModule 0 1, .importModule 1 0,
    .importModule 0 1, .importModule 0 2, .ensureGlobal 0 "x", .ensureGlobal 1 "x",
    .ensureGlobal 0 "x", .defineFunction 0 (Function.empty "f" []),
    .defineFunction 1 (Function.empty "f" []), .defineFunction 1 (Function.empty "f" ["p"])].foldl
      (fun a act => Act.leave act a) {}

theorem leadsTo_mirrored : LeadsTo {} mirrored := by
  unfold mirrored
  simp only [List.foldl]
  iterate 13 refine LeadsTo.act _ ?_ trivial
  exact .refl

/-- The global of the second module stays what it is, whatever follows. -/
theorem assembly_keeps_its_handles_mirrored :
    mirrored.Consistent ∧ (ensureModule "n").run mirrored = (1, mirrored) ∧
      mirrored.find? (.function "n" "f") = some (.function ⟨1, 0⟩) ∧
      (Act.ensureGlobal 1 "x").handle? mirrored = some (.global 1) ∧
      ∀ b, LeadsTo mirrored b → b.entity? (.global 1) = some (.global "n" "x") := by
  obtain ⟨hconsistent, hmodule, hglobal, hfind, hhandles⟩ :=
    assembly_keeps_its_handles leadsTo_mirrored
  have hagain := hglobal 1 "x" 1 (by decide +kernel)
  have hissued : (Act.ensureGlobal 1 "x").handle? mirrored = some (.global 1) := by
    rw [Act.handle?, hagain]
    rfl
  refine ⟨hconsistent, hmodule "n" 1 (by decide +kernel), (hfind _ _).mpr (by decide +kernel),
    hissued, fun b hb => ?_⟩
  obtain ⟨e, hasked, hlater⟩ := hhandles _ _ hissued
  have hentity : Act.entity? (.ensureGlobal 1 "x") mirrored = some (.global "n" "x") := by
    decide +kernel
  obtain rfl := Option.some.inj (hasked.symm.trans hentity)
  have hleave : Act.leave (.ensureGlobal 1 "x") mirrored = mirrored := by rw [Act.leave, hagain]
  rw [hleave] at hlater
  exact (hlater b hb).1

end Assembly

end BlockIR
