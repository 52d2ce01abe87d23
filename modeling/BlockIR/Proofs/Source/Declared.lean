import BlockIR.Proofs.Program.Assembly
import BlockIR.Proofs.Source.Reachable
/-!
# What declaring modules leaves

Declaring a list of modules fills one row of the assembly for each: a
placeholder for every function, then one for the initializer if the module has
one, the slots of its globals and the positions of its imports. `Covers` says
this of the modules declared so far, with the symbols that denote what stands in
the rows. Declaring fails exactly when two functions of one module would have
the same name.
-/

namespace BlockIR

open Success

namespace Source

/-! ## Rows -/

namespace Module

/-- The functions that a module is declared with: those of the module, and its
initializer if it has one, all without code. -/
def outline (m : Module) : List Function :=
  m.functions.map (fun f => Function.empty f.name f.params) ++
    if m.HasInit then [Function.empty initName []] else []

/-- The position of the initializer of a module. -/
def initIndex (m : Module) : Option Nat :=
  if m.HasInit then some m.functions.length else none

/-- The names are distinct when those of the functions are and the initializer's
is free. -/
theorem names_nodup_iff (m : Module) :
    m.names.Nodup ↔ (m.functions.map (·.name)).Nodup ∧
      (m.HasInit → initName ∉ m.functions.map (·.name)) := by
  unfold names
  by_cases h : m.HasInit
  · simp only [h, if_true, List.nodup_append, List.nodup_singleton, true_and, forall_const,
      List.mem_singleton, forall_eq]
    exact and_congr_right fun _ => ⟨fun hne hmem => hne _ hmem rfl,
      fun hmem name hname heq => hmem (heq ▸ hname)⟩
  · simp [h]

end Module

/-- The position of a module in a list. -/
def positionIn (modules : List (String × Module)) (id : String) : ModuleIndex :=
  (modules.map Prod.fst).idxOf id

/-- **The row of a declared module**, given the slots of its globals. -/
def rowOf (modules : List (String × Module)) (id : String) (m : Module) (slots : List GlobalId) :
    BlockIR.Module where
  id := id
  functions := m.outline.toArray
  globals := slots
  imports := (m.imports.map (positionIn modules)).foldl Assembly.addImport []
  init := m.initIndex

namespace Declared

variable {d d' : Declared} {i j : ModuleIndex} {row row' : BlockIR.Module} {id : String}

/-- A step of the assembly that succeeds does so here, and leaves the symbols. -/
theorem assemble_eq_ok {α : Type} {x : Assemble α} {r : α} {a : Assembly}
    (h : x.apply d.assembly = (.ok r, a)) : d.assemble x = .ok (r, { d with assembly := a }) := by
  rw [assemble, h]

/-- A module that is declared has an index. -/
theorem moduleIndex_eq_ok (h : d.assembly.moduleIndex? id = some i) : d.moduleIndex id = .ok i := by
  rw [moduleIndex, h]

/-- One state has the rows of another, but for one, and the same index. -/
structure Rerows (d d' : Declared) (i : ModuleIndex) (row' : BlockIR.Module) : Prop where
  modules : d'.assembly.modules = (d.assembly.putModule i row').modules
  index : d'.assembly.index = d.assembly.index

/-- The new row is found in its place. -/
theorem Rerows.module_eq (h : Rerows d d' i row') (hrow : d.assembly.modules[i]? = some row) :
    d'.assembly.modules[i]? = some row' := by
  rw [h.modules, Assembly.module_putModule hrow]

/-- A row with the same id leaves the ids. -/
theorem Rerows.ids_eq (h : Rerows d d' i row') (hrow : d.assembly.modules[i]? = some row)
    (hid : row'.id = row.id) : d'.assembly.ids = d.assembly.ids := by
  rw [← Assembly.ids_putModule hrow hid, Assembly.ids, h.modules, Assembly.ids]

/-- A row with the same id leaves the index right. -/
theorem Rerows.indexed (h : Rerows d d' i row') (hrow : d.assembly.modules[i]? = some row)
    (hid : row'.id = row.id) (hindexed : d.assembly.Indexed) : d'.assembly.Indexed :=
  hindexed.congr h.index (h.ids_eq hrow hid)

/-! ## Imports -/

/-- The state with other imports for one module. -/
def withImports (d : Declared) (i : ModuleIndex) (row : BlockIR.Module)
    (imports : List ModuleIndex) : Declared where
  assembly := d.assembly.putModule i { row with imports := imports }
  symbols := d.symbols
  inits := d.inits

/-- New imports change one row. -/
theorem rerows_withImports (d : Declared) (i : ModuleIndex) (row : BlockIR.Module)
    (imports : List ModuleIndex) :
    Rerows d (d.withImports i row imports) i { row with imports := imports } := ⟨rfl, rfl⟩

/-- An import of a declared module is added unless it is there. -/
theorem declareImport_eq (hrow : d.assembly.modules[i]? = some row) (hindexed : d.assembly.Indexed)
    (hrow' : d.assembly.modules[j]? = some row') :
    declareImport i d row'.id = .ok (d.withImports i row (Assembly.addImport row.imports j)) := by
  unfold declareImport
  rw [moduleIndex_eq_ok (hindexed.moduleIndex?_eq_some hrow')]
  change (d.assemble _ >>= fun r => pure r.2) = _
  rw [assemble_eq_ok (Assembly.apply_importModule hrow hrow')]
  rfl

/-- Imports of declared modules are added in turn. -/
theorem declareImports_eq (index : String → ModuleIndex) :
    ∀ (imports : List String) {d : Declared} {row : BlockIR.Module},
    d.assembly.modules[i]? = some row → d.assembly.Indexed →
    (∀ id ∈ imports, ∃ row, d.assembly.modules[index id]? = some row ∧ row.id = id) →
    imports.foldlM (declareImport i) d =
      .ok (d.withImports i row ((imports.map index).foldl Assembly.addImport row.imports))
  | [], d, row, hrow, _, _ => by
    simp only [withImports, List.map_nil, List.foldl_nil, Assembly.putModule_self hrow]
    rfl
  | id :: imports, d, row, hrow, hindexed, hindex => by
    obtain ⟨⟨row', hrow', rfl⟩, hrest⟩ := List.forall_mem_cons.mp hindex
    rw [List.foldlM_cons, declareImport_eq hrow hindexed hrow']
    have hrerows := rerows_withImports d i row (Assembly.addImport row.imports (index row'.id))
    refine (declareImports_eq index imports (hrerows.module_eq hrow)
      (hrerows.indexed hrow rfl hindexed) fun id hid => ?_).trans ?_
    · obtain ⟨row'', hrow'', rfl⟩ := hrest id hid
      by_cases hi : i = index row''.id
      · rw [← hi] at hrow'' ⊢
        obtain rfl : row = row'' := Option.some.inj (hrow.symm.trans hrow'')
        exact ⟨_, Assembly.module_putModule hrow, rfl⟩
      · exact ⟨row'', (Assembly.module_putModule_ne hi).trans hrow'', rfl⟩
    · simp only [withImports, Assembly.putModule_putModule, List.map_cons, List.foldl_cons]

/-! ## Globals -/

/-- Another key does not hide an entry. -/
theorem lookup_cons_of_ne {κ β : Type} [BEq κ] [LawfulBEq κ] {key key' : κ} {b : β}
    {entries : List (κ × β)} (h : key ≠ key') :
    ((key', b) :: entries).lookup key = entries.lookup key := by
  rw [List.lookup_cons, beq_false_of_ne h]

/-- A key is found when it is one of the keys. -/
theorem isSome_lookup_iff {κ β : Type} [BEq κ] [LawfulBEq κ] {key : κ} {entries : List (κ × β)} :
    (entries.lookup key).isSome = true ↔ key ∈ entries.map Prod.fst := by
  rw [← not_iff_not, Bool.not_eq_true, Option.isSome_eq_false_iff, Option.isNone_iff_eq_none,
    List.lookup_eq_none_iff, List.mem_map]
  simp only [bne_iff_ne, ne_eq, not_exists, not_and]
  exact ⟨fun h entry hentry heq => h entry hentry heq.symm,
    fun h entry hentry heq => h entry hentry heq.symm⟩

/-- Where keys are distinct, what is found is what is listed. -/
theorem lookup_eq_some_iff_mem {κ β : Type} [BEq κ] [LawfulBEq κ] {key : κ} {b : β}
    {entries : List (κ × β)} (h : (entries.map Prod.fst).Nodup) :
    entries.lookup key = some b ↔ (key, b) ∈ entries := by
  rw [List.lookup_eq_some_iff]
  constructor
  · rintro ⟨before, after, rfl, -⟩
    simp
  · intro hmem
    obtain ⟨before, after, rfl⟩ := List.append_of_mem hmem
    refine ⟨before, after, rfl, fun entry hentry => bne_iff_ne.mpr ?_⟩
    rintro rfl
    rw [List.map_append, List.nodup_append] at h
    exact h.2.2 _ (List.mem_map_of_mem hentry) _ List.mem_cons_self rfl

/-- **Symbols and rows agree on the globals**: a symbol denotes a slot that its
module lists, each slot that a module lists has its symbol, and every slot is
listed. -/
structure GlobalsAgree (d : Declared) : Prop where
  slot : ∀ key g, d.symbols.globals.lookup key = some g →
    ∃ i row, d.assembly.modules[i]? = some row ∧ row.id = key.1 ∧
      d.assembly.globals[g]? = some ⟨key.2, i⟩ ∧ g ∈ row.globals
  symbol : ∀ i row g, d.assembly.modules[i]? = some row → g ∈ row.globals →
    ∃ name, d.assembly.globals[g]? = some ⟨name, i⟩ ∧
      d.symbols.globals.lookup (row.id, name) = some g
  listed : ∀ g, g < d.assembly.globals.size →
    ∃ (i : ModuleIndex) (row : BlockIR.Module), d.assembly.modules[i]? = some row ∧ g ∈ row.globals

/-- Agreement is about ids, slots and what symbols denote. -/
theorem GlobalsAgree.congr (h : d.GlobalsAgree)
    (hglobals : d'.assembly.globals = d.assembly.globals)
    (hsymbols : ∀ key, d'.symbols.globals.lookup key = d.symbols.globals.lookup key)
    (hrows : ∀ j : Nat, (d'.assembly.modules[j]?).map (fun row => (row.id, row.globals)) =
      (d.assembly.modules[j]?).map fun row => (row.id, row.globals)) : d'.GlobalsAgree := by
  constructor
  · intro key g hg
    rw [hsymbols] at hg
    obtain ⟨i, row, hrow, hid, hdecl, hmem⟩ := h.slot key g hg
    have hrow' := hrows i
    rw [hrow] at hrow'
    obtain ⟨row', hrow', heq⟩ := Option.map_eq_some_iff.mp hrow'
    obtain ⟨hid', hslots⟩ := Prod.mk.inj heq
    exact ⟨i, row', hrow', hid'.trans hid, by rwa [hglobals], by rwa [hslots]⟩
  · intro i row' g hrow' hmem
    have hrow := hrows i
    rw [hrow'] at hrow
    obtain ⟨row, hrow, heq⟩ := Option.map_eq_some_iff.mp hrow.symm
    obtain ⟨hid, hslots⟩ := Prod.mk.inj heq
    rw [← hslots] at hmem
    obtain ⟨name, hdecl, hlookup⟩ := h.symbol i row g hrow hmem
    exact ⟨name, by rwa [hglobals], by rwa [hsymbols, ← hid]⟩
  · intro g hg
    rw [hglobals] at hg
    obtain ⟨i, row, hrow, hmem⟩ := h.listed g hg
    have hrow' := hrows i
    rw [hrow] at hrow'
    obtain ⟨row', hrow', heq⟩ := Option.map_eq_some_iff.mp hrow'
    exact ⟨i, row', hrow', by rwa [(Prod.mk.inj heq).2]⟩

/-- A row with the same globals keeps symbols and slots in step. -/
theorem Rerows.globalsAgree (h : Rerows d d' i row') (hrow : d.assembly.modules[i]? = some row)
    (hkept : (row'.id, row'.globals) = (row.id, row.globals))
    (hglobals : d'.assembly.globals = d.assembly.globals)
    (hsymbols : d'.symbols.globals = d.symbols.globals) (hagree : d.GlobalsAgree) :
    d'.GlobalsAgree := by
  refine hagree.congr hglobals (fun key => by rw [hsymbols]) fun k => ?_
  rw [h.modules]
  exact Assembly.map_putModule hrow hkept k

/-- The state with other slots for one module. -/
def withGlobals (d : Declared) (i : ModuleIndex) (row : BlockIR.Module) (slots : List GlobalId)
    (globals : Array GlobalDecl) (entries : List ((String × String) × GlobalId)) : Declared where
  assembly := { d.assembly.putModule i { row with globals := slots } with globals := globals }
  symbols := { d.symbols with globals := entries }
  inits := d.inits

/-- New globals change one row. -/
theorem rerows_withGlobals (d : Declared) (i : ModuleIndex) (row : BlockIR.Module)
    (slots : List GlobalId) (decls : Array GlobalDecl)
    (entries : List ((String × String) × GlobalId)) :
    Rerows d (d.withGlobals i row slots decls entries) i { row with globals := slots } := ⟨rfl, rfl⟩

/-- A symbol that a module has already may be entered again. -/
theorem GlobalsAgree.repeat (h : d.GlobalsAgree) {name : String} {slot : GlobalId}
    (hrow : d.assembly.modules[i]? = some row)
    (hfound : globalIn? d.assembly.globals row name = some slot) :
    ({ d with symbols := { d.symbols with
      globals := ((row.id, name), slot) :: d.symbols.globals } } : Declared).GlobalsAgree := by
  have hmem := List.mem_of_find?_eq_some hfound
  have hname := List.find?_some hfound
  obtain ⟨name', hdecl, hlookup⟩ := h.symbol i row slot hrow hmem
  rw [hdecl, Option.any_some, beq_iff_eq] at hname
  refine h.congr rfl (fun key => ?_) fun _ => rfl
  rw [List.lookup_cons]
  split
  · rename_i hkey
    rw [beq_iff_eq.mp hkey, ← hname, hlookup]
  · rfl

/-- A global that a module does not have yet gets a new slot. -/
theorem GlobalsAgree.add (h : d.GlobalsAgree) {name : String} (hindexed : d.assembly.Indexed)
    (hrow : d.assembly.modules[i]? = some row)
    (hnone : globalIn? d.assembly.globals row name = none) :
    (d.withGlobals i row (row.globals ++ [d.assembly.globals.size])
      (d.assembly.globals.push ⟨name, i⟩)
      (((row.id, name), d.assembly.globals.size) :: d.symbols.globals)).GlobalsAgree := by
  have hput : (d.assembly.putModule i { row with globals :=
      row.globals ++ [d.assembly.globals.size] }).modules[i]? = _ := Assembly.module_putModule hrow
  have hkept : ∀ {g : Nat} {decl}, d.assembly.globals[g]? = some decl →
      (d.assembly.globals.push ⟨name, i⟩)[g]? = some decl := by
    intro g decl hg
    rw [Array.getElem?_push, if_neg, hg]
    exact Nat.ne_of_lt (Array.getElem?_eq_some_iff.mp hg).1
  constructor
  · intro key g hg
    -- the new symbol denotes the new slot, and every other symbol what it did
    by_cases hkey : key = (row.id, name)
    · subst hkey
      obtain rfl := Option.some.inj (List.lookup_cons_self.symm.trans hg)
      exact ⟨i, _, hput, rfl, Array.getElem?_push_size, by simp⟩
    · obtain ⟨j, row', hrow', hid, hdecl, hmem⟩ :=
        h.slot key g ((lookup_cons_of_ne hkey).symm.trans hg)
      by_cases hj : i = j
      · subst hj
        obtain rfl : row = row' := Option.some.inj (hrow.symm.trans hrow')
        exact ⟨i, _, hput, hid, hkept hdecl, List.mem_append_left _ hmem⟩
      · exact ⟨j, row', (Assembly.module_putModule_ne hj).trans hrow', hid, hkept hdecl, hmem⟩
  · intro j row' g hrow' hmem
    by_cases hj : i = j
    · subst hj
      obtain rfl := Option.some.inj (hput.symm.trans hrow')
      rcases List.mem_append.mp hmem with hmem | hmem
      · obtain ⟨name', hdecl, hlookup⟩ := h.symbol i row g hrow hmem
        -- the row had no slot of that name, so the new symbol hides none of the row
        have hne : name' ≠ name := by
          rintro rfl
          have hnot := List.find?_eq_none.mp hnone g hmem
          simp [hdecl] at hnot
        exact ⟨name', hkept hdecl, (lookup_cons_of_ne (by simp [hne])).trans hlookup⟩
      · obtain rfl := List.mem_singleton.mp hmem
        exact ⟨name, Array.getElem?_push_size, List.lookup_cons_self⟩
    · have hrow'' := (Assembly.module_putModule_ne hj).symm.trans hrow'
      obtain ⟨name', hdecl, hlookup⟩ := h.symbol j row' g hrow'' hmem
      -- ids are distinct, so it hides none of another row
      have hne : row'.id ≠ row.id := fun heq => hj (hindexed.eq_of_id_eq hrow hrow'' heq.symm)
      exact ⟨name', hkept hdecl, (lookup_cons_of_ne (by simp [hne])).trans hlookup⟩
  · intro g hg
    rcases Nat.lt_succ_iff_lt_or_eq.mp (Array.size_push _ ▸ hg) with hlt | rfl
    · obtain ⟨j, row', hrow', hmem⟩ := h.listed g hlt
      by_cases hj : i = j
      · subst hj
        obtain rfl : row = row' := Option.some.inj (hrow.symm.trans hrow')
        exact ⟨i, _, hput, List.mem_append_left _ hmem⟩
      · exact ⟨j, row', (Assembly.module_putModule_ne hj).trans hrow', hmem⟩
    · exact ⟨i, _, hput, by simp⟩

/-- Declaring a global gives its name a slot: the one it has, or a new one. -/
theorem declareGlobal_eq (hrow : d.assembly.modules[i]? = some row) (hindexed : d.assembly.Indexed)
    (h : d.GlobalsAgree) (g : GlobalDef) :
    ∃ slots globals slot,
      declareGlobal row.id i d g =
        .ok (d.withGlobals i row slots globals (((row.id, g.name), slot) :: d.symbols.globals)) ∧
      (d.withGlobals i row slots globals
        (((row.id, g.name), slot) :: d.symbols.globals)).GlobalsAgree := by
  have happly := Assembly.apply_ensureGlobal hrow g.name
  unfold declareGlobal
  cases hfound : globalIn? d.assembly.globals row g.name with
  | some slot =>
    rw [hfound] at happly
    have hsame : d.withGlobals i row row.globals d.assembly.globals
        (((row.id, g.name), slot) :: d.symbols.globals) =
        { d with symbols := { d.symbols with
          globals := ((row.id, g.name), slot) :: d.symbols.globals } } := by
      simp only [withGlobals, Assembly.putModule_self hrow]
    refine ⟨row.globals, d.assembly.globals, slot, ?_, hsame ▸ h.repeat hrow hfound⟩
    rw [assemble_eq_ok happly, hsame]
    rfl
  | none =>
    rw [hfound] at happly
    refine ⟨_, _, _, ?_, h.add hindexed hrow hfound⟩
    rw [assemble_eq_ok happly]
    rfl

/-- Rows and symbols find the same slots. -/
theorem GlobalsAgree.globalIn?_eq_lookup (h : d.GlobalsAgree) (hindexed : d.assembly.Indexed)
    (hrow : d.assembly.modules[i]? = some row) (name : String) :
    globalIn? d.assembly.globals row name = d.symbols.globals.lookup (row.id, name) := by
  cases hfound : globalIn? d.assembly.globals row name with
  | some g =>
    have hname := List.find?_some hfound
    obtain ⟨name', hdecl, hlookup⟩ := h.symbol i row g hrow (List.mem_of_find?_eq_some hfound)
    rw [hdecl, Option.any_some, beq_iff_eq] at hname
    rw [← hname, hlookup]
  | none =>
    cases hlookup : d.symbols.globals.lookup (row.id, name) with
    | none => rfl
    | some g =>
      obtain ⟨j, row', hrow', hid, hdecl, hmem⟩ := h.slot _ g hlookup
      cases hindexed.eq_of_id_eq hrow' hrow hid
      cases hrow.symm.trans hrow'
      have hnone := List.find?_eq_none.mp hfound g hmem
      rw [hdecl, Option.any_some, beq_self_eq_true] at hnone
      exact absurd rfl hnone

/-- The globals that are there change nothing. -/
theorem withGlobals_self (hrow : d.assembly.modules[i]? = some row) :
    d.withGlobals i row row.globals d.assembly.globals d.symbols.globals = d := by
  simp only [withGlobals, Assembly.putModule_self hrow]

/-- **Globals are declared in turn**, with a symbol for each name. -/
theorem declareGlobals_eq : ∀ (globals : List GlobalDef) {d : Declared} {row : BlockIR.Module},
    d.assembly.modules[i]? = some row → d.assembly.Indexed → d.GlobalsAgree →
    ∃ slots decls entries,
      globals.foldlM (declareGlobal row.id i) d =
        .ok (d.withGlobals i row slots decls (entries ++ d.symbols.globals)) ∧
      (d.withGlobals i row slots decls (entries ++ d.symbols.globals)).GlobalsAgree ∧
      entries.map Prod.fst = (globals.map fun g => (row.id, g.name)).reverse
  | [], d, row, hrow, _, h => by
    refine ⟨row.globals, d.assembly.globals, [], ?_, ?_, rfl⟩
    · rw [List.nil_append, withGlobals_self hrow]
      rfl
    · rwa [List.nil_append, withGlobals_self hrow]
  | g :: globals, d, row, hrow, hindexed, h => by
    obtain ⟨slots, decls, slot, hrun, hagree⟩ := declareGlobal_eq hrow hindexed h g
    have hrerows := rerows_withGlobals d i row slots decls
      (((row.id, g.name), slot) :: d.symbols.globals)
    obtain ⟨slots', decls', entries, hrun', hagree', hkeys⟩ :=
      declareGlobals_eq globals (hrerows.module_eq hrow) (hrerows.indexed hrow rfl hindexed) hagree
    have hsame : (d.withGlobals i row slots decls
        (((row.id, g.name), slot) :: d.symbols.globals)).withGlobals i { row with globals := slots }
        slots' decls' (entries ++ ((row.id, g.name), slot) :: d.symbols.globals) =
        d.withGlobals i row slots' decls'
          ((entries ++ [((row.id, g.name), slot)]) ++ d.symbols.globals) := by
      simp [withGlobals, Assembly.putModule]
    refine ⟨slots', decls', entries ++ [((row.id, g.name), slot)], ?_, ?_, ?_⟩
    · rw [List.foldlM_cons, hrun, ← hsame]
      exact hrun'
    · rw [← hsame]
      exact hagree'
    · rw [List.map_append, hkeys, List.map_cons (l := globals), List.reverse_cons]
      rfl

/-! ## Functions -/

/-- The symbols of the functions of a module, the latest first. -/
def functionEntries (id : String) (i : ModuleIndex) (first : Nat) (functions : List FunctionDef) :
    List ((String × String) × FunctionRef) :=
  ((functions.zipIdx first).map fun entry => ((id, entry.1.name), ⟨i, entry.2⟩)).reverse

/-- A function cannot be declared because the module has one of its name. -/
def Repeats (id : String) (names : List String) (e : LoweringError) : Prop :=
  ∃ name, e = .structure (.duplicateFunction id name) ∧ 1 < names.count name

/-- The state with other functions for one module. -/
def withFunctions (d : Declared) (i : ModuleIndex) (row : BlockIR.Module)
    (functions : Array Function) (entries : List ((String × String) × FunctionRef)) : Declared where
  assembly := d.assembly.putModule i { row with functions := functions }
  symbols := { d.symbols with functions := entries }
  inits := d.inits

/-- New functions change one row. -/
theorem rerows_withFunctions (d : Declared) (i : ModuleIndex) (row : BlockIR.Module)
    (functions : Array Function) (entries : List ((String × String) × FunctionRef)) :
    Rerows d (d.withFunctions i row functions entries) i { row with functions := functions } :=
  ⟨rfl, rfl⟩

/-- A placeholder is added unless the module has a function of its name. -/
theorem assemble_defineFunction (hrow : d.assembly.modules[i]? = some row) (name : String)
    (params : List String) :
    d.assemble (Assembly.defineFunction i (Function.empty name params)) =
      if name ∈ row.functions.toList.map (·.name) then
        .error (.structure (.duplicateFunction row.id name))
      else .ok (⟨i, row.functions.size⟩, d.withFunctions i row
        (row.functions.push (Function.empty name params)) d.symbols.functions) := by
  have happly := Assembly.apply_defineFunction hrow (Function.empty name params)
  rw [assemble, happly]
  by_cases hmem : name ∈ row.functions.toList.map (·.name)
  · rw [if_pos (show (Function.empty name params).name ∈ _ from hmem), if_pos hmem]
    rfl
  · rw [if_neg (show (Function.empty name params).name ∉ _ from hmem), if_neg hmem]
    rfl

/-- A function of a declared module can be made its initializer. -/
theorem assemble_markInit (hrow : d.assembly.modules[i]? = some row) (k : Nat) :
    d.assemble (Assembly.markInit ⟨i, k⟩) =
      .ok ((), { d with assembly := d.assembly.putModule i { row with init := some k } }) :=
  assemble_eq_ok (Assembly.apply_markInit hrow)

/-- **Functions are declared when their names are new**, each with an empty body. -/
theorem declareFunctions_decides : ∀ (functions : List FunctionDef) {d : Declared}
    {row : BlockIR.Module}, d.assembly.modules[i]? = some row →
    (row.functions.toList.map (·.name)).Nodup →
    Decides (functions.foldlM (declareFunction row.id i) d)
      (row.functions.toList.map (·.name) ++ functions.map (·.name)).Nodup
      (· = d.withFunctions i row
        (row.functions ++ (functions.map fun f => Function.empty f.name f.params).toArray)
        (functionEntries row.id i row.functions.size functions ++ d.symbols.functions))
      (Repeats row.id (row.functions.toList.map (·.name) ++ functions.map (·.name)))
  | [], d, row, hrow, hnames => by
    refine (Decides.of_ok rfl ?_).imp (iff_of_true trivial (by simpa using hnames))
      (fun _ _ h => h) fun _ _ h => h
    simp [withFunctions, Assembly.putModule_self hrow, functionEntries]
  | f :: functions, d, row, hrow, hnames => by
    rw [List.foldlM_cons, declareFunction, assemble_defineFunction hrow]
    -- the names that are taken are those of the row, and it grows with the induction
    by_cases hmem : f.name ∈ row.functions.toList.map (·.name)
    · rw [if_pos hmem]
      refine Decides.of_error rfl (fun hnodup => ?_) ⟨f.name, rfl, ?_⟩
      · exact (List.nodup_append.mp hnodup).2.2 _ hmem _ List.mem_cons_self rfl
      · have hcount := List.count_pos_iff.mpr hmem
        rw [List.count_append, List.map_cons, List.count_cons_self]
        omega
    · rw [if_neg hmem]
      have hnames' : ((row.functions.push (Function.empty f.name f.params)).toList.map
          (·.name)).Nodup := by
        rw [Array.toList_push, List.map_append, List.nodup_append]
        refine ⟨hnames, List.nodup_singleton _, ?_⟩
        rintro _ hname _ hf rfl
        obtain rfl := List.mem_singleton.mp hf
        exact hmem hname
      have hassoc : (row.functions.push (Function.empty f.name f.params)).toList.map (·.name) ++
          functions.map (·.name) = row.functions.toList.map (·.name) ++
            (f :: functions).map (·.name) := by
        simp [Function.empty]
      have hrerows := rerows_withFunctions d i row
        (row.functions.push (Function.empty f.name f.params))
        (((row.id, f.name), ⟨i, row.functions.size⟩) :: d.symbols.functions)
      have hnext := declareFunctions_decides functions (hrerows.module_eq hrow) hnames'
      rw [← hassoc]
      refine hnext.imp Iff.rfl ?_ fun _ _ h => h
      rintro _ - rfl
      simp [withFunctions, Assembly.putModule, functionEntries, List.zipIdx_cons]

/-- The initializer of a module that has one, with its place. -/
def initEntries (id : String) (i : ModuleIndex) (m : Module) : List (String × Module × FunctionRef) :=
  if m.HasInit then [(id, m, ⟨i, m.functions.length⟩)] else []

/-- Declaring the initializer completes the outline of a module. -/
theorem declareInit_decides {m : Module} (hrow : d.assembly.modules[i]? = some row)
    (hfunctions : row.functions.toList =
      m.functions.map fun f => Function.empty f.name f.params) (hinit : row.init = none) :
    Decides (declareInit row.id m i d) (m.HasInit → initName ∉ m.functions.map (·.name))
      (· = { d with
        assembly := d.assembly.putModule i
          { row with functions := m.outline.toArray, init := m.initIndex }
        inits := d.inits ++ initEntries row.id i m })
      (Repeats row.id m.names) := by
  have hhas : (m.globals.any fun g => g.init.isSome) = true ↔ m.HasInit := List.any_eq_true
  have hnames : row.functions.toList.map (·.name) = m.functions.map (·.name) := by
    rw [hfunctions, List.map_map]
    rfl
  have hsize : row.functions.size = m.functions.length := by
    rw [← Array.length_toList, hfunctions, List.length_map]
  unfold declareInit
  by_cases h : m.HasInit
  · rw [if_pos (hhas.mpr h)]
    rw [assemble_defineFunction hrow, hnames, hsize]
    by_cases hmem : initName ∈ m.functions.map (·.name)
    · rw [if_pos hmem]
      refine Decides.of_error rfl (fun hfree => hfree h hmem) ⟨initName, rfl, ?_⟩
      have hcount := List.count_pos_iff.mpr hmem
      rw [Module.names, if_pos h, List.count_append, List.count_singleton_self]
      omega
    · rw [if_neg hmem]
      change Decides (Declared.assemble _ _ >>= _) _ _ _
      rw [assemble_markInit ((rerows_withFunctions _ _ _ _ _).module_eq hrow)]
      refine (Decides.of_ok rfl ?_).imp (iff_of_true trivial fun _ => hmem)
        (fun _ _ h => h) fun _ _ h => h
      have houtline : row.functions.push (Function.empty initName []) = m.outline.toArray := by
        rw [← Array.toList_inj, Array.toList_push, hfunctions]
        simp [Module.outline, h]
      simp [withFunctions, Assembly.putModule, houtline, Module.initIndex, initEntries, h]
  · rw [if_neg (fun hany => h (hhas.mp hany))]
    refine (Decides.of_ok rfl ?_).imp (iff_of_true trivial fun h' => absurd h' h)
      (fun _ _ h => h) fun _ _ h => h
    have hsame : ({ row with functions := row.functions, init := none } : BlockIR.Module) = row := by
      rw [← hinit]
    simp [Module.outline, Module.initIndex, initEntries, h, ← hfunctions, hsame,
      Assembly.putModule_self hrow]

/-! ## Modules -/

/-- The state once the contents of a module have been declared. -/
def withContents (d : Declared) (modules : List (String × Module)) (i : ModuleIndex) (id : String)
    (m : Module) (slots : List GlobalId) (decls : Array GlobalDecl)
    (entries : List ((String × String) × GlobalId)) : Declared where
  assembly := { d.assembly.putModule i (rowOf modules id m slots) with globals := decls }
  symbols := ⟨functionEntries id i 0 m.functions ++ d.symbols.functions, entries⟩
  inits := d.inits ++ initEntries id i m

/-- **The contents of a module can be declared exactly when its function names are
distinct.** -/
theorem declareContents_decides {modules : List (String × Module)} {m : Module}
    (hrow : d.assembly.modules[i]? = some row) (hblank : row = { id := id })
    (hindexed : d.assembly.Indexed) (hagree : d.GlobalsAgree)
    (himports : ∀ id ∈ m.imports,
      ∃ row, d.assembly.modules[positionIn modules id]? = some row ∧ row.id = id) :
    Decides (declareContents d (id, m)) m.names.Nodup
      (fun d' => ∃ slots decls entries,
        d' = d.withContents modules i id m slots decls (entries ++ d.symbols.globals) ∧
        (d.withContents modules i id m slots decls (entries ++ d.symbols.globals)).GlobalsAgree ∧
        entries.map Prod.fst = (m.globals.map fun g => (id, g.name)).reverse)
      (Repeats id m.names) := by
  obtain ⟨hid, hnone, himports₀, hinit⟩ : row.id = id ∧ row.functions = #[] ∧ row.imports = [] ∧
      row.init = none := by
    rw [hblank]
    exact ⟨rfl, rfl, rfl, rfl⟩
  clear hblank
  subst hid
  -- imports and globals are always accepted; what is refused is a function, or the
  -- initializer behind them, under a name that is taken
  have hrun₁ := declareImports_eq (positionIn modules) m.imports hrow hindexed himports
  rw [himports₀] at hrun₁
  have hrerows₁ := rerows_withImports d i row
    ((m.imports.map (positionIn modules)).foldl Assembly.addImport [])
  generalize heq : (m.imports.map (positionIn modules)).foldl Assembly.addImport [] =
    imports at hrun₁ hrerows₁
  have hrow₁ := hrerows₁.module_eq hrow
  obtain ⟨slots, decls, entries, hrun₂, hagree₂, hkeys⟩ :=
    declareGlobals_eq m.globals hrow₁ (hrerows₁.indexed hrow rfl hindexed)
      (hrerows₁.globalsAgree hrow rfl rfl rfl hagree)
  have hrerows₂ := rerows_withGlobals (d.withImports i row imports) i
    { row with imports := imports } slots decls (entries ++ d.symbols.globals)
  have hrow₂ := hrerows₂.module_eq hrow₁
  have hagree₃ : (d.withContents modules i row.id m slots decls
      (entries ++ d.symbols.globals)).GlobalsAgree := by
    have hrerows₃ : Rerows ((d.withImports i row imports).withGlobals i
        { row with imports := imports } slots decls (entries ++ d.symbols.globals))
        (d.withContents modules i row.id m slots decls (entries ++ d.symbols.globals)) i
        (rowOf modules row.id m slots) :=
      ⟨by simp [withContents, withGlobals, withImports, Assembly.putModule], rfl⟩
    exact hrerows₃.globalsAgree hrow₂ rfl rfl rfl hagree₂
  have hrun₃ := declareFunctions_decides m.functions hrow₂ (by simp [hnone])
  change Decides (d.moduleIndex row.id >>= _) _ _ _
  rw [moduleIndex_eq_ok (hindexed.moduleIndex?_eq_some hrow)]
  change Decides (List.foldlM _ _ _ >>= _) _ _ _
  rw [hrun₁]
  change Decides (List.foldlM _ _ _ >>= _) _ _ _
  rw [hrun₂, Module.names_nodup_iff]
  change Decides (List.foldlM _ _ _ >>= _) _ _ _
  refine Decides.bind (hrun₃.imp ?_ (fun _ _ h => h) ?_) ?_
  · simp [hnone]
  · rintro _ - ⟨name, rfl, hcount⟩
    refine ⟨name, rfl, ?_⟩
    simp only [hnone, List.map_nil, List.nil_append] at hcount
    rw [Module.names, List.count_append]
    omega
  · rintro _ rfl
    have hrerows₃ := rerows_withFunctions ((d.withImports i row imports).withGlobals i
      { row with imports := imports } slots decls (entries ++ d.symbols.globals)) i
      { row with imports := imports, globals := slots }
    refine (declareInit_decides ((hrerows₃ _ _).module_eq hrow₂) ?_ hinit).imp Iff.rfl ?_
      fun _ _ h => h
    · simp [hnone]
    · rintro _ - rfl
      refine ⟨slots, decls, entries, ?_, hagree₃, hkeys⟩
      simp [withContents, withFunctions, withGlobals, withImports, Assembly.putModule, rowOf,
        hnone, heq]

/-! ## All modules -/

/-- The symbols of the functions of a module denote them by their positions. -/
theorem lookup_functionEntries {functions : List FunctionDef} (h : (functions.map (·.name)).Nodup)
    (id' name : String) (ref : FunctionRef) :
    (functionEntries id i 0 functions).lookup (id', name) = some ref ↔
      id' = id ∧ ref.module = i ∧ ∃ f, functions[ref.index]? = some f ∧ f.name = name := by
  rw [lookup_eq_some_iff_mem]
  · simp only [functionEntries, List.mem_reverse, List.mem_map, Prod.mk.injEq, Prod.exists,
      List.mem_zipIdx_iff_getElem?]
    constructor
    · rintro ⟨f, k, hf, ⟨rfl, rfl⟩, rfl⟩
      exact ⟨rfl, rfl, f, hf, rfl⟩
    · rintro ⟨rfl, rfl, f, hf, rfl⟩
      exact ⟨f, ref.index, hf, ⟨rfl, rfl⟩, rfl⟩
  · have hkeys : (functionEntries id i 0 functions).map Prod.fst =
        ((functions.map (·.name)).map fun name => (id, name)).reverse := by
      conv_rhs => rw [← List.zipIdx_map_fst 0 functions]
      simp only [functionEntries, List.map_reverse, List.map_map]
      rfl
    rw [hkeys, List.nodup_reverse]
    exact h.map fun _ _ heq => (Prod.mk.inj heq).2

/-- A module is listed for initialization when it has an initial value. -/
theorem mem_initEntries {m m' : Module} {id' : String} {ref : FunctionRef} :
    (id', m', ref) ∈ initEntries id i m ↔
      (ref.module = i ∧ (id, m) = (id', m')) ∧ m'.HasInit ∧
        ref.index = m'.functions.length := by
  unfold initEntries
  split
  · rename_i hinit
    rw [List.mem_singleton]
    constructor
    · rintro ⟨⟩
      exact ⟨⟨rfl, rfl⟩, hinit, rfl⟩
    · rintro ⟨⟨hmodule, heq⟩, -, hindex⟩
      obtain ⟨_, _⟩ := ref
      cases heq
      cases hmodule
      cases hindex
      rfl
  · rename_i hnone
    refine iff_of_false List.not_mem_nil ?_
    rintro ⟨⟨-, heq⟩, hinit, -⟩
    cases heq
    exact hnone hinit

/-- **What declaring some modules of a list has left**: their rows and symbols, and
blank rows for the others. -/
structure Covers (modules done : List (String × Module)) (d : Declared) : Prop where
  indexed : d.assembly.Indexed
  ids : d.assembly.ids = modules.map Prod.fst
  rows : ∀ (i : Nat) id m, done[i]? = some (id, m) →
    ∃ slots, d.assembly.modules[i]? = some (rowOf modules id m slots)
  blank : ∀ (i : Nat) id m, done.length ≤ i → modules[i]? = some (id, m) →
    d.assembly.modules[i]? = some { id := id }
  functions : ∀ id name ref, d.symbols.functions.lookup (id, name) = some ref ↔
    ∃ m f, done[ref.module]? = some (id, m) ∧ m.functions[ref.index]? = some f ∧ f.name = name
  globals : ∀ id name, (d.symbols.globals.lookup (id, name)).isSome = true ↔
    ∃ m, (id, m) ∈ done ∧ ∃ g ∈ m.globals, g.name = name
  inits : ∀ id m ref, (id, m, ref) ∈ d.inits ↔
    done[ref.module]? = some (id, m) ∧ m.HasInit ∧ ref.index = m.functions.length
  agree : d.GlobalsAgree

namespace Covers

variable {modules done rest : List (String × Module)} {m : Module}

/-- There is one row for each module. -/
theorem exists_listed (h : Covers modules done d) {k : Nat}
    (hrow : d.assembly.modules[k]? = some row) : ∃ listed, modules[k]? = some listed := by
  have hlength := congrArg List.length h.ids
  rw [Assembly.ids, List.length_map, List.length_map, Array.length_toList] at hlength
  exact ⟨_, List.getElem?_eq_getElem (hlength ▸ (Array.getElem?_eq_some_iff.mp hrow).1)⟩

/-- Every module has its row. -/
theorem exists_row (h : Covers modules done d) (hid : id ∈ modules.map Prod.fst) :
    ∃ row, d.assembly.modules[positionIn modules id]? = some row ∧ row.id = id := by
  have hget : (d.assembly.ids)[positionIn modules id]? = some id := by
    rw [h.ids]
    exact List.getElem?_idxOf hid
  simp only [Assembly.ids, List.getElem?_map, Array.getElem?_toList] at hget
  exact Option.map_eq_some_iff.mp hget

/-- One more module is the last one. -/
theorem getElem?_concat {x : String × Module} {k : Nat} {y : String × Module} :
    (done ++ [x])[k]? = some y ↔ done[k]? = some y ∨ k = done.length ∧ x = y := by
  rw [List.getElem?_append]
  split
  · rename_i hlt
    exact ⟨.inl, fun h => h.resolve_right fun heq => Nat.ne_of_lt hlt heq.1⟩
  · rename_i hle
    have hnone : done[k]? = none := List.getElem?_eq_none (Nat.le_of_not_lt hle)
    rw [hnone, List.getElem?_singleton]
    simp only [reduceCtorEq, false_or, Option.ite_none_right_eq_some, Option.some.injEq]
    exact and_congr_left fun _ => by omega

/-- With those of the next module, the symbols of functions are still told by the
modules. -/
theorem lookup_functions_concat (h : Covers modules done d) (hfresh : ∀ m', (id, m') ∉ done)
    (hnames : (m.functions.map (·.name)).Nodup) (id' name : String) (ref : FunctionRef) :
    (functionEntries id done.length 0 m.functions ++ d.symbols.functions).lookup (id', name) =
        some ref ↔
      ∃ m' f, (done ++ [(id, m)])[ref.module]? = some (id', m') ∧
        m'.functions[ref.index]? = some f ∧ f.name = name := by
  rw [List.lookup_append, Option.or_eq_some_iff, lookup_functionEntries hnames, h.functions]
  constructor
  · rintro (⟨rfl, hmodule, f, hf, hname⟩ | ⟨-, m', f, hm', hf, hname⟩)
    · exact ⟨m, f, getElem?_concat.mpr (.inr ⟨hmodule, rfl⟩), hf, hname⟩
    · exact ⟨m', f, getElem?_concat.mpr (.inl hm'), hf, hname⟩
  · rintro ⟨m', f, hm', hf, hname⟩
    rcases getElem?_concat.mp hm' with hdone | ⟨hmodule, heq⟩
    · -- no symbol of the next module is one of a module before it
      refine .inr ⟨?_, m', f, hdone, hf, hname⟩
      rw [Option.eq_none_iff_forall_ne_some]
      intro ref' href'
      obtain ⟨rfl, -⟩ := (lookup_functionEntries hnames _ _ _).mp href'
      exact hfresh m' (List.mem_of_getElem? hdone)
    · cases heq
      exact .inl ⟨rfl, hmodule, f, hf, hname⟩

/-- So are those of globals. -/
theorem lookup_globals_concat (h : Covers modules done d)
    {entries : List ((String × String) × GlobalId)}
    (hkeys : entries.map Prod.fst = (m.globals.map fun g => (id, g.name)).reverse)
    (id' name : String) :
    ((entries ++ d.symbols.globals).lookup (id', name)).isSome = true ↔
      ∃ m', (id', m') ∈ done ++ [(id, m)] ∧ ∃ g ∈ m'.globals, g.name = name := by
  rw [isSome_lookup_iff, List.map_append, List.mem_append, hkeys, ← isSome_lookup_iff, h.globals,
    List.mem_reverse, List.mem_map]
  constructor
  · rintro (⟨g, hg, heq⟩ | ⟨m', hm', hg⟩)
    · cases heq
      exact ⟨m, by simp, g, hg, rfl⟩
    · exact ⟨m', List.mem_append_left _ hm', hg⟩
  · rintro ⟨m', hm', g, hg, rfl⟩
    rcases List.mem_append.mp hm' with hm' | hm'
    · exact .inr ⟨m', hm', g, hg, rfl⟩
    · cases List.mem_singleton.mp hm'
      exact .inl ⟨g, hg, rfl⟩

/-- Declaring the contents of the next module. -/
theorem withContents (h : Covers modules done d) (heq : modules = done ++ (id, m) :: rest)
    (hdistinct : (modules.map Prod.fst).Nodup) (hnames : (m.functions.map (·.name)).Nodup)
    {slots : List GlobalId} {decls : Array GlobalDecl}
    {entries : List ((String × String) × GlobalId)}
    (hagree : (d.withContents modules done.length id m slots decls
      (entries ++ d.symbols.globals)).GlobalsAgree)
    (hkeys : entries.map Prod.fst = (m.globals.map fun g => (id, g.name)).reverse) :
    Covers modules (done ++ [(id, m)])
      (d.withContents modules done.length id m slots decls (entries ++ d.symbols.globals)) := by
  have hrow : d.assembly.modules[done.length]? = some { id := id } :=
    h.blank done.length id m (Nat.le_refl _) (by simp [heq])
  have hrerows : Rerows d (d.withContents modules done.length id m slots decls
      (entries ++ d.symbols.globals)) done.length (rowOf modules id m slots) :=
    ⟨rfl, rfl⟩
  have hother : ∀ {k : Nat}, done.length ≠ k →
      (d.withContents modules done.length id m slots decls
        (entries ++ d.symbols.globals)).assembly.modules[k]? = d.assembly.modules[k]? :=
    fun hk => Assembly.module_putModule_ne hk
  have hfresh : ∀ m', (id, m') ∉ done := by
    intro m' hm'
    rw [heq, List.map_append, List.nodup_append] at hdistinct
    exact hdistinct.2.2 _ (List.mem_map_of_mem hm') _ List.mem_cons_self rfl
  refine ⟨hrerows.indexed hrow rfl h.indexed, (hrerows.ids_eq hrow rfl).trans h.ids, ?_, ?_,
    h.lookup_functions_concat hfresh hnames, h.lookup_globals_concat hkeys, ?_, hagree⟩
  · intro k id' m' hk
    rcases getElem?_concat.mp hk with hk | ⟨rfl, heq'⟩
    · obtain ⟨slots', hrow'⟩ := h.rows k id' m' hk
      have hlt := (List.getElem?_eq_some_iff.mp hk).1
      exact ⟨slots', (hother (Nat.ne_of_gt hlt)).trans hrow'⟩
    · cases heq'
      exact ⟨slots, hrerows.module_eq hrow⟩
  · intro k id' m' hk hmodules
    rw [List.length_append, List.length_singleton] at hk
    exact (hother (by omega)).trans (h.blank k id' m' (by omega) hmodules)
  · intro id' m' ref
    change (id', m', ref) ∈ d.inits ++ initEntries id done.length m ↔ _
    rw [List.mem_append, h.inits, getElem?_concat, mem_initEntries, or_and_right]

end Covers

/-- The assembly with a blank row for each module. -/
def blank (modules : List (String × Module)) (index : List (String × ModuleIndex)) : Assembly where
  modules := (modules.map fun m => { id := m.1 }).toArray
  index := index

/-- Every module gets a blank row first, and is entered into the index. -/
theorem declareModules_eq : ∀ (rest done : List (String × Module)) (index),
    ((done ++ rest).map Prod.fst).Nodup → (blank done index).Indexed →
    ∃ index', rest.foldl (fun d m => declareModule d m.1) { assembly := blank done index } =
      ({ assembly := blank (done ++ rest) index' } : Declared) ∧
      (blank (done ++ rest) index').Indexed
  | [], done, index, _, hindexed => by
    rw [List.append_nil]
    exact ⟨index, rfl, hindexed⟩
  | (id, m) :: rest, done, index, hdistinct, hindexed => by
    -- ids are distinct, so this one is not in the index yet
    have hnone : (blank done index).moduleIndex? id = none := by
      rw [Option.eq_none_iff_forall_ne_some]
      intro i hi
      obtain ⟨row, hrow, hid⟩ := hindexed.exists_row hi
      obtain ⟨⟨id', m'⟩, hm', rfl⟩ := List.mem_map.mp
        (List.mem_toArray.mp (Array.mem_of_getElem? hrow))
      rw [List.map_append, List.nodup_append] at hdistinct
      exact hdistinct.2.2 _ (List.mem_map_of_mem hm') _ List.mem_cons_self hid
    have hpush : ∀ (a : Assembly), a = blank done index →
        ({ a with modules := a.modules.push { id := id }, index := (id, a.modules.size) :: a.index } :
          Assembly) = blank (done ++ [(id, m)]) ((id, done.length) :: index) := by
      rintro _ rfl
      simp [blank]
    have hindexed' := hindexed.push hnone
    rw [hpush _ rfl] at hindexed'
    obtain ⟨index', hnext⟩ := declareModules_eq rest (done ++ [(id, m)])
      ((id, done.length) :: index) (by simpa using hdistinct) hindexed'
    rw [List.append_assoc, List.singleton_append] at hnext
    refine ⟨index', ?_⟩
    rw [List.foldl_cons, declareModule, Assembly.run_ensureModule, hnone]
    simp only [hpush _ rfl]
    exact hnext

/-- With all ids declared and no contents, nothing is covered yet. -/
theorem covers_start {modules : List (String × Module)} (hdistinct : (modules.map Prod.fst).Nodup) :
    Covers modules [] (modules.foldl (fun d m => d.declareModule m.1) {}) := by
  obtain ⟨index, heq, hindexed⟩ := declareModules_eq modules [] [] hdistinct Assembly.Indexed.empty
  rw [List.nil_append] at heq hindexed
  change Covers modules [] (modules.foldl (fun d m => d.declareModule m.1)
    { assembly := blank [] [] })
  rw [heq]
  constructor
  · exact hindexed
  · simp [Assembly.ids, blank]
  · simp
  · intro k id m _ hm
    simp [blank, hm]
  · simp
  · simp
  · simp
  · constructor
    · simp
    · intro k row g hrow hmem
      obtain ⟨_, _, rfl⟩ := List.mem_map.mp (List.mem_toArray.mp (Array.mem_of_getElem? hrow))
      cases hmem
    · intro g hg
      exact absurd hg (Nat.not_lt_zero g)

/-- **The modules of a list can be declared exactly when in each the function names
are distinct.** -/
theorem ofModules_decides {modules : List (String × Module)}
    (hdistinct : (modules.map Prod.fst).Nodup)
    (hclosed : ∀ entry ∈ modules, ∀ i ∈ entry.2.imports, i ∈ modules.map Prod.fst) :
    Decides (ofModules modules) (∀ entry ∈ modules, entry.2.names.Nodup) (Covers modules modules)
      fun e => ∃ entry ∈ modules, Repeats entry.1 entry.2.names e := by
  refine Decides.foldlM (Covers modules) modules ?_ (covers_start hdistinct)
  rintro done ⟨id, m⟩ rest d heq h
  have hmem : (id, m) ∈ modules := by simp [heq]
  have hrow : d.assembly.modules[done.length]? = some { id := id } :=
    h.blank done.length id m (Nat.le_refl _) (by simp [heq])
  have hcontents := declareContents_decides hrow rfl h.indexed h.agree
    fun id' hid' => h.exists_row (hclosed _ hmem id' hid')
  refine hcontents.imp Iff.rfl ?_ fun e _ hbad => ⟨_, hmem, hbad⟩
  rintro _ hnames ⟨slots, decls, entries, rfl, hagree, hkeys⟩
  exact h.withContents heq hdistinct (m.names_nodup_iff.mp hnames).1 hagree hkeys

end Declared

end Source

end BlockIR
