import BlockIR.Proofs.Program.Reached
/-!
# The tables of an assembly

An assembly keeps four tables that refer to each other: the rows of its modules,
the index of their ids, the table of globals, and in each row the imports, the
slots and the functions of the module. `Alters` lists the changes that a step can
make to them when it keeps the names of functions, and `Consistent` says how the
tables fit together. Each change keeps them consistent, so they are after any
steps.
-/

namespace BlockIR

namespace Assembly

variable {a b : Assembly} {i j : ModuleIndex} {row row' : Module}

/-! ## Steps that keep names -/

/-- A step keeps the name of a function that it replaces. -/
def Act.KeepsName (a : Assembly) : Act → Prop
  | .putFunction ref function => ∀ f, a.function? ref = some f → function.name = f.name
  | _ => True

/-- **One assembly leads to another** by steps that keep names, in any order and
failed ones included. -/
inductive LeadsTo (a : Assembly) : Assembly → Prop
  | refl : LeadsTo a a
  | act {b : Assembly} (act : Act) : LeadsTo a b → act.KeepsName b → LeadsTo a (act.leave b)

/-- **The changes that a step can make**, each with what it found before. -/
inductive Alters (a : Assembly) : Assembly → Prop
  | nothing : Alters a a
  | addModule {id : String} : a.moduleIndex? id = none → Alters a { a with
      modules := a.modules.push { id := id }, index := (id, a.modules.size) :: a.index }
  | addImport {i j : ModuleIndex} {row row' : Module} : a.modules[i]? = some row →
      a.modules[j]? = some row' → j ∉ row.imports →
      Alters a (a.putModule i { row with imports := row.imports ++ [j] })
  | addGlobal {i : ModuleIndex} {row : Module} {name : String} : a.modules[i]? = some row →
      globalIn? a.globals row name = none →
      Alters a { a.putModule i { row with globals := row.globals ++ [a.globals.size] } with
        globals := a.globals.push ⟨name, i⟩ }
  | addFunction {i : ModuleIndex} {row : Module} {f : Function} : a.modules[i]? = some row →
      f.name ∉ row.functions.toList.map (·.name) →
      Alters a (a.putModule i { row with functions := row.functions.push f })
  | replaceFunction {i : ModuleIndex} {row : Module} {k : Nat} {f : Function} :
      a.modules[i]? = some row → (∀ f', row.functions[k]? = some f' → f.name = f'.name) →
      Alters a (a.putModule i { row with functions := row.functions.modify k fun _ => f })
  | setInit {i : ModuleIndex} {row : Module} {k : Nat} : a.modules[i]? = some row →
      Alters a (a.putModule i { row with init := some k })

/-- Adding a module is an alteration, or none. -/
theorem alters_ensureModule (id : String) : Alters a ((ensureModule id).run a).2 := by
  rw [run_ensureModule]
  cases hfound : a.moduleIndex? id with
  | some m => exact .nothing
  | none => exact .addModule hfound

/-- Adding an import is an alteration, or none. -/
theorem alters_importModule (m imported : ModuleIndex) :
    Alters a ((importModule m imported).apply a).2 := by
  cases hrow' : a.modules[imported]? with
  | none =>
    rw [apply_importModule_unknown hrow']
    exact .nothing
  | some row' =>
    cases hrow : a.modules[m]? with
    | none =>
      rw [apply_importModule_into_unknown hrow hrow']
      exact .nothing
    | some row =>
      rw [apply_importModule hrow hrow', Assembly.addImport]
      by_cases hmem : imported ∈ row.imports
      · rw [if_pos hmem, putModule_self hrow]
        exact .nothing
      · rw [if_neg hmem]
        exact .addImport hrow hrow' hmem

/-- Adding a global is an alteration, or none. -/
theorem alters_ensureGlobal (m : ModuleIndex) (name : String) :
    Alters a ((ensureGlobal m name).apply a).2 := by
  cases hrow : a.modules[m]? with
  | none =>
    unfold ensureGlobal
    rw [apply_requireModule_bind_unknown hrow]
    exact .nothing
  | some row =>
    rw [apply_ensureGlobal hrow]
    cases hfound : globalIn? a.globals row name with
    | some g => exact .nothing
    | none => exact .addGlobal hrow hfound

/-- Adding a function is an alteration, or none. -/
theorem alters_defineFunction (m : ModuleIndex) (f : Function) :
    Alters a ((defineFunction m f).apply a).2 := by
  cases hrow : a.modules[m]? with
  | none =>
    unfold defineFunction
    rw [apply_requireModule_bind_unknown hrow]
    exact .nothing
  | some row =>
    rw [apply_defineFunction hrow]
    by_cases hmem : f.name ∈ row.functions.toList.map (·.name)
    · rw [if_pos hmem]
      exact .nothing
    · rw [if_neg hmem]
      exact .addFunction hrow hmem

/-- Replacing a function by one of its name is an alteration, or none. -/
theorem alters_putFunction {ref : FunctionRef} {f : Function}
    (hname : ∀ f', a.function? ref = some f' → f.name = f'.name) :
    Alters a (a.putFunction ref f) := by
  cases hrow : a.modules[ref.module]? with
  | none =>
    rw [putFunction, modifyModule_unknown hrow]
    exact .nothing
  | some row =>
    rw [putFunction, modifyModule_eq hrow]
    refine .replaceFunction hrow fun f' hf' => hname f' ?_
    rw [function?, functionIn?, hrow]
    exact hf'

/-- Marking an initializer is an alteration, or none. -/
theorem alters_markInit (ref : FunctionRef) : Alters a ((markInit ref).apply a).2 := by
  cases hrow : a.modules[ref.module]? with
  | none =>
    unfold markInit updateModule
    rw [apply_requireModule_bind_unknown hrow]
    exact .nothing
  | some row =>
    rw [apply_markInit hrow]
    exact .setInit hrow

/-- **A step makes one of the changes**, or none. -/
theorem alters_leave (act : Act) (hact : act.KeepsName a) : Alters a (act.leave a) := by
  cases act with
  | ensureModule id => exact alters_ensureModule id
  | importModule m imported => exact alters_importModule m imported
  | ensureGlobal m name => exact alters_ensureGlobal m name
  | defineFunction m f => exact alters_defineFunction m f
  | putFunction ref f => exact alters_putFunction hact
  | markInit ref => exact alters_markInit ref

/-! ## Consistency -/

/-- **A row fits its place** among so many modules and with these globals. -/
structure RowFits (count : Nat) (globals : Array GlobalDecl) (i : ModuleIndex) (row : Module) :
    Prop where
  /-- Imports are of modules that exist. -/
  imports : ∀ j ∈ row.imports, j < count
  importsOnce : row.imports.Nodup
  /-- The module lists the slots that are declared for it, and no others. -/
  globals : ∀ g, g ∈ row.globals ↔ ∃ name, globals[g]? = some ⟨name, i⟩
  globalsOnce : row.globals.Nodup
  functions : (row.functions.toList.map (·.name)).Nodup

/-- **The tables of an assembly are consistent.** -/
structure Consistent (a : Assembly) : Prop where
  indexed : a.Indexed
  rows : ∀ i row, a.modules[i]? = some row → RowFits a.modules.size a.globals i row
  /-- Globals are declared for modules that exist. -/
  declared : ∀ (g : GlobalId) decl, a.globals[g]? = some decl → decl.module < a.modules.size
  /-- No two globals of a module share a name. -/
  distinct : ∀ (g g' : GlobalId) decl, a.globals[g]? = some decl → a.globals[g']? = some decl →
    g = g'

/-- A row lists only globals that are declared. -/
theorem RowFits.lt_size {globals : Array GlobalDecl} {count : Nat} {g : GlobalId}
    (h : RowFits count globals i row) (hg : g ∈ row.globals) : g < globals.size := by
  obtain ⟨name, hdecl⟩ := (h.globals g).mp hg
  exact (Array.getElem?_eq_some_iff.mp hdecl).1

namespace Consistent

/-- **The empty assembly is consistent.** -/
theorem empty : Consistent {} where
  indexed := Indexed.empty
  rows i row hrow := by simp at hrow
  declared g decl hg := by simp at hg
  distinct g g' decl hg := by simp at hg

/-- A row may be replaced by one that has its id and fits its place. -/
theorem putModule (h : a.Consistent) (hrow : a.modules[i]? = some row) (hid : row'.id = row.id)
    (hfits : RowFits a.modules.size a.globals i row') : (a.putModule i row').Consistent where
  indexed := h.indexed.congr rfl (ids_putModule hrow hid)
  rows k r hr := by
    have hsize : (a.putModule i row').modules.size = a.modules.size := Array.size_setIfInBounds
    rw [hsize]
    by_cases hk : i = k
    · subst hk
      obtain rfl := Option.some.inj ((module_putModule hrow).symm.trans hr)
      exact hfits
    · exact h.rows k r ((module_putModule_ne hk).symm.trans hr)
  declared g decl hg := by
    have hsize : (a.putModule i row').modules.size = a.modules.size := Array.size_setIfInBounds
    rw [hsize]
    exact h.declared g decl hg
  distinct := h.distinct

/-- A new module keeps an assembly consistent. -/
theorem addModule (h : a.Consistent) {id : String} (hnone : a.moduleIndex? id = none) :
    Consistent { a with
      modules := a.modules.push { id := id }, index := (id, a.modules.size) :: a.index } where
  indexed := h.indexed.push hnone
  rows i row hrow := by
    rw [Array.size_push]
    rw [Array.getElem?_push] at hrow
    split at hrow
    · -- no global is declared for the new module yet
      rename_i hi
      cases hrow
      refine ⟨nofun, List.nodup_nil, fun g => ?_, List.nodup_nil, List.nodup_nil⟩
      refine iff_of_false nofun ?_
      rintro ⟨name, hg⟩
      have hlt := h.declared g _ hg
      rw [hi] at hlt
      exact Nat.lt_irrefl _ hlt
    · have hfits := h.rows i row hrow
      exact { hfits with imports := fun j hj => Nat.lt_succ_of_lt (hfits.imports j hj) }
  declared g decl hg := by
    rw [Array.size_push]
    exact Nat.lt_succ_of_lt (h.declared g decl hg)
  distinct := h.distinct

/-- A new import keeps an assembly consistent. -/
theorem addImport (h : a.Consistent) (hrow : a.modules[i]? = some row)
    (hrow' : a.modules[j]? = some row') (hmem : j ∉ row.imports) :
    (a.putModule i { row with imports := row.imports ++ [j] }).Consistent := by
  have hfits := h.rows i row hrow
  have hj : j < a.modules.size := (Array.getElem?_eq_some_iff.mp hrow').1
  refine h.putModule hrow rfl { hfits with imports := ?_, importsOnce := ?_ }
  · intro k hk
    rcases List.mem_append.mp hk with hk | hk
    · exact hfits.imports k hk
    · rwa [List.mem_singleton.mp hk]
  · refine List.nodup_append.mpr ⟨hfits.importsOnce, List.nodup_singleton j, ?_⟩
    rintro k hk _ hj' rfl
    exact hmem (List.mem_singleton.mp hj' ▸ hk)

/-- A new global keeps an assembly consistent. -/
theorem addGlobal (h : a.Consistent) (hrow : a.modules[i]? = some row) {name : String}
    (hnone : globalIn? a.globals row name = none) :
    Consistent { a.putModule i { row with globals := row.globals ++ [a.globals.size] } with
      globals := a.globals.push ⟨name, i⟩ } := by
  have hfits := h.rows i row hrow
  have hsize : (a.putModule i { row with
      globals := row.globals ++ [a.globals.size] }).modules.size = a.modules.size :=
    Array.size_setIfInBounds
  -- the name is new in the table: the module would list a slot that is declared with it
  have hfresh : ∀ g : GlobalId, a.globals[g]? ≠ some ⟨name, i⟩ := by
    intro g hg
    have hnot := List.find?_eq_none.mp hnone g ((hfits.globals g).mpr ⟨name, hg⟩)
    simp [hg] at hnot
  refine ⟨h.indexed.congr rfl (ids_putModule hrow rfl), fun k r hr => ?_, fun g decl hg => ?_,
    fun g g' decl hg hg' => ?_⟩
  · simp only [hsize]
    by_cases hk : i = k
    · subst hk
      obtain rfl := Option.some.inj ((module_putModule hrow).symm.trans hr)
      refine { hfits with globals := fun g => ?_, globalsOnce := ?_ }
      · rw [List.mem_append, List.mem_singleton, hfits.globals, Array.getElem?_push]
        by_cases hg : g = a.globals.size
        · simp [hg]
        · simp [hg]
      · refine List.nodup_append.mpr ⟨hfits.globalsOnce, List.nodup_singleton _, ?_⟩
        rintro g hg _ hlast rfl
        exact Nat.lt_irrefl _ (List.mem_singleton.mp hlast ▸ hfits.lt_size hg)
    · have hother := h.rows k r ((module_putModule_ne hk).symm.trans hr)
      refine { hother with globals := fun g => ?_ }
      rw [hother.globals, Array.getElem?_push]
      by_cases hg : g = a.globals.size
      · simp [hg, hk]
      · simp [hg]
  · rw [Array.getElem?_push] at hg
    simp only [hsize]
    split at hg
    · cases hg
      exact (Array.getElem?_eq_some_iff.mp hrow).1
    · exact h.declared g decl hg
  · rw [Array.getElem?_push] at hg hg'
    split at hg <;> split at hg'
    · rename_i hlast hlast'
      exact hlast.trans hlast'.symm
    · cases hg
      exact absurd hg' (hfresh g')
    · cases hg'
      exact absurd hg (hfresh g)
    · exact h.distinct g g' decl hg hg'

/-- A function of a new name keeps an assembly consistent. -/
theorem addFunction (h : a.Consistent) (hrow : a.modules[i]? = some row) {f : Function}
    (hmem : f.name ∉ row.functions.toList.map (·.name)) :
    (a.putModule i { row with functions := row.functions.push f }).Consistent := by
  have hfits := h.rows i row hrow
  refine h.putModule hrow rfl { hfits with functions := ?_ }
  rw [Array.toList_push, List.map_append, List.nodup_append]
  refine ⟨hfits.functions, List.nodup_singleton _, ?_⟩
  rintro _ hname _ hf rfl
  obtain rfl := List.mem_singleton.mp hf
  exact hmem hname

/-- The names of functions when one of them is replaced by a namesake. -/
theorem names_modify {functions : Array Function} {k : Nat} {f : Function}
    (hname : ∀ f', functions[k]? = some f' → f.name = f'.name) :
    (functions.modify k fun _ => f).toList.map (·.name) = functions.toList.map (·.name) := by
  refine List.ext_getElem? fun n => ?_
  rw [List.getElem?_map, List.getElem?_map, Array.getElem?_toList, Array.getElem?_toList,
    Array.getElem?_modify]
  by_cases hn : k = n
  · subst hn
    cases hf' : functions[k]? with
    | none => simp
    | some f' => simp [hname f' hf']
  · rw [if_neg hn]

/-- A function in the place of one of its name keeps an assembly consistent. -/
theorem replaceFunction (h : a.Consistent) (hrow : a.modules[i]? = some row) {k : Nat} {f : Function}
    (hname : ∀ f', row.functions[k]? = some f' → f.name = f'.name) :
    (a.putModule i { row with functions := row.functions.modify k fun _ => f }).Consistent := by
  have hfits := h.rows i row hrow
  refine h.putModule hrow rfl { hfits with functions := ?_ }
  rw [names_modify hname]
  exact hfits.functions

/-- **Every change keeps the tables consistent.** -/
theorem alters (h : a.Consistent) (hab : Alters a b) : b.Consistent := by
  cases hab with
  | nothing => exact h
  | addModule hnone => exact h.addModule hnone
  | addImport hrow hrow' hmem => exact h.addImport hrow hrow' hmem
  | addGlobal hrow hnone => exact h.addGlobal hrow hnone
  | addFunction hrow hmem => exact h.addFunction hrow hmem
  | replaceFunction hrow hname => exact h.replaceFunction hrow hname
  | setInit hrow => exact h.putModule hrow rfl { h.rows _ _ hrow with }

end Consistent

/-- **Steps keep the tables consistent.** -/
theorem LeadsTo.consistent (hab : LeadsTo a b) (h : a.Consistent) : b.Consistent := by
  induction hab with
  | refl => exact h
  | act act _ hact ih => exact ih.alters (alters_leave act hact)

end Assembly

end BlockIR
