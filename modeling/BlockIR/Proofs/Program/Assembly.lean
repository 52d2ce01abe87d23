import BlockIR.Program.Assembly
import BlockIR.Proofs.Success
import Mathlib.Data.List.Nodup
/-!
# Assembly steps on one module

What each step does to an assembly when the module that it works on is known:
it puts a changed row in the place of the module's row. A module is found by its
id where the index agrees with the rows, which no step can change.
-/

namespace BlockIR

/-- Where names are distinct, the first of a name is the only one. -/
theorem findIdx?_name_eq_some {α : Type} {name : α → String} {xs : Array α} {n : String} {k : Nat}
    (hnames : (xs.toList.map name).Nodup) :
    xs.toList.findIdx? (fun x => name x == n) = some k ↔ (xs[k]?).map name = some n := by
  have hmap : xs.toList.findIdx? (fun x => name x == n) =
      (xs.toList.map name).findIdx? fun x => x == n := by
    rw [List.findIdx?_map]
    rfl
  have hget : (xs[k]?).map name = (xs.toList.map name)[k]? := by
    rw [List.getElem?_map, Array.getElem?_toList]
  rw [hmap, hget, List.findIdx?_eq_some_iff_getElem, List.getElem?_eq_some_iff]
  constructor
  · rintro ⟨hlt, hname, -⟩
    exact ⟨hlt, beq_iff_eq.mp hname⟩
  · rintro ⟨hlt, hname⟩
    refine ⟨hlt, beq_iff_eq.mpr hname, fun j hj hbeq => ?_⟩
    have hsame := (beq_iff_eq.mp hbeq).trans hname.symm
    exact Nat.ne_of_lt hj ((List.Nodup.getElem_inj_iff hnames).mp hsame)

/-- Where ids are distinct, an id has the index of its module. -/
theorem Program.moduleIndex?_eq_some {p : Program} {id : String} {i : ModuleIndex}
    (hids : (p.modules.toList.map (·.id)).Nodup) :
    p.moduleIndex? id = some i ↔ (p.modules[i]?).map (·.id) = some id :=
  findIdx?_name_eq_some hids

/-- Where names are distinct, a name has the index of its function. -/
theorem Module.function?_eq_some {row : Module} {name : String} {k : Nat}
    (hnames : (row.functions.toList.map (·.name)).Nodup) :
    row.function? name = some k ↔ (row.functions[k]?).map (·.name) = some name :=
  findIdx?_name_eq_some hnames

namespace Assembly

variable {a : Assembly} {i j : ModuleIndex} {row row' : Module}

/-- Put a module in the place of another. -/
def putModule (a : Assembly) (i : ModuleIndex) (row : Module) : Assembly :=
  { a with modules := a.modules.setIfInBounds i row }

/-- Changing a row that is there is putting the changed one in its place. -/
theorem modifyModule_eq (hrow : a.modules[i]? = some row) (g : Module → Module) :
    a.modifyModule i g = a.putModule i (g row) := by
  unfold modifyModule putModule
  congr 1
  refine Array.ext_getElem? fun k => ?_
  rw [Array.getElem?_modify, Array.getElem?_setIfInBounds]
  by_cases hk : i = k
  · subst hk
    rw [if_pos rfl, if_pos rfl, hrow, if_pos (Array.getElem?_eq_some_iff.mp hrow).1]
    rfl
  · rw [if_neg hk, if_neg hk]

/-- A row that is not there is not changed. -/
theorem modifyModule_unknown (hrow : a.modules[i]? = none) (g : Module → Module) :
    a.modifyModule i g = a := by
  unfold modifyModule
  congr 1
  refine Array.ext_getElem? fun k => ?_
  rw [Array.getElem?_modify]
  split
  · rename_i hk
    rw [← hk, hrow]
    rfl
  · rfl

/-- A row put in its own place changes nothing. -/
theorem putModule_self (hrow : a.modules[i]? = some row) : a.putModule i row = a := by
  unfold putModule
  congr 1
  refine Array.ext_getElem? fun k => ?_
  rw [Array.getElem?_setIfInBounds]
  split
  · rename_i hk
    rw [← hk, hrow, if_pos (Array.getElem?_eq_some_iff.mp hrow).1]
  · rfl

@[simp] theorem putModule_putModule : (a.putModule i row).putModule i row' = a.putModule i row' := by
  simp [putModule]

/-- The row that was put is found in its place. -/
theorem module_putModule (hrow : a.modules[i]? = some row) :
    (a.putModule i row').modules[i]? = some row' := by
  simp [putModule, (Array.getElem?_eq_some_iff.mp hrow).1]

/-- The other rows stay. -/
theorem module_putModule_ne (hne : i ≠ j) :
    (a.putModule i row).modules[j]? = a.modules[j]? := by
  simp [putModule, hne]

/-- What the change of one module leaves of each. -/
theorem map_putModule {β : Type} {f : Module → β} (hrow : a.modules[i]? = some row)
    (hf : f row' = f row) (k : Nat) :
    ((a.putModule i row').modules[k]?).map f = (a.modules[k]?).map f := by
  by_cases hk : i = k
  · subst hk
    rw [module_putModule hrow, hrow, Option.map_some, Option.map_some, hf]
  · rw [module_putModule_ne hk]

/-- The ids of the modules, in order. -/
def ids (a : Assembly) : List String := a.modules.toList.map (·.id)

/-- A row with the same id leaves the ids as they are. -/
theorem ids_putModule (hrow : a.modules[i]? = some row) (hid : row'.id = row.id) :
    (a.putModule i row').ids = a.ids := by
  refine List.ext_getElem? fun k => ?_
  simp only [ids, List.getElem?_map, Array.getElem?_toList]
  exact map_putModule hrow hid k

/-! ## The index -/

/-- **The index finds exactly the modules that are there**, by their ids. -/
def Indexed (a : Assembly) : Prop :=
  ∀ id (i : ModuleIndex), a.moduleIndex? id = some i ↔ (a.modules[i]?).map (·.id) = some id

namespace Indexed

/-- The index of an empty assembly is right. -/
theorem empty : Indexed {} := by
  intro id i
  simp [moduleIndex?]

/-- **A module is found by its id.** -/
theorem moduleIndex?_eq_some (h : a.Indexed) (hrow : a.modules[i]? = some row) :
    a.moduleIndex? row.id = some i := by
  rw [h, hrow, Option.map_some]

/-- What the index finds is there. -/
theorem exists_row (h : a.Indexed) {id : String} (hindex : a.moduleIndex? id = some i) :
    ∃ row, a.modules[i]? = some row ∧ row.id = id :=
  Option.map_eq_some_iff.mp ((h id i).mp hindex)

/-- No two modules have one id. -/
theorem eq_of_id_eq (h : a.Indexed) (hrow : a.modules[i]? = some row)
    (hrow' : a.modules[j]? = some row') (hid : row.id = row'.id) : i = j := by
  have hi := h.moduleIndex?_eq_some hrow
  rw [hid, h.moduleIndex?_eq_some hrow'] at hi
  exact (Option.some.inj hi).symm

/-- Ids are distinct where the index finds each module. -/
theorem nodup_ids (h : a.Indexed) : a.ids.Nodup := by
  rw [List.nodup_iff_getElem?_ne_getElem?]
  intro i j hij hj heq
  have hi : i < a.ids.length := Nat.lt_trans hij hj
  rw [ids, List.length_map, Array.length_toList] at hi hj
  simp only [ids, List.getElem?_map, Array.getElem?_toList, Array.getElem?_eq_getElem hi,
    Array.getElem?_eq_getElem hj, Option.map_some, Option.some.injEq] at heq
  exact Nat.ne_of_lt hij (h.eq_of_id_eq (Array.getElem?_eq_getElem hi)
    (Array.getElem?_eq_getElem hj) heq)

/-- Changes that leave the ids alone need no change of the index. -/
theorem congr {b : Assembly} (h : a.Indexed) (hindex : b.index = a.index) (hids : b.ids = a.ids) :
    b.Indexed := by
  intro id i
  have hi := congrArg (fun ids => ids[i]?) hids
  simp only [ids, List.getElem?_map, Array.getElem?_toList] at hi
  rw [moduleIndex?, hindex, hi]
  exact h id i

end Indexed

/-- A module is added unless there is one with the id. -/
theorem run_ensureModule (a : Assembly) (id : String) :
    (ensureModule id).run a =
      match a.moduleIndex? id with
      | some m => (m, a)
      | none => (a.modules.size, { a with
          modules := a.modules.push { id := id }
          index := (id, a.modules.size) :: a.index }) := by
  change StateT.run (match a.moduleIndex? id with
    | some m => pure m
    | none => do
      set { a with index := (id, a.modules.size) :: a.index, modules := a.modules.push { id := id } }
      return a.modules.size : StateM Assembly ModuleIndex) a = _
  cases a.moduleIndex? id with
  | some m => rfl
  | none => rfl

/-- A new module is entered into the index where it is put. -/
theorem Indexed.push (h : a.Indexed) {id : String} (hnone : a.moduleIndex? id = none) :
    Indexed { a with
      modules := a.modules.push { id := id }, index := (id, a.modules.size) :: a.index } := by
  intro id' i
  have hlast : a.modules[a.modules.size]? = none := Array.getElem?_eq_none (Nat.le_refl _)
  rw [moduleIndex?, List.lookup_cons]
  -- lookups of the new id find the last row, all others the rows before it
  by_cases hid : id' = id
  · subst hid
    rw [beq_self_eq_true, Option.some.injEq, Array.getElem?_push]
    constructor
    · rintro rfl
      rw [if_pos rfl]
      rfl
    · intro hi
      split at hi
      · rename_i heq
        exact heq.symm
      · rw [← h, hnone] at hi
        cases hi
  · rw [beq_false_of_ne hid, Array.getElem?_push]
    show a.moduleIndex? id' = some i ↔ _
    rw [h]
    split
    · rename_i heq
      rw [heq, hlast]
      refine iff_of_false nofun fun hi => hid ?_
      exact (Option.some.inj hi).symm
    · exact Iff.rfl

/-! ## Steps -/

/-- A module that is there passes when it is required. -/
theorem apply_requireModule (hrow : a.modules[i]? = some row) :
    (requireModule i).apply a = (.ok row, a) := by
  unfold requireModule
  rw [Transform.apply_bind_ok (Transform.apply_get _), hrow]
  rfl

/-- A module that is not there is reported. -/
theorem apply_requireModule_unknown (hrow : a.modules[i]? = none) :
    (requireModule i).apply a = (.error (.unknownModule i), a) := by
  unfold requireModule
  rw [Transform.apply_bind_ok (Transform.apply_get _), hrow]
  rfl

/-- A step that begins with the lookup of a module fails there if it is unknown. -/
theorem apply_requireModule_bind_unknown {α : Type} (hrow : a.modules[i]? = none)
    (k : Module → Assemble α) :
    (requireModule i >>= k).apply a = (.error (.unknownModule i), a) :=
  Transform.apply_bind_error (apply_requireModule_unknown hrow)

/-- A change of a module that is there succeeds. -/
theorem apply_updateModule (hrow : a.modules[i]? = some row) (g : Module → Module) :
    (updateModule i g).apply a = (.ok (), a.putModule i (g row)) := by
  unfold updateModule
  rw [Transform.apply_bind_ok (apply_requireModule hrow), Transform.apply_modify,
    modifyModule_eq hrow]

/-- The imports of a module with one more, unless it is there already. -/
def addImport (imports : List ModuleIndex) (j : ModuleIndex) : List ModuleIndex :=
  if j ∈ imports then imports else imports ++ [j]

/-- An import between two modules that are there is added unless it is there. -/
theorem apply_importModule (hrow : a.modules[i]? = some row) (hrow' : a.modules[j]? = some row') :
    (importModule i j).apply a =
      (.ok (), a.putModule i { row with imports := addImport row.imports j }) := by
  unfold importModule addImport
  rw [Transform.apply_bind_ok (apply_requireModule hrow'),
    Transform.apply_bind_ok (apply_requireModule hrow)]
  by_cases hj : j ∈ row.imports
  · simp only [hj, not_true_eq_false, if_false, if_true, putModule_self hrow]
    rfl
  · simp only [hj, not_false_eq_true, if_true, if_false]
    rw [Transform.apply_modify, modifyModule_eq hrow]

/-- The module that is imported is looked up first. -/
theorem apply_importModule_unknown (hrow' : a.modules[j]? = none) :
    (importModule i j).apply a = (.error (.unknownModule j), a) := by
  unfold importModule
  exact apply_requireModule_bind_unknown hrow' _

/-- An import into a module that is not there is reported. -/
theorem apply_importModule_into_unknown (hrow : a.modules[i]? = none)
    (hrow' : a.modules[j]? = some row') :
    (importModule i j).apply a = (.error (.unknownModule i), a) := by
  unfold importModule
  rw [Transform.apply_bind_ok (apply_requireModule hrow')]
  exact apply_requireModule_bind_unknown hrow _

/-- A global is added unless the module has one of the name. -/
theorem apply_ensureGlobal (hrow : a.modules[i]? = some row) (name : String) :
    (ensureGlobal i name).apply a =
      match globalIn? a.globals row name with
      | some g => (.ok g, a)
      | none => (.ok a.globals.size,
          { a.putModule i { row with globals := row.globals ++ [a.globals.size] } with
            globals := a.globals.push ⟨name, i⟩ }) := by
  unfold ensureGlobal
  rw [Transform.apply_bind_ok (apply_requireModule hrow),
    Transform.apply_bind_ok (Transform.apply_get _), global?, hrow, Option.bind_some]
  cases globalIn? a.globals row name with
  | some g => rfl
  | none =>
    have hrow' : ({ a with globals := a.globals.push ⟨name, i⟩ } : Assembly).modules[i]? =
        some row := hrow
    simp only
    rw [Transform.apply_bind_ok (Transform.apply_set _ _),
      Transform.apply_bind_ok (apply_updateModule hrow' _)]
    rfl

/-- A function is added unless the module has one of the name, which is reported. -/
theorem apply_defineFunction (hrow : a.modules[i]? = some row) (f : Function) :
    (defineFunction i f).apply a =
      if f.name ∈ row.functions.toList.map (·.name) then
        (.error (.duplicateFunction row.id f.name), a)
      else (.ok ⟨i, row.functions.size⟩,
        a.putModule i { row with functions := row.functions.push f }) := by
  have hmem : (row.function? f.name).isSome = true ↔ f.name ∈ row.functions.toList.map (·.name) := by
    rw [Module.function?, List.findIdx?_isSome, List.any_eq_true, List.mem_map]
    simp only [beq_iff_eq]
  unfold defineFunction
  rw [Transform.apply_bind_ok (apply_requireModule hrow)]
  by_cases h : f.name ∈ row.functions.toList.map (·.name)
  · rw [if_pos h, if_pos (hmem.mpr h)]
    rfl
  · rw [if_neg h, if_neg (fun h' => h (hmem.mp h'))]
    refine congrArg (Prod.mk _) ?_
    exact modifyModule_eq hrow _

/-- A function of a module that is there can be made its initializer. -/
theorem apply_markInit {f : FunctionRef} (hrow : a.modules[f.module]? = some row) :
    (markInit f).apply a = (.ok (), a.putModule f.module { row with init := some f.index }) :=
  apply_updateModule hrow _

/-! ## Functions in their places -/

/-- What a module keeps when its functions are replaced one for one. -/
def shapeOf (row : Module) : String × List GlobalId × List ModuleIndex × Option Nat × Nat :=
  (row.id, row.globals, row.imports, row.init, row.functions.size)

/-- Two assemblies differ in the code of their functions only. -/
structure SameShape (a b : Assembly) : Prop where
  globals : a.globals = b.globals
  rows : ∀ i : Nat, (a.modules[i]?).map shapeOf = (b.modules[i]?).map shapeOf

/-- An assembly has its own shape. -/
theorem SameShape.refl (a : Assembly) : SameShape a a := ⟨rfl, fun _ => rfl⟩

/-- Shapes that are the same twice are the same. -/
theorem SameShape.trans {a b c : Assembly} (hab : SameShape a b) (hbc : SameShape b c) :
    SameShape a c :=
  ⟨hab.globals.trans hbc.globals, fun i => (hab.rows i).trans (hbc.rows i)⟩

/-- Assemblies of one shape have the same rows but for code. -/
theorem SameShape.map_shapeOf {a b : Assembly} (h : SameShape a b) :
    a.modules.map shapeOf = b.modules.map shapeOf :=
  Array.ext_getElem? fun i => by rw [Array.getElem?_map, Array.getElem?_map, h.rows]

/-- Assemblies of one shape have the same module ids. -/
theorem SameShape.ids_eq {a b : Assembly} (h : SameShape a b) : a.ids = b.ids := by
  have hids := congrArg (fun shapes => shapes.toList.map Prod.fst) h.map_shapeOf
  simpa [ids, shapeOf, Function.comp_def] using hids

/-- Code in the place of other code leaves the shape. -/
theorem sameShape_putFunction (a : Assembly) (ref : FunctionRef) (f : Function) :
    SameShape (a.putFunction ref f) a := by
  refine ⟨rfl, fun i => ?_⟩
  simp only [putFunction, modifyModule, Array.getElem?_modify]
  split
  · rename_i hi
    rw [Option.map_map]
    congr 1
    funext row
    simp [shapeOf]
  · rfl

/-- Assemblies of one shape have functions in the same places. -/
theorem SameShape.isSome_function? {b : Assembly} (h : SameShape a b) (ref : FunctionRef) :
    (a.function? ref).isSome = (b.function? ref).isSome := by
  have hrows := h.rows ref.module
  unfold function? functionIn?
  cases ha : a.modules[ref.module]? with
  | none =>
    rw [ha] at hrows
    rw [Option.map_eq_none_iff.mp hrows.symm]
  | some row =>
    rw [ha] at hrows
    obtain ⟨row', hb, hshape⟩ := Option.map_eq_some_iff.mp hrows.symm
    have hsize : row'.functions.size = row.functions.size :=
      congrArg (fun shape => shape.2.2.2.2) hshape
    rw [hb, Option.bind_some, Option.bind_some, Bool.eq_iff_iff, Option.isSome_iff_ne_none,
      Option.isSome_iff_ne_none, ne_eq, ne_eq, Array.getElem?_eq_none_iff,
      Array.getElem?_eq_none_iff, hsize]

/-- A change of a module is seen in its own functions, and in no others. -/
theorem function?_modifyModule (a : Assembly) (m : ModuleIndex) (g : Module → Module)
    (ref : FunctionRef) :
    (a.modifyModule m g).function? ref =
      if m = ref.module then (a.modules[m]?).bind fun module => (g module).functions[ref.index]?
      else a.function? ref := by
  simp only [function?, functionIn?, modifyModule, Array.getElem?_modify]
  by_cases h : m = ref.module
  · simp only [h, if_true, Option.bind_map]
    rfl
  · simp only [h, if_false]

/-- New code is found in the place where there was some. -/
theorem function?_putFunction (a : Assembly) (ref ref' : FunctionRef) (f : Function) :
    (a.putFunction ref f).function? ref' =
      if ref = ref' then (a.function? ref').map fun _ => f else a.function? ref' := by
  obtain ⟨i, k⟩ := ref
  obtain ⟨i', k'⟩ := ref'
  rw [putFunction, function?_modifyModule]
  by_cases hi : i = i'
  · subst hi
    simp only [if_true, FunctionRef.mk.injEq, true_and, function?, functionIn?,
      Array.getElem?_modify]
    by_cases hk : k = k'
    · subst hk
      cases a.modules[i]? <;> simp
    · simp only [hk, if_false]
  · simp [hi]

end Assembly

end BlockIR
