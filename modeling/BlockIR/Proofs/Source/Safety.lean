import BlockIR.Proofs.Source.Lowering
import BlockIR.Sample
/-!
# Lowered programs run without defects

The code of a lowered program names only globals and functions that symbols
denote, every symbol denotes something that is there, and every function passes
the check. So an evaluation with the standard builtin operations ends with no
defect.
-/

namespace BlockIR

open Success

namespace Source

namespace Program

namespace Lowering

variable {p : Program} {entry : String} {modules : List (String × Module)} {d : Declared}
variable {lowered : BlockIR.Program}

theorem isSome_function? (h : p.Lowering entry modules d lowered) {ref : FunctionRef} :
    (lowered.function? ref).isSome = (d.assembly.function? ref).isSome :=
  h.shape.isSome_function? ref

/-- What a symbol denotes has its code in the lowered program. -/
theorem isSome_of_lookup (h : p.Lowering entry modules d lowered) {id name : String}
    {ref : FunctionRef} (href : d.symbols.functions.lookup (id, name) = some ref) :
    (lowered.function? ref).isSome = true := by
  rw [h.isSome_function?]
  exact Program.isSome_of_lookup h.covers href

/-- Every function of a lowered program can be run. -/
theorem runnable (h : p.Lowering entry modules d lowered) : lowered.Runnable := by
  intro ref f hf
  obtain ⟨_, _, hlowered⟩ := (h.code ref f hf).lowered h.lists h.covers
  exact Function.runnable_of_check hlowered.numbered hlowered.enterable hlowered.check

/-- Every instruction of a lowered program names only what symbols denote. -/
theorem binds (h : p.Lowering entry modules d lowered) {i : Instruction}
    (hi : lowered.HasInstr i) : d.symbols.Binds i := by
  obtain ⟨ref, f, b, k, hf, hi⟩ := hi
  obtain ⟨_, _, hlowered⟩ := (h.code ref f hf).lowered h.lists h.covers
  exact hlowered.bound b k i hi

/-- What a symbol denotes is a global. -/
theorem lt_size_globals (h : p.Lowering entry modules d lowered) {key : String × String}
    {g : GlobalId} (hkey : d.symbols.globals.lookup key = some g) : g < lowered.globals.size := by
  obtain ⟨_, _, -, -, hdecl, -⟩ := h.covers.agree.slot key g hkey
  have hsize : lowered.globals = d.assembly.globals := h.shape.globals
  rw [hsize]
  exact (Array.getElem?_eq_some_iff.mp hdecl).1

theorem globalsBound (h : p.Lowering entry modules d lowered) : lowered.GlobalsBound := by
  intro i hi g hg
  obtain ⟨key, hkey⟩ := (h.binds hi).global g hg
  exact h.lt_size_globals hkey

/-- Each declared row is there, with other code. -/
theorem exists_row (h : p.Lowering entry modules d lowered) {i : ModuleIndex}
    {row : BlockIR.Module} (hrow : d.assembly.modules[i]? = some row) :
    ∃ row', lowered.modules[i]? = some row' ∧
      Assembly.shapeOf row' = Assembly.shapeOf row := by
  have hshape := h.shape.rows i
  simp only [hrow, Option.map_some] at hshape
  exact Option.map_eq_some_iff.mp hshape

/-- Each row of a lowered program has the shape that declaring its module gave it. -/
theorem exists_shape (h : p.Lowering entry modules d lowered) {i : ModuleIndex}
    {row : BlockIR.Module} (hrow : lowered.modules[i]? = some row) :
    ∃ id m slots, modules[i]? = some (id, m) ∧
      Assembly.shapeOf row = Assembly.shapeOf (rowOf modules id m slots) := by
  have hshape := h.shape.rows i
  simp only [hrow] at hshape
  obtain ⟨row', hrow', hshape⟩ := Option.map_eq_some_iff.mp hshape.symm
  obtain ⟨⟨id, m⟩, hm⟩ := h.covers.exists_listed hrow'
  obtain ⟨slots, hrowOf⟩ := h.covers.rows i id m hm
  cases Option.some.inj (hrow'.symm.trans hrowOf)
  exact ⟨id, m, slots, hm, hshape.symm⟩

/-- The initializer of a module stands behind its functions. -/
theorem isSome_initializer (h : p.Lowering entry modules d lowered) {i : ModuleIndex}
    {ref : FunctionRef} (href : Machine.initializer? lowered i = some ref) :
    (lowered.function? ref).isSome = true := by
  obtain ⟨k, hinit, rfl⟩ := Option.map_eq_some_iff.mp href
  obtain ⟨row, hrow, hinit⟩ := Option.bind_eq_some_iff.mp hinit
  obtain ⟨id, m, slots, hm, hshape⟩ := h.exists_shape hrow
  have hindex : m.initIndex = some k :=
    (congrArg (fun shape => shape.2.2.2.1) hshape).symm.trans hinit
  unfold Module.initIndex at hindex
  split at hindex
  · rename_i hhas
    cases hindex
    have hlt : m.functions.length < m.outline.length := by
      rw [length_outline, if_pos hhas]
      exact Nat.lt_succ_self _
    rw [h.isSome_function?, function?_of_covers h.covers hm, List.getElem?_eq_getElem hlt]
    rfl
  · cases hindex

theorem functionsBound (h : p.Lowering entry modules d lowered) : lowered.FunctionsBound where
  callee i hi ref href := by
    obtain ⟨⟨id, name⟩, hkey⟩ := (h.binds hi).callee ref href
    exact h.isSome_of_lookup hkey
  init _ _ href := h.isSome_initializer href

end Lowering

/-- **A lowered program runs without defects.** Its code names only globals and
functions that exist, its initializers exist, all its functions can be run, and
the standard operations keep their declarations; so no evaluation, however
long, ends with a defect. -/
theorem lowered_program_has_no_defect {p : Program} {entry : String} {lowered : BlockIR.Program}
    (h : p.lower entry = .ok lowered) :
    lowered.GlobalsBound ∧ lowered.FunctionsBound ∧ lowered.Runnable ∧
    (∃ table, Table.standard = .ok table ∧ ∀ e ∈ table.entries, e.Honest) ∧
    ∀ limits fuel args w e w',
      Machine.evaluateStandard lowered limits fuel args w = some (.error e, w') →
        e.isDefect = false := by
  obtain ⟨-, modules, d, hlowering⟩ := (p.lower_decides entry).of_eq_ok h
  have hfunctions := hlowering.functionsBound
  refine ⟨hlowering.globalsBound, hfunctions, hlowering.runnable, Table.exists_standard, ?_⟩
  intro limits fuel args w e w' hrun
  have hentry : (lowered.function? lowered.entry).isSome = true := by
    rw [hlowering.isSome_function?]
    exact isSome_of_lookup hlowering.covers hlowering.entry
  rcases Machine.evaluateStandard_excuses hlowering.runnable hlowering.globalsBound hentry hrun with
    hdefect | ⟨hnot, -⟩
  · exact hdefect
  · exact absurd hfunctions hnot

/-- The program with a diamond of imports runs without defects. -/
theorem lowered_program_has_no_defect_diamond :
    ∃ lowered, Sample.diamond.lower = .ok lowered ∧
      lowered.GlobalsBound ∧ lowered.FunctionsBound ∧ lowered.Runnable ∧
      (∃ table, Table.standard = .ok table ∧ ∀ e ∈ table.entries, e.Honest) ∧
      ∀ limits fuel args w e w',
        Machine.evaluateStandard lowered limits fuel args w = some (.error e, w') →
          e.isDefect = false := by
  have hok : Sample.diamond.lower.toBool = true := by decide +kernel
  cases h : Sample.diamond.lower with
  | error e =>
    rw [h] at hok
    cases hok
  | ok lowered =>
    exact ⟨lowered, rfl, lowered_program_has_no_defect h⟩

end Program

end Source

end BlockIR
