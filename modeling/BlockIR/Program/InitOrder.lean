import BlockIR.Program.Basic
/-!
# Initialization order

Modules are initialized in the order of a depth-first walk over their imports
that lists a module once its imports are done. A module that is met again, be
it done or still open, is passed over, so import cycles are cut where they
close.
-/

namespace BlockIR

namespace InitOrder

/-- State of the walk: the modules it has met, and those it has done, in
order. -/
structure Walk where
  met : List ModuleIndex := []
  done : List ModuleIndex := []

/-- Walk a module and its imports. The first argument bounds the number of
modules open at once; a walk that starts with as many as there are modules
never uses it up, since every open module is a different one. -/
def visit (imports : ModuleIndex → List ModuleIndex) : Nat → ModuleIndex → Walk → Walk
  | 0, _, w => w
  | n + 1, m, w =>
    if m ∈ w.met then w
    else
      let inner := (imports m).foldl (fun w i => visit imports n i w) { w with met := m :: w.met }
      { inner with done := inner.done ++ [m] }

/-- The imports of a module, none if there is no such module. -/
def importsOf (modules : Array Module) (m : ModuleIndex) : List ModuleIndex :=
  match modules[m]? with
  | some module => module.imports
  | none => []

/-- **The initialization order of some modules.** -/
def ofModules (modules : Array Module) : List ModuleIndex :=
  let walk := visit (importsOf modules) modules.size
  ((List.range modules.size).foldl (fun w m => walk m w) {}).done

end InitOrder

end BlockIR
