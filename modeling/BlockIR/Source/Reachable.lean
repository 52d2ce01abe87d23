import BlockIR.Source.Tree
/-!
# Reachable modules

The modules a program consists of are those reachable from its root by imports,
each once, in depth-first preorder with imports in the order of their
declaration. The walk keeps the ids it still has to visit on a list.
-/

namespace BlockIR

namespace Source

namespace Program

/-- Visit pending modules in order. A module is listed when it is met first,
and its imports are visited before what was pending. The first argument bounds
the number of visits; every import of every module is pending at most once, so
a bound that counts all of them and the root is never used up. -/
def visit (p : Program) : Nat → List String → List (String × Module) →
    Except LoweringError (List (String × Module))
  | _, [], listed => .ok listed
  | 0, _ :: _, listed => .ok listed
  | n + 1, id :: pending, listed =>
    if listed.any fun m => m.1 == id then p.visit n pending listed
    else
      match p.module? id with
      | none => .error (.unknownModule id)
      | some m => p.visit n (m.imports ++ pending) (listed ++ [(id, m)])

/-- The number of imports in all modules. -/
def importCount (p : Program) : Nat :=
  (p.modules.flatMap fun m => m.2.imports).length

/-- **The modules reachable from the root**, in depth-first preorder. -/
def reachable (p : Program) : Except LoweringError (List (String × Module)) :=
  p.visit (p.importCount + 1) [p.root] []

end Program

end Source

end BlockIR
