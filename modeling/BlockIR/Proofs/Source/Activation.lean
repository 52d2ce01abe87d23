import BlockIR.Proofs.Source.Body
import BlockIR.Proofs.Source.Follows
/-!
# Where a call stands

An evaluation knows locals and globals by name, a run has them in slots.
`ShowsLocals` and `ShowsGlobals` relate the two. An `Activation` is what stays
the same while a call is in progress, and `Activation.Stands` says that its
frame has come to where the code of a draft ends, with the draft's locals in
their slots.
-/

namespace BlockIR

open Machine

namespace Source

/-! ## Locals -/

/-- **The locals in scope are in their slots**, name by name. -/
def ShowsLocals (scope : Scope) (env : Locals) (locals : Array Value) : Prop :=
  List.Forall₂ (fun entry binding => entry.1 = binding.1 ∧ locals[entry.2]? = some binding.2)
    scope env

theorem findSome?_lookup (name : String) (scopes : List Scope) :
    scopes.findSome? (List.lookup name) = scopes.flatten.lookup name := by
  induction scopes with
  | nil => rfl
  | cons scope outer ih =>
    rw [List.findSome?_cons, List.flatten_cons, List.lookup_append, ih]
    cases List.lookup name scope <;> rfl

namespace ShowsLocals

variable {scope outer : Scope} {env : Locals} {locals locals' : Array Value}
variable {name : String} {l : LocalId} {v : Value}

/-- A name has the value that its slot holds. -/
theorem lookup (h : ShowsLocals scope env locals) (hl : scope.lookup name = some l) :
    ∃ v, env.lookup name = some v ∧ locals[l]? = some v := by
  induction h with
  | nil => cases hl
  | @cons entry binding _ _ hhead _ ih =>
    obtain ⟨name', l'⟩ := entry
    obtain ⟨_, v⟩ := binding
    obtain ⟨rfl, hv⟩ := hhead
    by_cases hname : name = name'
    · subst hname
      simp only [List.lookup_cons_self, Option.some.injEq] at hl ⊢
      subst hl
      exact ⟨v, rfl, hv⟩
    · simp only [List.lookup_cons, beq_eq_false_iff_ne.mpr hname] at hl ⊢
      exact ih hl

/-- Slots that are not written keep their values. -/
theorem of_kept (h : ShowsLocals scope env locals)
    (hkept : ∀ entry ∈ scope, locals'[entry.2]? = locals[entry.2]?) :
    ShowsLocals scope env locals' := by
  induction h with
  | nil => exact .nil
  | cons hhead _ ih =>
    rw [List.forall_mem_cons] at hkept
    exact .cons ⟨hhead.1, hkept.1.trans hhead.2⟩ (ih hkept.2)

/-- Writing the slot of a name gives the name another value, and no other name. -/
theorem set (h : ShowsLocals scope env locals) (hdistinct : (scope.map Prod.snd).Nodup)
    (hl : scope.lookup name = some l) (hlt : l < locals.size) :
    ShowsLocals scope (env.set name v) (locals.setIfInBounds l v) := by
  induction h with
  | nil => cases hl
  | @cons entry binding rest _ hhead hrest ih =>
    obtain ⟨name', l'⟩ := entry
    obtain ⟨_, w⟩ := binding
    obtain ⟨rfl, hw⟩ := hhead
    rw [List.map_cons, List.nodup_cons] at hdistinct
    -- slots are distinct, so the write is seen by the first binding of the name alone
    by_cases hname : name' = name
    · subst hname
      simp only [List.lookup_cons_self, Option.some.injEq] at hl
      subst hl
      rw [Locals.set, if_pos rfl]
      refine .cons ⟨rfl, by simp [hlt]⟩ (of_kept hrest fun entry hentry => ?_)
      exact Array.getElem?_setIfInBounds_ne fun heq : l' = entry.2 =>
        hdistinct.1 (List.mem_map.mpr ⟨entry, hentry, heq.symm⟩)
    · simp only [List.lookup_cons, beq_eq_false_iff_ne.mpr (Ne.symm hname)] at hl
      have hmem : l ∈ rest.map Prod.snd :=
        List.mem_map.mpr ⟨(name, l), Lower.mem_of_lookup hl, rfl⟩
      have hne : l ≠ l' := fun heq => hdistinct.1 (heq ▸ hmem)
      rw [Locals.set, if_neg hname]
      refine .cons ⟨rfl, ?_⟩ (ih hdistinct.2 hl)
      rw [Array.getElem?_setIfInBounds_ne hne]
      exact hw

/-- What is left of the locals after a block is in the slots of the outer scope. -/
theorem leave {inner : Locals} (h : ShowsLocals (scope ++ outer) inner locals)
    (henv : env.length = outer.length) : ShowsLocals outer (env.leave inner) locals := by
  have hlength := h.length_eq
  have hdrop := List.forall₂_drop scope.length h
  rw [List.length_append, ← henv] at hlength
  rw [List.drop_left] at hdrop
  rw [Locals.leave, ← hlength, Nat.add_sub_cancel]
  exact hdrop

end ShowsLocals

/-! ## Globals -/

/-- **The globals are in their slots**, and every symbol denotes a slot of its
own. -/
structure ShowsGlobals (symbols : Symbols) (globals : Array Value) (view : Globals) : Prop where
  view : ∀ module name, view module name =
    (symbols.globals.lookup (module, name)).bind fun g => globals[g]?
  bound : ∀ key g, symbols.globals.lookup key = some g → g < globals.size
  distinct : ∀ key key' g, symbols.globals.lookup key = some g →
    symbols.globals.lookup key' = some g → key = key'

namespace ShowsGlobals

variable {symbols : Symbols} {globals : Array Value} {view : Globals} {module name : String}
variable {g : GlobalId}

/-- A global that is shown has the value that is shown. -/
theorem read (h : ShowsGlobals symbols globals view)
    (hg : symbols.globals.lookup (module, name) = some g) :
    ∃ v, view module name = some v ∧ globals[g]? = some v := by
  have hlt := h.bound _ g hg
  refine ⟨globals[g], ?_, Array.getElem?_eq_getElem hlt⟩
  rw [h.view, hg]
  exact Array.getElem?_eq_getElem hlt

/-- A write to a global is shown. -/
theorem write (h : ShowsGlobals symbols globals view)
    (hg : symbols.globals.lookup (module, name) = some g) (v : Value) :
    ShowsGlobals symbols (globals.setIfInBounds g v) (view.set module name v) where
  bound key g' hg' := by
    rw [Array.size_setIfInBounds]
    exact h.bound key g' hg'
  distinct := h.distinct
  view module' name' := by
    rw [Globals.set, h.view]
    split
    · rename_i heq
      obtain ⟨rfl, rfl⟩ := heq
      have hlt := h.bound _ g hg
      simp [hg, hlt]
    · rename_i hne
      cases hg' : symbols.globals.lookup (module', name') with
      | none => rfl
      | some g' =>
        have hdiff : g ≠ g' := by
          rintro rfl
          cases h.distinct _ _ _ hg hg'
          exact hne ⟨rfl, rfl⟩
        simp only [Option.bind_some]
        rw [Array.getElem?_setIfInBounds_ne hdiff]

end ShowsGlobals

/-! ## Calls in progress -/

/-- The code of a function has all code of a draft, and its local slots. -/
structure Draft.In (d : Draft) (code : Function) : Prop where
  holds : code.Holds d.cursor.function
  numLocals : d.cursor.function.numLocals ≤ code.numLocals

theorem Draft.In.of_extends {d d' : Draft} {code : Function} (h : d'.In code)
    (hextends : d.cursor.Extends d'.cursor) : d.In code :=
  ⟨h.holds.trans hextends.holds, Nat.le_trans hextends.numLocals h.numLocals⟩

/-- Only the code counts. -/
theorem Draft.In.of_eq {d d' : Draft} {code : Function} (h : d'.In code)
    (heq : d'.cursor.function = d.cursor.function) : d.In code :=
  ⟨heq ▸ h.holds, heq ▸ h.numLocals⟩

theorem Draft.In.of_assign {symbols : Symbols} {d : Draft} {code : Function}
    {i : LocalId → Instruction} (h : (d.on (d.cursor.assign i)).In code) (hd : d.Sound symbols)
    (hopen : d.IsOpen) : d.In code :=
  h.of_extends (Cursor.extends_assign hd.drafted hopen)

/-- **What stays the same while a call is in progress**: its function, what becomes
of its result, and the calls it was made from. -/
structure Activation where
  ref : FunctionRef
  code : Function
  resume : Resume
  rest : List Frame

namespace Activation

variable {a : Activation} {symbols : Symbols} {s : Setting} {d d' : Draft} {env env' : Locals}
variable {fr : Frame} {σ : Store} {m : Memory} {b : BlockId} {k : Nat} {scopes : List Scope}

/-- **The call is at an index of a block**, with the locals in scope in their
slots. -/
structure At (a : Activation) (b : BlockId) (k : Nat) (scopes : List Scope) (env : Locals)
    (fr : Frame) : Prop where
  function : fr.function = a.ref
  resume : fr.resume = a.resume
  size : fr.locals.size = a.code.numLocals
  block : fr.block = b
  next : fr.next = k
  locals : ShowsLocals scopes.flatten env fr.locals

/-- **The call stands where the code of a draft ends.** -/
abbrev Stands (a : Activation) (d : Draft) (env : Locals) (fr : Frame) : Prop :=
  a.At d.cursor.block (d.cursor.function.length d.cursor.block) d.scopes env fr

/-- The memory of a run has a frame on top and shows a store. -/
def Shows (a : Activation) (symbols : Symbols) (fr : Frame) (σ : Store) (m : Memory) : Prop :=
  ∃ globals, m = .ofFrames (fr :: a.rest) globals σ.world ∧ ShowsGlobals symbols globals σ.globals

theorem At.write (h : a.At b k scopes env fr) {l : LocalId} {v : Value}
    (hlocals : ShowsLocals scopes.flatten env' (fr.write l v).locals) :
    a.At b k scopes env' (fr.write l v) :=
  ⟨h.function, h.resume, (Frame.size_write fr l v).trans h.size, h.block, h.next, hlocals⟩

/-- A jump leaves the locals that are shown. -/
theorem At.goto (h : a.At b k scopes env fr) (target : BlockId) :
    a.At target 0 scopes env (fr.goto target) :=
  ⟨h.function, h.resume, h.size, rfl, rfl, h.locals⟩

/-- A fresh block is where the code of a draft ends that goes on there. -/
theorem At.stands (h : a.At b 0 scopes env fr) (hb : d.cursor.function.IsFresh b)
    (hscopes : d.scopes = scopes) : a.Stands (d.on (d.cursor.moveTo b)) env fr := by
  have hlength : d.cursor.function.length b = 0 := hb.length
  rw [Stands, Draft.cursor_on, Cursor.block_moveTo, Cursor.function_moveTo, hlength, Draft.scopes_on,
    hscopes]
  exact h

/-- Past an instruction that was appended. -/
theorem Stands.append (h : a.Stands d env fr) (hd : d.Sound symbols) (i : Instruction) :
    a.Stands (d.on (d.cursor.append i)) env fr.advance := by
  refine ⟨h.function, h.resume, h.size, h.block, ?_, h.locals⟩
  have hlength : (d.cursor.append i).function.length d.cursor.block =
      d.cursor.function.length d.cursor.block + 1 := Function.length_push hd.spot
  rw [Draft.cursor_on, Cursor.block_append, hlength, ← h.next]
  rfl

/-- **What a call has once the code of an expression is run**: it stands at its
end, and the slots that were there before are kept. -/
structure Passed (a : Activation) (d d' : Draft) (env : Locals) (fr fr' : Frame) : Prop where
  stands : a.Stands d' env fr'
  kept : ∀ l, l < d.cursor.function.numLocals → fr'.locals[l]? = fr.locals[l]?

/-- Nothing is passed without a step. -/
theorem Passed.refl (h : a.Stands d env fr) : a.Passed d d env fr fr := ⟨h, fun _ _ => rfl⟩

/-- What is passed in two stretches is passed. -/
theorem Passed.trans {d'' : Draft} {fr' fr'' : Frame} (h : a.Passed d d' env fr fr')
    (h' : a.Passed d' d'' env fr' fr'') (hextends : d.cursor.Extends d'.cursor) :
    a.Passed d d'' env fr fr'' :=
  ⟨h'.stands, fun l hl =>
    (h'.kept l (Nat.lt_of_lt_of_le hl hextends.numLocals)).trans (h.kept l hl)⟩

/-- The value of an operand is kept with the slot it reads. -/
theorem Passed.value? {fr' : Frame} {o : Operand} {v : Value} (h : a.Passed d d' env fr fr')
    (ho : ∀ l ∈ o.local?, l < d.cursor.function.numLocals) (hv : fr.value? o = some v) :
    fr'.value? o = some v := by
  cases o with
  | const c => exact hv
  | var l => exact (h.kept l (ho l rfl)).trans hv

/-- A new slot is one of the frame's. -/
theorem Stands.lt_size (h : a.Stands d env fr) {i : LocalId → Instruction}
    (hin : (d.on (d.cursor.assign i)).In a.code) :
    d.cursor.function.numLocals < fr.locals.size := by
  rw [h.size]
  exact hin.numLocals

/-- Past an instruction that wrote a new slot. -/
theorem Stands.assign (h : a.Stands d env fr) (hd : d.Sound symbols) {i : LocalId → Instruction}
    (hin : (d.on (d.cursor.assign i)).In a.code) (v : Value) :
    a.Passed d (d.on (d.cursor.assign i)) env fr
        (fr.advance.write d.cursor.function.numLocals v) ∧
      (fr.advance.write d.cursor.function.numLocals v).value? (.var d.cursor.function.numLocals) =
        some v := by
  have hwide : a.Stands (d.on d.cursor.widen) env fr := h
  have hsound : (d.on d.cursor.widen).Sound symbols :=
    hd.on_cursor (Function.drafted_widen hd.drafted) hd.bound hd.spot (Nat.le_succ _)
  have hkept : ∀ l, l < d.cursor.function.numLocals →
      (fr.advance.write d.cursor.function.numLocals v).locals[l]? = fr.locals[l]? :=
    fun l hl => Array.getElem?_setIfInBounds_ne (Nat.ne_of_gt hl)
  refine ⟨⟨(Stands.append hwide hsound _).write ?_, hkept⟩, ?_⟩
  · exact h.locals.of_kept fun entry hentry => hkept _ (hd.slots entry hentry)
  · exact (Array.getElem?_setIfInBounds_self).trans (if_pos (h.lt_size hin))

/-- The code of the call is that of its function in the program. -/
def Placed (a : Activation) (s : Setting) : Prop :=
  s.program.function? a.ref = some a.code

/-- **The next instruction is the one that the code goes on with.** -/
theorem Stands.fetch {i : Instruction} (h : a.Stands d env fr) (hplaced : a.Placed s)
    (hin : d'.In a.code) (hnext : d.Next i d') : fetch s.program fr = .ok i := by
  refine fetch_eq_ok (f := a.code) (by rw [h.function]; exact hplaced) ?_
  rw [h.block, h.next]
  exact hin.holds _ _ _ hnext

end Activation

end Source

end BlockIR
