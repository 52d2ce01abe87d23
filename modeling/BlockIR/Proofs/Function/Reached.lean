import BlockIR.Function.Cursor
import BlockIR.Proofs.Function.Edit
/-!
# Functions that edits and emissions reach

`Change` lists the edits of a function and `Emission` what a cursor does, each
with its arguments. `Reached` holds of every function that some sequence of them
makes out of an empty one, also when some of them fail. An emission is a
sequence of edits (`exists_changes`), so what every edit keeps holds of every
function that is reached.
-/

namespace BlockIR

open Success

/-- **An edit of a function**, with its arguments. -/
inductive Change where
  | reserveLocal
  | newLocal
  | appendBlock (name : Option String)
  | createInstr (instr : Instruction) (location : Location)
  | substitute (i : InstrId) (instr : Instruction)
  | relocate (i : InstrId) (location : Location)
  | attachAt (b : BlockId) (i : InstrId) (index : Nat)
  | attachLast (b : BlockId) (i : InstrId)
  | attachBefore (anchor new : InstrId)
  | attachAfter (anchor new : InstrId)
  | detach (i : InstrId)
  | connect (src dst : BlockId)
  | disconnect (src dst : BlockId)

/-- **What a cursor does**, with its arguments. -/
inductive Emission where
  | moveTo (b : BlockId)
  | newBlock (name : String)
  | freshLocal
  | locate (location : Location)
  | append (instr : Instruction)
  | copy (dst : LocalId) (src : Operand)
  | newArray (size : Operand)
  | loadArray (array index : Operand)
  | storeArray (array index value : Operand)
  | loadGlobal (g : GlobalId)
  | storeGlobal (g : GlobalId) (src : Operand)
  | call (callee : Callee) (args : List Operand)
  | binary (op : Operator) (lhs rhs : Operand)
  | jump (target : BlockId)
  | branch (cond : Operand) (thenTarget elseTarget : BlockId)
  | ret (value : Operand)

namespace Change

/-- The function that an edit leaves, also when it fails. -/
def leave : Change → Function → Function
  | reserveLocal, f => (Function.reserveLocal.run f).2
  | newLocal, f => (Function.newLocal.run f).2
  | appendBlock name, f => ((Function.appendBlock name).run f).2
  | createInstr instr location, f => ((Function.createInstr instr location).run f).2
  | substitute i instr, f => ((Function.substitute i instr).apply f).2
  | relocate i location, f => ((Function.relocate i location).apply f).2
  | attachAt b i index, f => ((Function.attachAt b i index).apply f).2
  | attachLast b i, f => ((Function.attachLast b i).apply f).2
  | attachBefore anchor new, f => ((Function.attachBefore anchor new).apply f).2
  | attachAfter anchor new, f => ((Function.attachAfter anchor new).apply f).2
  | detach i, f => ((Function.detach i).apply f).2
  | connect src dst, f => ((Function.connect src dst).apply f).2
  | disconnect src dst, f => ((Function.disconnect src dst).apply f).2

/-- The function that edits leave, one after the other. -/
def leaveAll (changes : List Change) (f : Function) : Function :=
  changes.foldl (fun f change => change.leave f) f

end Change

/-- The cursor that an emission leaves, also when it fails. -/
def Emission.leave : Emission → Cursor → Cursor
  | moveTo b, c => ((Emit.moveTo b).run c).2
  | newBlock name, c => ((Emit.newBlock name).run c).2
  | freshLocal, c => (Emit.freshLocal.run c).2
  | locate location, c => ((Emit.locate location).run c).2
  | append instr, c => ((Emit.append instr).apply c).2
  | copy dst src, c => ((Emit.copy dst src).apply c).2
  | newArray size, c => ((Emit.newArray size).apply c).2
  | loadArray array index, c => ((Emit.loadArray array index).apply c).2
  | storeArray array index value, c => ((Emit.storeArray array index value).apply c).2
  | loadGlobal g, c => ((Emit.loadGlobal g).apply c).2
  | storeGlobal g src, c => ((Emit.storeGlobal g src).apply c).2
  | call callee args, c => ((Emit.call callee args).apply c).2
  | binary op lhs rhs, c => ((Emit.binary op lhs rhs).apply c).2
  | jump target, c => ((Emit.jump target).apply c).2
  | branch cond thenTarget elseTarget, c => ((Emit.branch cond thenTarget elseTarget).apply c).2
  | ret value, c => ((Emit.ret value).apply c).2

/-- **A function that edits and emissions reach** from an empty one. The cursor
of an emission may stand anywhere. -/
inductive Function.Reached : Function → Prop
  | empty (name : String) (params : List String) : Reached (Function.empty name params)
  | change {f : Function} (change : Change) : Reached f → Reached (change.leave f)
  | emission {c : Cursor} (emission : Emission) :
      Reached c.function → Reached (emission.leave c).function

/-! ## An emission is a sequence of edits -/

namespace Emission

/-- Edits lead from the function of one cursor to that of another. -/
def Traced (c c' : Cursor) : Prop :=
  ∃ changes, c'.function = Change.leaveAll changes c.function

/-- Nothing happens without a change. -/
theorem Traced.refl (c : Cursor) : Traced c c := ⟨[], rfl⟩

/-- Traces compose. -/
theorem Traced.trans {c c' c'' : Cursor} : Traced c c' → Traced c' c'' → Traced c c'' := by
  rintro ⟨first, hfirst⟩ ⟨second, hsecond⟩
  refine ⟨first ++ second, ?_⟩
  rw [hsecond, hfirst, Change.leaveAll, Change.leaveAll, Change.leaveAll, List.foldl_append]

/-- A single change is a trace. -/
theorem Traced.single {c c' : Cursor} (change : Change)
    (h : c'.function = change.leave c.function) : Traced c c' := ⟨[change], h⟩

/-- An edit that is one change is a trace at the cursor. -/
theorem within_edit {α : Type} {e : Edit α} (change : Change)
    (h : ∀ f, (e.apply f).2 = change.leave f) : Within Traced (Emit.edit e) :=
  fun c => .single change (h c.function)

/-- Requiring a block is a trace. -/
theorem within_requireBlock (b : BlockId) : Within Traced (Emit.requireBlock b) :=
  Within.bind Traced.trans (fun c => Traced.refl c) fun _ => Within.pure Traced.refl _

/-- Appending an instruction is a trace. -/
theorem within_append (instr : Instruction) : Within Traced (Emit.append instr) := by
  refine Within.bind Traced.trans (Within.get Traced.refl) fun c => ?_
  have hrest : Within Traced (do
      let i ← liftM (Emit.createInstr instr)
      Emit.edit (Function.attachLast c.block i)) :=
    Within.bind Traced.trans
      (Within.lift fun d => .single (.createInstr instr d.location) rfl)
      fun i => within_edit (.attachLast c.block i) fun _ => rfl
  by_cases hclosed : c.isClosed = true
  · simp only [hclosed, if_true]
    exact Within.bind Traced.trans (Within.throw Traced.refl _) fun _ => hrest
  · simp only [hclosed]
    exact hrest

/-- Appending with a new slot is a trace. -/
theorem within_appendTo (instr : LocalId → Instruction) : Within Traced (Emit.appendTo instr) :=
  Within.bind Traced.trans (Within.lift fun _ => .single .reserveLocal rfl) fun dst =>
    Within.bind Traced.trans (within_append (instr dst)) fun _ => Within.pure Traced.refl _

/-- Adding an edge is a trace. -/
theorem within_connectTo (target : BlockId) : Within Traced (Emit.connectTo target) :=
  Within.bind Traced.trans (Within.get Traced.refl) fun c =>
    Within.bind Traced.trans (within_edit (.connect c.block target) fun _ => rfl) fun _ =>
      Within.pure Traced.refl _

/-- Emitting a jump is a trace. -/
theorem within_jump (target : BlockId) : Within Traced (Emit.jump target) :=
  Within.bind Traced.trans (within_requireBlock target) fun _ =>
    Within.bind Traced.trans (within_append _) fun _ => within_connectTo target

/-- Emitting a branch is a trace. -/
theorem within_branch (cond : Operand) (thenTarget elseTarget : BlockId) :
    Within Traced (Emit.branch cond thenTarget elseTarget) :=
  Within.bind Traced.trans (within_requireBlock thenTarget) fun _ =>
    Within.bind Traced.trans (within_requireBlock elseTarget) fun _ =>
      Within.bind Traced.trans (within_append _) fun _ =>
        Within.bind Traced.trans (within_connectTo thenTarget) fun _ =>
          within_connectTo elseTarget

/-- **An emission is a sequence of edits.** -/
theorem traced_leave (e : Emission) (c : Cursor) : Traced c (e.leave c) := by
  have hlast : ∀ instr, Within Traced (do let _ ← Emit.append instr; pure ()) := fun instr =>
    Within.bind Traced.trans (within_append instr) fun _ => Within.pure Traced.refl _
  cases e with
  | moveTo b => exact ⟨[], rfl⟩
  | newBlock name => exact .single (.appendBlock (some name)) rfl
  | freshLocal => exact .single .reserveLocal rfl
  | locate location => exact ⟨[], rfl⟩
  | append instr => exact within_append instr c
  | copy dst src => exact hlast _ c
  | newArray size => exact within_appendTo _ c
  | loadArray array index => exact within_appendTo _ c
  | storeArray array index value => exact hlast _ c
  | loadGlobal g => exact within_appendTo _ c
  | storeGlobal g src => exact hlast _ c
  | call callee args => exact within_appendTo _ c
  | binary op lhs rhs => exact within_appendTo _ c
  | jump target => exact within_jump target c
  | branch cond thenTarget elseTarget => exact within_branch cond thenTarget elseTarget c
  | ret value => exact hlast _ c

end Emission

namespace Function

/-- **What every edit keeps holds of every function that is reached**, if it
holds of the empty ones. -/
theorem Reached.induct {P : Function → Prop} (hempty : ∀ name params, P (Function.empty name params))
    (hchange : ∀ (change : Change) f, P f → P (change.leave f)) {f : Function} (hf : f.Reached) :
    P f := by
  have hall : ∀ (changes : List Change) f, P f → P (Change.leaveAll changes f) := by
    intro changes
    induction changes with
    | nil => exact fun f hf => hf
    | cons change rest ih => exact fun f hf => ih _ (hchange change f hf)
  induction hf with
  | empty name params => exact hempty name params
  | change change _ ih => exact hchange change _ ih
  | emission emission _ ih =>
    obtain ⟨changes, hchanges⟩ := Emission.traced_leave emission _
    rw [hchanges]
    exact hall changes _ ih

/-! ## One change for every edit -/

/-- **An edit makes one of the changes**, or none. -/
theorem alters_leave (change : Change) (f : Function) : Alters f (change.leave f) := by
  cases change with
  | reserveLocal => exact .recount (f.numLocals + 1)
  | newLocal => exact .recount ((f.numLocals + 1) % UInt32.size)
  | appendBlock name => exact .extend name
  | createInstr instr location => exact .create instr location
  | substitute i instr => exact alters_query_bind fun _ _ => .amend i _ (by intro slot; rfl)
  | relocate i location => exact alters_query_bind fun _ _ => .amend i _ (by intro slot; rfl)
  | attachAt b i index => exact alters_attachAt b i index f
  | attachLast b i => exact alters_query_bind fun length _ => alters_attachAt b i length f
  | attachBefore anchor new =>
    exact alters_query_bind fun place _ => alters_attachAt place.1 new place.2 f
  | attachAfter anchor new =>
    exact alters_query_bind fun place _ => alters_attachAt place.1 new (place.2 + 1) f
  | detach i => exact alters_detach i f
  | connect src dst => exact alters_connect src dst f
  | disconnect src dst => exact alters_disconnect src dst f

/-- What every change keeps holds of every function that is reached. -/
theorem Reached.of_alters {P : Function → Prop}
    (hempty : ∀ name params, P (Function.empty name params))
    (halters : ∀ f g, Alters f g → P f → P g) {f : Function} (hf : f.Reached) : P f :=
  hf.induct hempty fun change f => halters f _ (alters_leave change f)

/-- A change of a block that keeps its number keeps all numbers. -/
theorem numbered_modifyBlock {g : Block → Block} (hg : ∀ block, (g block).id = block.id)
    {f : Function} {b : BlockId} (hf : f.Numbered) : (f.modifyBlock b g).Numbered := by
  intro c block hc
  rw [blocks_modifyBlock] at hc
  split at hc
  · obtain ⟨old, hold, rfl⟩ := Option.map_eq_some_iff.mp hc
    rw [hg]
    exact hf c old hold
  · exact hf c block hc

/-- Edits never take a block away, and never renumber one. -/
theorem Alters.numbered {f g : Function} (h : Alters f g) (hf : f.Numbered ∧ 0 < f.blocks.size) :
    g.Numbered ∧ 0 < g.blocks.size := by
  obtain ⟨hn, hpos⟩ := hf
  cases h with
  | nothing => exact ⟨hn, hpos⟩
  | recount count => exact ⟨hn, hpos⟩
  | extend name =>
    refine ⟨fun b block hb => ?_, by simp⟩
    rw [blocks_extend] at hb
    split at hb
    · rename_i heq
      rw [heq, ← Option.some.inj hb]
    · exact hn b block hb
  | create instr location => exact ⟨hn, hpos⟩
  | amend i g hg => exact ⟨hn, hpos⟩
  | place _ _ _ _ =>
    exact ⟨numbered_modifyBlock (by intro block; rfl) hn, by simpa [placed, modifySlot] using hpos⟩
  | unplace _ _ =>
    exact ⟨numbered_modifyBlock (by intro block; rfl) hn, by simpa [unplaced, modifySlot] using hpos⟩
  | link _ _ _ =>
    exact ⟨numbered_modifyBlock (by intro block; rfl)
      (numbered_modifyBlock (by intro block; rfl) hn), by simpa [linked] using hpos⟩
  | unlink _ _ =>
    exact ⟨numbered_modifyBlock (by intro block; rfl)
      (numbered_modifyBlock (by intro block; rfl) hn), by simpa [unlinked] using hpos⟩

/-- **A function that is reached has an entry, and its blocks carry their own
numbers.** -/
theorem Reached.numbered {f : Function} (hf : f.Reached) : f.Numbered ∧ 0 < f.blocks.size := by
  refine hf.of_alters (P := fun f => f.Numbered ∧ 0 < f.blocks.size) (fun name params => ?_)
    fun f g h => h.numbered
  refine ⟨fun b block hb => ?_, by simp [Function.empty]⟩
  obtain rfl : b = 0 := Nat.lt_one_iff.mp (lt_size_of_block hb)
  exact congrArg Block.id (Option.some.inj hb).symm

end Function

end BlockIR
