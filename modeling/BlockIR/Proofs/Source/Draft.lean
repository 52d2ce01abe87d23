import BlockIR.Proofs.Function.Cursor
import BlockIR.Proofs.Machine.Safety
import BlockIR.Source.Body
/-!
# Drafts

`Draft.Sound` is what a body under construction has at any time: sound code that
names only what symbols denote, and a local slot of its own for every name in
scope. The relations between drafts say what lowering leaves: `Emitted` for
expressions, `Progress` for statements, and `Sealed` where the current block was
closed.
-/

namespace BlockIR

namespace Source

/-- Every global and function of an instruction is one that a symbol denotes. -/
structure Symbols.Binds (symbols : Symbols) (i : Instruction) : Prop where
  global : ∀ g ∈ i.global?, ∃ key, symbols.globals.lookup key = some g
  callee : ∀ ref ∈ i.callee?, ∃ key, symbols.functions.lookup key = some ref

/-- An instruction without globals and callees. -/
theorem Symbols.binds_of_none {symbols : Symbols} {i : Instruction} (hg : i.global? = none)
    (hc : i.callee? = none) : symbols.Binds i := by
  refine ⟨fun g h => ?_, fun ref h => ?_⟩
  · rw [hg] at h
    cases h
  · rw [hc] at h
    cases h

/-- The names in some scopes, the latest of the innermost first. -/
def namesOf (scopes : List Scope) : List String :=
  scopes.flatten.map Prod.fst

namespace Draft

variable {symbols : Symbols} {d d' d'' : Draft} {i : Instruction}

/-- The draft with another cursor. -/
def on (d : Draft) (c : Cursor) : Draft := { d with cursor := c }

@[simp] theorem cursor_on (d : Draft) (c : Cursor) : (d.on c).cursor = c := rfl

@[simp] theorem scopes_on (d : Draft) (c : Cursor) : (d.on c).scopes = d.scopes := rfl

/-- The current block of a draft is there and open. -/
def IsOpen (d : Draft) : Prop :=
  d.cursor.function.IsOpen d.cursor.block

/-- Where the code of a draft ends, another one goes on with an instruction. -/
def Next (d : Draft) (i : Instruction) (d' : Draft) : Prop :=
  d'.cursor.function.instrAt? d.cursor.block (d.cursor.function.length d.cursor.block) = some i

/-- **What a draft has at any time**: sound code that names only what symbols
denote, a current block that exists, and for every name in scope a local slot
of its own. -/
structure Sound (symbols : Symbols) (d : Draft) : Prop where
  drafted : d.cursor.function.Drafted
  bound : ∀ b k i, d.cursor.function.instrAt? b k = some i → symbols.Binds i
  spot : d.cursor.block < d.cursor.function.blocks.size
  slots : ∀ entry ∈ d.scopes.flatten, entry.2 < d.cursor.function.numLocals
  distinct : (d.scopes.flatten.map Prod.snd).Nodup
  nonempty : d.scopes ≠ []

/-- The code may grow within sound code. -/
theorem Sound.on_cursor (h : d.Sound symbols) {c : Cursor} (hd : c.function.Drafted)
    (hbound : ∀ b k i, c.function.instrAt? b k = some i → symbols.Binds i)
    (hspot : c.block < c.function.blocks.size)
    (hlocals : d.cursor.function.numLocals ≤ c.function.numLocals) : (d.on c).Sound symbols :=
  ⟨hd, hbound, hspot, fun entry he => Nat.lt_of_lt_of_le (h.slots entry he) hlocals, h.distinct,
    h.nonempty⟩

/-- **What lowering an expression leaves**: more code in the same open block, and
the same scopes. -/
structure Emitted (symbols : Symbols) (d d' : Draft) : Prop where
  sound : d'.Sound symbols
  isOpen : d'.IsOpen
  scopes : d'.scopes = d.scopes
  spot : d'.cursor.block = d.cursor.block
  size : d'.cursor.function.blocks.size = d.cursor.function.blocks.size
  extend : d.cursor.Extends d'.cursor

/-- Emitting nothing leaves an open draft as it is. -/
theorem Emitted.refl (h : d.Sound symbols) (hopen : d.IsOpen) : Emitted symbols d d :=
  ⟨h, hopen, rfl, rfl, rfl, .refl _⟩

/-- Emissions compose. -/
theorem Emitted.trans (h : Emitted symbols d d') (h' : Emitted symbols d' d'') :
    Emitted symbols d d'' :=
  ⟨h'.sound, h'.isOpen, h'.scopes.trans h.scopes, h'.spot.trans h.spot, h'.size.trans h.size,
    h.extend.trans h'.extend⟩

/-- An instruction is emitted when it touches slots and names symbols that are
there. -/
theorem emitted_append (h : d.Sound symbols) (hopen : d.IsOpen) (hterm : i.isTerminator = false)
    (hlocals : ∀ l ∈ i.locals, l < d.cursor.function.numLocals) (hi : symbols.Binds i) :
    Emitted symbols d (d.on (d.cursor.append i)) := by
  have hdrafted : (d.cursor.append i).function.Drafted :=
    Function.drafted_push h.drafted hopen hterm hlocals
  have hbound : ∀ b k j, (d.cursor.append i).function.instrAt? b k = some j → symbols.Binds j := by
    intro b k j hj
    rcases Function.instrAt?_push_cases h.drafted hopen.lt_size hj with hold | ⟨-, -, rfl⟩
    · exact h.bound b k j hold
    · exact hi
  refine ⟨h.on_cursor hdrafted hbound ?_ (Nat.le_refl _),
    Function.isOpen_push h.drafted hopen hterm, rfl, rfl, Cursor.size_append _ _,
    Cursor.extends_append h.drafted hopen⟩
  rw [Cursor.size_append]
  exact hopen.lt_size

/-- The instruction appended is the next one. -/
theorem next_append (h : d.Sound symbols) (i : Instruction) :
    d.Next i (d.on (d.cursor.append i)) :=
  (Function.instrAt?_push h.drafted h.spot _).trans (if_pos rfl)

/-- A new slot is an emission. -/
theorem emitted_widen (h : d.Sound symbols) (hopen : d.IsOpen) :
    Emitted symbols d (d.on d.cursor.widen) :=
  ⟨h.on_cursor (Function.drafted_widen h.drafted) h.bound h.spot (Nat.le_succ _), hopen.widen, rfl,
    rfl, rfl, Cursor.extends_widen _⟩

/-- An instruction with a new slot is emitted when it touches no slot beyond it. -/
theorem emitted_assign (h : d.Sound symbols) (hopen : d.IsOpen) {i : LocalId → Instruction}
    (hterm : (i d.cursor.function.numLocals).isTerminator = false)
    (hlocals : ∀ l ∈ (i d.cursor.function.numLocals).locals, l < d.cursor.function.numLocals + 1)
    (hi : symbols.Binds (i d.cursor.function.numLocals)) :
    Emitted symbols d (d.on (d.cursor.assign i)) := by
  have hwide := emitted_widen h hopen
  exact hwide.trans (emitted_append hwide.sound hwide.isOpen hterm hlocals hi)

/-- The instruction that writes a new slot is the next one. -/
theorem next_assign (h : d.Sound symbols) (hopen : d.IsOpen) (i : LocalId → Instruction) :
    d.Next (i d.cursor.function.numLocals) (d.on (d.cursor.assign i)) :=
  next_append (emitted_widen h hopen).sound (i d.cursor.function.numLocals)

/-! ## Drafts between statements -/

/-- **What lowering statements leaves**: a draft that extends the one before, in
which no block is newly left open behind. -/
structure Progress (symbols : Symbols) (d d' : Draft) : Prop where
  sound : d'.Sound symbols
  extend : d.cursor.Extends d'.cursor
  outer : d'.scopes.tail = d.scopes.tail
  behind : ∀ b, d'.cursor.function.IsOpen b → b ≠ d'.cursor.block →
    d.cursor.function.IsOpen b ∧ b ≠ d.cursor.block

/-- A sound draft is progress from itself. -/
theorem Progress.refl (h : d.Sound symbols) : Progress symbols d d :=
  ⟨h, .refl _, rfl, fun _ hb hne => ⟨hb, hne⟩⟩

/-- Progress composes. -/
theorem Progress.trans (h : Progress symbols d d') (h' : Progress symbols d' d'') :
    Progress symbols d d'' := by
  refine ⟨h'.sound, h.extend.trans h'.extend, h'.outer.trans h.outer, fun b hb hne => ?_⟩
  obtain ⟨hb', hne'⟩ := h'.behind b hb hne
  exact h.behind b hb' hne'

/-- An emission is progress. -/
theorem Emitted.progress (h : Emitted symbols d d') : Progress symbols d d' := by
  refine ⟨h.sound, h.extend, by rw [h.scopes], fun b hb hne => ?_⟩
  rw [h.spot] at hne
  have hlt : b < d.cursor.function.blocks.size := h.size ▸ hb.lt_size
  exact ⟨⟨hlt, (h.extend.kept b hlt hne).terminator?.symm.trans hb.terminator?⟩, hne⟩

/-- **What closing the current block leaves**: the same open blocks without that
one. -/
structure Sealed (symbols : Symbols) (d d' : Draft) : Prop where
  sound : d'.Sound symbols
  extend : d.cursor.Extends d'.cursor
  scopes : d'.scopes = d.scopes
  behind : ∀ b, d'.cursor.function.IsOpen b → d.cursor.function.IsOpen b ∧ b ≠ d.cursor.block

/-- The end of a block is progress. -/
theorem Sealed.progress (h : Sealed symbols d d') : Progress symbols d d' :=
  ⟨h.sound, h.extend, by rw [h.scopes], fun b hb _ => h.behind b hb⟩

/-- Progress to the end of a block, with the scopes as before, ends the block. -/
theorem Progress.sealed (h : Progress symbols d d') (h' : Sealed symbols d' d'')
    (hscopes : d'.scopes = d.scopes) : Sealed symbols d d'' := by
  refine ⟨h'.sound, h.extend.trans h'.extend, h'.scopes.trans hscopes, fun b hb => ?_⟩
  obtain ⟨hb', hne⟩ := h'.behind b hb
  exact h.behind b hb' hne

/-- A terminator ends an open block when it touches slots, leads to blocks and names
symbols that are there. -/
theorem sealed_close (h : d.Sound symbols) (hopen : d.IsOpen) (hterm : i.isTerminator = true)
    (hlocals : ∀ l ∈ i.locals, l < d.cursor.function.numLocals)
    (htargets : ∀ t ∈ i.targets, t < d.cursor.function.blocks.size) (hi : symbols.Binds i) :
    Sealed symbols d (d.on (d.cursor.close i)) := by
  have hdrafted : (d.cursor.close i).function.Drafted :=
    Function.drafted_close h.drafted hopen htargets hterm hlocals
  have hextends := Cursor.extends_close h.drafted hopen htargets
  have hagree : ∀ b, (d.cursor.close i).function.AgreeAt (d.cursor.append i).function b :=
    (Function.joined_close h.drafted hopen htargets).agreeAt
  have hbound : ∀ b k j, (d.cursor.close i).function.instrAt? b k = some j → symbols.Binds j := by
    intro b k j hj
    rw [(hagree b).instrAt?] at hj
    rcases Function.instrAt?_push_cases h.drafted hopen.lt_size hj with hold | ⟨-, -, rfl⟩
    · exact h.bound b k j hold
    · exact hi
  have hsize : (d.cursor.close i).function.blocks.size = d.cursor.function.blocks.size :=
    Function.size_close h.drafted hopen htargets
  refine ⟨h.on_cursor hdrafted hbound ?_ hextends.numLocals, hextends, rfl, fun b hb => ?_⟩
  · rw [hsize]
    exact hopen.lt_size
  · have hne : b ≠ d.cursor.block := by
      rintro rfl
      have hclosed : (d.cursor.close i).function.terminator? d.cursor.block = some i :=
        Function.terminator?_close h.drafted hopen htargets hterm
      exact Option.some_ne_none _ (hclosed.symm.trans hb.terminator?)
    have hlt : b < d.cursor.function.blocks.size := hsize ▸ hb.lt_size
    exact ⟨⟨hlt, (hextends.kept b hlt hne).terminator?.symm.trans hb.terminator?⟩, hne⟩

/-- The terminator is the next instruction. -/
theorem next_close (h : d.Sound symbols) (hopen : d.IsOpen)
    (htargets : ∀ t ∈ i.targets, t < d.cursor.function.blocks.size) :
    d.Next i (d.on (d.cursor.close i)) :=
  Function.instrAt?_close h.drafted hopen htargets

/-- A block other than the current one stays fresh. -/
theorem isFresh_of_extends (h : d.cursor.Extends d'.cursor) {b : BlockId}
    (hb : d.cursor.function.IsFresh b) (hne : b ≠ d.cursor.block) :
    d'.cursor.function.IsFresh b :=
  ⟨Nat.lt_of_lt_of_le hb.lt_size h.size, (h.kept b hb.lt_size hne).length.trans hb.length⟩

/-- A draft stays sound when the cursor goes to another open block. -/
theorem Sound.moveTo (h : d.Sound symbols) {b : BlockId} (hb : d.cursor.function.IsOpen b) :
    (d.on (d.cursor.moveTo b)).Sound symbols :=
  h.on_cursor h.drafted h.bound hb.lt_size (Nat.le_refl _)

/-- A draft stays sound with a new block. -/
theorem Sound.extend (h : d.Sound symbols) (name : String) :
    (d.on (d.cursor.extend name)).Sound symbols := by
  refine h.on_cursor (Function.drafted_extend h.drafted _) (fun b k j hj => ?_) ?_ (Nat.le_refl _)
  · exact h.bound b k j (((Function.agreeAt_extend _ _ b).instrAt? k).symm.trans hj)
  · rw [Cursor.size_extend]
    exact Nat.lt_succ_of_lt h.spot

/-- A draft stays sound at another location. -/
theorem Sound.locate (h : d.Sound symbols) (location : Location) :
    (d.on (d.cursor.locate location)).Sound symbols :=
  h.on_cursor h.drafted h.bound h.spot (Nat.le_refl _)

/-- Locations have no part in progress. -/
theorem Progress.locate (h : Progress symbols d d') (location : Location) :
    Progress symbols d (d'.on (d'.cursor.locate location)) :=
  ⟨h.sound.locate location, h.extend.locate location, h.outer, h.behind⟩

/-- Progress from another location is progress. -/
theorem Progress.of_locate {location : Location}
    (h : Progress symbols (d.on (d.cursor.locate location)) d') : Progress symbols d d' :=
  ⟨h.sound, ⟨h.extend.name, h.extend.params, h.extend.numLocals, h.extend.size, h.extend.kept,
    h.extend.holds, h.extend.spot⟩, h.outer, h.behind⟩

/-- **Three new blocks**, all fresh, next to what was there. -/
structure Forked (symbols : Symbols) (d d' : Draft) : Prop where
  sound : d'.Sound symbols
  scopes : d'.scopes = d.scopes
  spot : d'.cursor.block = d.cursor.block
  isOpen : d'.IsOpen
  size : d'.cursor.function.blocks.size = d.cursor.function.blocks.size + 3
  new : ∀ k, k < 3 → d'.cursor.function.IsFresh (d.cursor.function.blocks.size + k)
  old : ∀ b, d'.cursor.function.IsOpen b → b < d.cursor.function.blocks.size →
    d.cursor.function.IsOpen b
  agree : ∀ b, d'.cursor.function.AgreeAt d.cursor.function b
  extend : d.cursor.Extends d'.cursor
  slots : d'.cursor.function.slots = d.cursor.function.slots
  location : d'.cursor.location = d.cursor.location

/-- **Three new blocks fork a draft.** -/
theorem forked_extend (h : d.Sound symbols) (hopen : d.IsOpen) (x y z : String) :
    Forked symbols d (d.on (((d.cursor.extend x).extend y).extend z)) where
  sound := ((h.extend x).extend y).extend z
  scopes := rfl
  spot := rfl
  isOpen := ((Function.IsOpen.extend hopen (some x)).extend (some y)).extend (some z)
  size := by simp
  new k hk := by
    have hx : (d.cursor.extend x).function.IsFresh d.cursor.function.blocks.size :=
      Function.isFresh_extend_new _ _
    have hy : ((d.cursor.extend x).extend y).function.IsFresh
        (d.cursor.extend x).function.blocks.size := Function.isFresh_extend_new _ _
    have hz : (((d.cursor.extend x).extend y).extend z).function.IsFresh
        ((d.cursor.extend x).extend y).function.blocks.size := Function.isFresh_extend_new _ _
    simp only [Cursor.size_extend] at hy hz
    match k, hk with
    | 0, _ => exact (hx.extend (some y)).extend (some z)
    | 1, _ => exact hy.extend (some z)
    | 2, _ => exact hz
  old b hb hlt := by
    have hy : b < (d.cursor.extend x).function.blocks.size := by
      rw [Cursor.size_extend]
      exact Nat.lt_succ_of_lt hlt
    have hz : b < ((d.cursor.extend x).extend y).function.blocks.size := by
      rw [Cursor.size_extend]
      exact Nat.lt_succ_of_lt hy
    have hopen₂ := Function.IsOpen.of_extend hb (Nat.ne_of_lt hz)
    have hopen₁ := Function.IsOpen.of_extend hopen₂ (Nat.ne_of_lt hy)
    exact Function.IsOpen.of_extend hopen₁ (Nat.ne_of_lt hlt)
  agree b := ((Function.agreeAt_extend _ _ b).trans (Function.agreeAt_extend _ _ b)).trans
    (Function.agreeAt_extend _ _ b)
  extend := ((Cursor.extends_extend _ x).trans (Cursor.extends_extend _ y)).trans
    (Cursor.extends_extend _ z)
  slots := rfl
  location := rfl

end Draft

end Source

end BlockIR
