import BlockIR.Proofs.Source.Yields
/-!
# Lowering of control flow

The forms that direct control flow, with their parts left open: lowering goes on
in an open block, a block of statements has a scope of its own, and branches and
loops are built from three new blocks. For a branch and a loop it is also said
which drafts lie between the first and the last, and which instructions lead
from one to the other.
-/

namespace BlockIR

open Success

namespace Source

namespace Draft

variable {symbols : Symbols} {function : String} {names : List String} {d d' : Draft}

/-- **A draft between statements**, of a function with a name and with some names
in scope. Its current block may be closed. -/
structure Standing (symbols : Symbols) (function : String) (names : List String) (d : Draft) :
    Prop where
  sound : d.Sound symbols
  function : d.cursor.function.name = function
  names : namesOf d.scopes = names

/-- **A draft that code can be emitted into.** -/
structure Working (symbols : Symbols) (function : String) (names : List String) (d : Draft) :
    Prop extends Standing symbols function names d where
  isOpen : d.IsOpen

/-- An open draft can be worked on. -/
theorem Sound.working (h : d.Sound symbols) (hopen : d.IsOpen) :
    d.Working symbols d.cursor.function.name (namesOf d.scopes) :=
  ⟨⟨h, rfl, rfl⟩, hopen⟩

theorem Working.emitted (h : d.Working symbols function names) (he : Emitted symbols d d') :
    d'.Working symbols function names where
  sound := he.sound
  function := he.extend.name.trans h.function
  names := by rw [he.scopes]; exact h.names
  isOpen := he.isOpen

/-- What lowering an expression leaves, with the operand that holds its value. -/
structure Delivers (symbols : Symbols) (d : Draft) (o : Operand) (d' : Draft) : Prop where
  emitted : Emitted symbols d d'
  operand : ∀ l ∈ o.local?, l < d'.cursor.function.numLocals

/-- An operand stays good while more code is emitted. -/
theorem Delivers.operand_of_emitted {d'' : Draft} {o : Operand} (h : Delivers symbols d o d')
    (he : Emitted symbols d' d'') : ∀ l ∈ o.local?, l < d''.cursor.function.numLocals :=
  fun l hl => Nat.lt_of_lt_of_le (h.operand l hl) he.extend.numLocals

end Draft

namespace Lower

open Draft

variable {symbols : Symbols} {env : Environment} {function : String} {names : List String}
variable {d d' : Draft} {i : Instruction}

/-- An instruction touches slots below a bound if its operands read and it writes
such slots. -/
theorem locals_lt {n : Nat} (hops : ∀ o ∈ i.operands, ∀ l ∈ o.local?, l < n)
    (hdef : ∀ l ∈ i.def?, l < n) : ∀ l ∈ i.locals, l < n := by
  intro l hl
  rcases List.mem_append.mp hl with hop | hd
  · obtain ⟨o, ho, hlocal⟩ := List.mem_filterMap.mp hop
    exact hops o ho l hlocal
  · exact hdef l (Option.mem_toList.mp hd)

theorem isClosed_eq_false (h : d.Sound symbols) : d.cursor.isClosed = false ↔ d.IsOpen := by
  simp only [Cursor.isClosed, Option.isSome_eq_false_iff, Option.isNone_iff_eq_none]
  exact ⟨fun hnone => ⟨h.spot, hnone⟩, fun hopen => hopen.terminator?⟩

/-- Lowering a statement begins in an open block. -/
theorem reopen_yields (h : d.Standing symbols function names) :
    Yields env function reopen d [] fun _ d' =>
      Progress symbols d d' ∧ d'.scopes = d.scopes ∧ d'.Working symbols function names ∧
        (d.IsOpen → d' = d) ∧ (¬ d.IsOpen → ∃ name, d' =
          d.on ((d.cursor.extend name).moveTo d.cursor.function.blocks.size)) := by
  unfold reopen
  refine .step (isClosed_eq_ok d) ?_
  cases hc : d.cursor.isClosed with
  | false =>
    have hopen := (isClosed_eq_false h.sound).mp hc
    exact .pure ⟨.refl h.sound, rfl, ⟨h, hopen⟩, fun _ => rfl, fun hclosed => absurd hopen hclosed⟩
  | true =>
    have hnew : (d.cursor.extend "unreachable").function.IsOpen d.cursor.function.blocks.size :=
      (Function.isFresh_extend_new _ _).isOpen
    have hsound := (h.sound.extend "unreachable").moveTo hnew
    have hclosed : ¬ d.IsOpen := by
      simp [← isClosed_eq_false h.sound, hc]
    refine .step (newBlock_eq_ok "unreachable" d) (.of_ok (moveTo_eq_ok _ _) ⟨⟨hsound, ?_, rfl, ?_⟩,
      rfl, ⟨⟨hsound, h.function, h.names⟩, hnew⟩, fun hopen => absurd hopen hclosed,
      fun _ => ⟨_, rfl⟩⟩)
    · exact (Cursor.extends_extend _ _).moveTo (Nat.le_refl _)
    · intro b hb hne
      refine ⟨Function.IsOpen.of_extend hb hne, ?_⟩
      rintro rfl
      exact hclosed (Function.IsOpen.of_extend hb hne)

/-- **The end of the current block**: an open one is closed by a terminator, with a
location, and a closed one stays. -/
def Ends (i : Instruction) (location : Location) (d d' : Draft) : Prop :=
  (d.IsOpen → d' = d.on ((d.cursor.locate location).close i)) ∧ (¬ d.IsOpen → d' = d)

/-- A block that is still open gets a terminator, whatever is done about locations
before. -/
theorem closeWith_yields (i : Instruction) (location : Location) {x : Lower Unit}
    (h : d.Sound symbols)
    (hterm : i.isTerminator = true) (hlocals : i.locals = [])
    (htargets : ∀ t ∈ i.targets, t < d.cursor.function.blocks.size) (hi : symbols.Binds i)
    (hx : d.IsOpen → x d = .ok ((), d.on ((d.cursor.locate location).close i))) :
    Yields env function (do unless ← isClosed do x) d [] fun _ d' =>
      Sealed symbols d d' ∧ (d.IsOpen → d.Next i d') ∧ Ends i location d d' := by
  refine .step (isClosed_eq_ok d) ?_
  cases hc : d.cursor.isClosed with
  | true =>
    have hclosed : ¬ d.IsOpen := by
      simp [← isClosed_eq_false h, hc]
    refine .pure ⟨⟨h, .refl _, rfl, fun b hb => ⟨hb, ?_⟩⟩, fun hopen => absurd hopen hclosed,
      fun hopen => absurd hopen hclosed, fun _ => rfl⟩
    rintro rfl
    exact hclosed hb
  | false =>
    have hopen := (isClosed_eq_false h).mp hc
    have hsealed : Sealed symbols (d.on (d.cursor.locate location))
        (d.on ((d.cursor.locate location).close i)) :=
      sealed_close (h.locate location) hopen hterm (by rw [hlocals]; exact nofun) htargets hi
    exact .of_ok (hx hopen)
      ⟨⟨hsealed.sound, hsealed.progress.of_locate.extend, rfl, hsealed.behind⟩,
      fun _ => next_close (h.locate location) hopen htargets, fun _ => rfl,
      fun hclosed => absurd hopen hclosed⟩

theorem jumpIfOpen_yields (h : d.Sound symbols) {target : BlockId}
    (ht : target < d.cursor.function.blocks.size) :
    Yields env function (jumpIfOpen target) d [] fun _ d' =>
      Sealed symbols d d' ∧ (d.IsOpen → d.Next (.jump target) d') ∧
        Ends (.jump target) d.cursor.location d d' :=
  closeWith_yields (.jump target) d.cursor.location h rfl rfl (List.forall_mem_singleton.mpr ht)
    (Symbols.binds_of_none rfl rfl) fun hopen => emit_eq_ok (Emit.apply_jump hopen ht)

/-- The end of a body: a block that is still open returns null. -/
theorem closeBody_yields (h : d.Sound symbols) :
    Yields env function closeBody d [] fun _ d' =>
      Sealed symbols d d' ∧ (d.IsOpen → d.Next (.ret .null) d') ∧
        Ends (.ret .null) .builtin d d' := by
  refine closeWith_yields (.ret .null) .builtin h rfl rfl nofun (Symbols.binds_of_none rfl rfl)
    fun hopen => ?_
  have hret : emit (Emit.ret .null) (d.on (d.cursor.locate .builtin)) = .ok ((), _) :=
    emit_eq_ok (Emit.apply_ret (c := d.cursor.locate .builtin) hopen .null)
  exact hret

/-! ## Blocks of statements -/

/-- The draft when a block of statements begins. -/
def openScope (d : Draft) : Draft := { d with scopes := [] :: d.scopes }

/-- The draft when a block of statements is over. -/
def closeScope (d : Draft) : Draft := { d with scopes := d.scopes.tail }

theorem openScope_sound (h : d.Sound symbols) : (openScope d).Sound symbols :=
  ⟨h.drafted, h.bound, h.spot, h.slots, h.distinct, List.cons_ne_nil _ _⟩

/-- The statements of a list are lowered in a scope of their own. -/
theorem inScope_yields {x : Lower Unit} {refs : List Reference}
    (h : d.Standing symbols function names)
    (hx : ∀ d', d'.Standing symbols function names →
      Yields env function x d' refs fun _ d'' => Progress symbols d' d'') :
    Yields env function (inScope x) d refs fun _ d' =>
      Progress symbols d d' ∧ d'.scopes = d.scopes ∧
        ∃ inner, x (openScope d) = .ok ((), inner) ∧ d' = closeScope inner := by
  have hinner : (openScope d).Standing symbols function names :=
    ⟨openScope_sound h.sound, h.function, h.names⟩
  unfold inScope
  refine .step (a := ()) rfl (.before (hx _ hinner).traced fun _ d' hd => ?_)
  obtain ⟨hrun, hd⟩ := hd
  have hscopes : d'.scopes.tail = d.scopes := hd.outer
  have hsound : (closeScope d').Sound symbols := by
    rw [closeScope, hscopes]
    exact ⟨hd.sound.drafted, hd.sound.bound, hd.sound.spot,
      fun entry he => Nat.lt_of_lt_of_le (h.sound.slots entry he) hd.extend.numLocals,
      h.sound.distinct, h.sound.nonempty⟩
  exact .of_ok (a := ()) rfl
    ⟨⟨hsound, hd.extend, congrArg List.tail hscopes, hd.behind⟩, hscopes, d', hrun, rfl⟩

/-- **An arm of a branch**, from where control enters it: statements in a scope of
their own, then a jump to where the arms meet. -/
structure Arm (symbols : Symbols) (x : Lower Unit) (target : BlockId) (d inner d' : Draft) :
    Prop where
  run : x (openScope d) = .ok ((), inner)
  progress : Progress symbols d (closeScope inner)
  scopes : (closeScope inner).scopes = d.scopes
  leave : Sealed symbols (closeScope inner) d'
  jump : inner.IsOpen → (closeScope inner).Next (.jump target) d'
  ends : Ends (.jump target) inner.cursor.location (closeScope inner) d'

theorem Arm.sealed {x : Lower Unit} {target : BlockId} {inner : Draft}
    (h : Arm symbols x target d inner d') : Sealed symbols d d' :=
  h.progress.sealed h.leave h.scopes

theorem arm_yields {x k : Lower Unit} {refs refs' : List Reference} {last : Unit → Draft → Prop}
    (h : d.Standing symbols function names) {target : BlockId}
    (ht : target < d.cursor.function.blocks.size)
    (hx : ∀ d', d'.Standing symbols function names →
      Yields env function x d' refs fun _ d'' => Progress symbols d' d'')
    (hk : ∀ inner d', Arm symbols x target d inner d' → Yields env function k d' refs' last) :
    Yields env function (do inScope x; jumpIfOpen target; k) d (refs ++ refs') last := by
  refine .bind (inScope_yields h hx) ?_
  rintro _ _ ⟨h₁, hscopes, inner, hrun, rfl⟩
  refine .after (jumpIfOpen_yields h₁.sound (Nat.lt_of_lt_of_le ht h₁.extend.size)) ?_
  rintro _ d₂ ⟨h₂, hjump, hends⟩
  exact hk inner d₂ ⟨hrun, h₁, hscopes, h₂, hjump, hends⟩

/-! ## Branches and loops -/

/-- Three blocks are added before what follows. -/
theorem fork_yields {x y z : String} {k : BlockId → BlockId → BlockId → Lower Unit}
    {refs : List Reference} {last : Unit → Draft → Prop} (h : d.Working symbols function names)
    (hk : ∀ d', Forked symbols d d' → Yields env function
      (k d.cursor.function.blocks.size (d.cursor.function.blocks.size + 1)
        (d.cursor.function.blocks.size + 2)) d' refs last) :
    Yields env function (do
      let a ← newBlock x
      let b ← newBlock y
      let c ← newBlock z
      k a b c) d refs last := by
  refine .step (newBlock_eq_ok _ _) (.step (newBlock_eq_ok _ _) (.step (newBlock_eq_ok _ _) ?_))
  simp only [cursor_on, Cursor.size_extend]
  exact hk _ (forked_extend h.sound h.isOpen x y z)

/-- Control goes on in another block. -/
theorem standing_moveTo (h : d.Standing symbols function names) (hd : Sealed symbols d d')
    {b : BlockId} (hb : d'.cursor.function.IsFresh b) :
    (d'.on (d'.cursor.moveTo b)).Working symbols function names where
  sound := hd.sound.moveTo hb.isOpen
  function := hd.extend.name.trans h.function
  names := by
    rw [scopes_on, hd.scopes]
    exact h.names
  isOpen := hb.isOpen

/-- A branch to two blocks closes the current one. -/
theorem branch_sealed (h : d.Sound symbols) (hopen : d.IsOpen) {c : Operand}
    (hc : ∀ l ∈ c.local?, l < d.cursor.function.numLocals) {t e : BlockId}
    (ht : t < d.cursor.function.blocks.size) (he : e < d.cursor.function.blocks.size) :
    Sealed symbols d (d.on (d.cursor.close (.branch c t e))) ∧
      d.Next (.branch c t e) (d.on (d.cursor.close (.branch c t e))) := by
  have htargets : ∀ b ∈ (Instruction.branch c t e).targets, b < d.cursor.function.blocks.size := by
    intro b hb
    rcases Instruction.mem_targets_branch.mp hb with rfl | rfl
    · exact ht
    · exact he
  exact ⟨sealed_close h hopen rfl (locals_lt (List.forall_mem_singleton.mpr hc) nofun) htargets
    (Symbols.binds_of_none rfl rfl), next_close h hopen htargets⟩

/-- A block below three others that is none of them. -/
theorem lt_of_lt_add_three {b n : Nat} (hlt : b < n + 3) (h₀ : b ≠ n) (h₁ : b ≠ n + 1)
    (h₂ : b ≠ n + 2) : b < n := by
  omega

/-- What follows three new blocks goes on where the code ended before. -/
theorem next_of_forked (h : Forked symbols d d') {d'' : Draft} (hnext : d'.Next i d'') :
    d.Next i d'' := by
  rw [Next, h.spot, (h.agree _).length] at hnext
  exact hnext

theorem standing_of_forked (hf : Forked symbols d d') (h : d.Standing symbols function names) :
    d'.Standing symbols function names :=
  ⟨hf.sound, hf.extend.name.trans h.function, (congrArg namesOf hf.scopes).trans h.names⟩

/-- The end of the block before three new ones leaves these empty. -/
theorem isFresh_of_forked (hf : Forked symbols d d') (h : d.Sound symbols) {d'' : Draft}
    (hd : Sealed symbols d' d'') {k : Nat} (hk : k < 3) :
    d''.cursor.function.IsFresh (d.cursor.function.blocks.size + k) := by
  refine isFresh_of_extends hd.extend (hf.new k hk) (Nat.ne_of_gt ?_)
  rw [hf.spot]
  exact Nat.lt_of_lt_of_le h.spot (Nat.le_add_right _ k)

/-- A block that is open after the end of the one before three new ones, and is
none of these, was open before. -/
theorem behind_of_forked (hf : Forked symbols d d') {d'' : Draft} (hd : Sealed symbols d' d'')
    {b : BlockId} (hb : d''.cursor.function.IsOpen b)
    (h₀ : b ≠ d.cursor.function.blocks.size) (h₁ : b ≠ d.cursor.function.blocks.size + 1)
    (h₂ : b ≠ d.cursor.function.blocks.size + 2) :
    d.cursor.function.IsOpen b ∧ b ≠ d.cursor.block := by
  obtain ⟨hb', hspot⟩ := hd.behind b hb
  have hlt : b < d.cursor.function.blocks.size + 3 := hf.size ▸ hb'.lt_size
  exact ⟨hf.old b hb' (lt_of_lt_add_three hlt h₀ h₁ h₂), hf.spot ▸ hspot⟩

/-- **The course of a branch**: from the draft where its condition was evaluated,
over the ones where its arms begin, to the one where they meet. Its blocks are
counted from `n`. -/
structure Branched (symbols : Symbols) (c : Operand) (thenPart elsePart : Lower Unit) (n : BlockId)
    (d forked inner₁ after₁ inner₂ after₂ : Draft) : Prop where
  sound : forked.Sound symbols
  extend : d.cursor.Extends forked.cursor
  scopes : forked.scopes = d.scopes
  first : n = d.cursor.function.blocks.size
  fork : ∃ wide, Forked symbols d wide ∧
    forked = wide.on (wide.cursor.close (.branch c n (n + 1)))
  branch : d.Next (.branch c n (n + 1)) forked
  thenFresh : forked.cursor.function.IsFresh n
  thenArm : Arm symbols thenPart (n + 2) (forked.on (forked.cursor.moveTo n)) inner₁ after₁
  elseFresh : after₁.cursor.function.IsFresh (n + 1)
  elseArm : Arm symbols elsePart (n + 2) (after₁.on (after₁.cursor.moveTo (n + 1))) inner₂ after₂
  joinFresh : after₂.cursor.function.IsFresh (n + 2)

/-- **A branch with two arms that meet again.** -/
theorem ite_yields {thenPart elsePart : Lower Unit} {thenRefs elseRefs : List Reference}
    {c : Operand} (h : d.Working symbols function names)
    (hc : ∀ l ∈ c.local?, l < d.cursor.function.numLocals)
    (hthen : ∀ d', d'.Standing symbols function names →
      Yields env function thenPart d' thenRefs fun _ d'' => Progress symbols d' d'')
    (helse : ∀ d', d'.Standing symbols function names →
      Yields env function elsePart d' elseRefs fun _ d'' => Progress symbols d' d'') :
    Yields env function (do
      let thenBlock ← newBlock "if.then"
      let elseBlock ← newBlock "if.else"
      let join ← newBlock "if.end"
      emit (Emit.branch c thenBlock elseBlock)
      moveTo thenBlock
      inScope thenPart
      jumpIfOpen join
      moveTo elseBlock
      inScope elsePart
      jumpIfOpen join
      moveTo join) d (thenRefs ++ elseRefs) fun _ d' =>
        Progress symbols d d' ∧ d'.scopes = d.scopes ∧
          ∃ n forked inner₁ after₁ inner₂ after₂,
            Branched symbols c thenPart elsePart n d forked inner₁ after₁ inner₂ after₂ ∧
              d' = after₂.on (after₂.cursor.moveTo (n + 2)) := by
  refine fork_yields h fun d₁ hf => ?_
  generalize hn : d.cursor.function.blocks.size = n
  have hnew : ∀ k, k < 3 → d₁.cursor.function.IsFresh (n + k) := hn ▸ hf.new
  -- the branch closes the block where the condition was evaluated
  refine .step (emit_eq_ok (Emit.apply_branch hf.isOpen c (hnew 0 (by decide)).lt_size
    (hnew 1 (by decide)).lt_size)) ?_
  obtain ⟨h₂, hbranch⟩ := branch_sealed hf.sound hf.isOpen
    (fun l hl => Nat.lt_of_lt_of_le (hc l hl) hf.extend.numLocals) (hnew 0 (by decide)).lt_size
    (hnew 1 (by decide)).lt_size
  generalize hd₂ : d₁.on (d₁.cursor.close (.branch c n (n + 1))) = d₂ at h₂ hbranch ⊢
  have hfresh₂ : ∀ k, k < 3 → d₂.cursor.function.IsFresh (n + k) := fun k hk =>
    hn ▸ isFresh_of_forked hf h.sound h₂ hk
  have hw₂ := standing_moveTo (standing_of_forked hf h.toStanding) h₂ (hfresh₂ 0 (by decide))
  refine .step (moveTo_eq_ok _ _) (arm_yields hw₂.toStanding (hfresh₂ 2 (by decide)).lt_size hthen
    fun inner₃ d₃ harm₃ => ?_)
  have h₃ := harm₃.sealed
  have hfresh₃ : ∀ k, 0 < k → k < 3 → d₃.cursor.function.IsFresh (n + k) := fun k hpos hk =>
    isFresh_of_extends h₃.extend (hfresh₂ k hk) (Nat.ne_of_gt (Nat.lt_add_of_pos_right hpos))
  have hw₃ := standing_moveTo hw₂.toStanding h₃ (hfresh₃ 1 (by decide) (by decide))
  refine .step (moveTo_eq_ok _ _) ?_
  rw [← List.append_nil elseRefs]
  refine arm_yields hw₃.toStanding (hfresh₃ 2 (by decide) (by decide)).lt_size helse
    fun inner₄ d₄ harm₄ => ?_
  have h₄ := harm₄.sealed
  have hfresh₄ : d₄.cursor.function.IsFresh (n + 2) :=
    isFresh_of_extends h₄.extend (hfresh₃ 2 (by decide) (by decide))
      (Nat.ne_of_gt (Nat.lt_succ_self (n + 1)))
  have hscopes₂ : d₂.scopes = d.scopes := h₂.scopes.trans hf.scopes
  have hscopes : d₄.scopes = d.scopes := h₄.scopes.trans (h₃.scopes.trans hscopes₂)
  have hle : ∀ k, d.cursor.function.blocks.size ≤ n + k := fun k => hn ▸ Nat.le_add_right _ k
  have hextends := (((((hf.extend.trans h₂.extend).moveTo (hle 0)).trans h₃.extend).moveTo
    (hle 1)).trans h₄.extend).moveTo (hle 2)
  refine .of_ok (moveTo_eq_ok _ _) ⟨⟨h₄.sound.moveTo hfresh₄.isOpen, hextends,
    congrArg List.tail hscopes, fun b hb hne => ?_⟩, hscopes, n, d₂, inner₃, d₃, inner₄, d₄,
    ⟨h₂.sound, hf.extend.trans h₂.extend, hscopes₂, hn.symm, ⟨d₁, hf, hd₂.symm⟩,
      next_of_forked hf hbranch, hfresh₂ 0 (by decide), harm₃, hfresh₃ 1 (by decide) (by decide),
      harm₄, hfresh₄⟩, rfl⟩
  -- what is still open was so before each part, which excludes the new blocks in turn
  obtain ⟨hb₃, hne₃⟩ := h₄.behind b hb
  obtain ⟨hb₂, hne₂⟩ := h₃.behind b hb₃
  exact behind_of_forked hf h₂ hb₂ (hn ▸ hne₂) (hn ▸ hne₃) (hn ▸ hne)

/-- **The course of a loop**: from the draft before it, over the ones where its
condition and its body begin, to the one behind it. Its blocks are counted from
`n`. -/
structure Looped (symbols : Symbols) (condition : Lower Operand) (bodyPart : Lower Unit)
    (n : BlockId) (d forked tested branched inner after : Draft) (c : Operand) : Prop where
  sound : forked.Sound symbols
  extend : d.cursor.Extends forked.cursor
  scopes : forked.scopes = d.scopes
  first : n = d.cursor.function.blocks.size
  fork : ∃ wide, Forked symbols d wide ∧ forked = wide.on (wide.cursor.close (.jump n))
  jump : d.Next (.jump n) forked
  testFresh : forked.cursor.function.IsFresh n
  run : condition (forked.on (forked.cursor.moveTo n)) = .ok (c, tested)
  test : Delivers symbols (forked.on (forked.cursor.moveTo n)) c tested
  branch : tested.Next (.branch c (n + 1) (n + 2)) branched
  choice : branched = tested.on (tested.cursor.close (.branch c (n + 1) (n + 2)))
  close : Sealed symbols tested branched
  bodyFresh : branched.cursor.function.IsFresh (n + 1)
  arm : Arm symbols bodyPart n (branched.on (branched.cursor.moveTo (n + 1))) inner after
  exitFresh : after.cursor.function.IsFresh (n + 2)

/-- **A loop**: its condition is evaluated in a block of its own, to which its body
comes back. -/
theorem loop_yields {bodyPart : Lower Unit} {condition : Lower Operand}
    {condRefs bodyRefs : List Reference} (h : d.Working symbols function names)
    (hcond : ∀ d', d'.Working symbols function names →
      Yields env function condition d' condRefs (Delivers symbols d'))
    (hbody : ∀ d', d'.Standing symbols function names →
      Yields env function bodyPart d' bodyRefs fun _ d'' => Progress symbols d' d'') :
    Yields env function (do
      let test ← newBlock "while.cond"
      let inside ← newBlock "while.body"
      let exit ← newBlock "while.end"
      emit (Emit.jump test)
      moveTo test
      let c ← condition
      emit (Emit.branch c inside exit)
      moveTo inside
      inScope bodyPart
      jumpIfOpen test
      moveTo exit) d (condRefs ++ bodyRefs) fun _ d' =>
        Progress symbols d d' ∧ d'.scopes = d.scopes ∧
          ∃ n forked tested branched inner after c,
            Looped symbols condition bodyPart n d forked tested branched inner after c ∧
              d' = after.on (after.cursor.moveTo (n + 2)) := by
  refine fork_yields h fun d₁ hf => ?_
  generalize hn : d.cursor.function.blocks.size = n
  have hnew : ∀ k, k < 3 → d₁.cursor.function.IsFresh (n + k) := hn ▸ hf.new
  -- a jump into the first new block closes the one before the loop
  have htest₁ : ∀ t ∈ (Instruction.jump n).targets, t < d₁.cursor.function.blocks.size :=
    List.forall_mem_singleton.mpr (hnew 0 (by decide)).lt_size
  refine .step (emit_eq_ok (Emit.apply_jump hf.isOpen (hnew 0 (by decide)).lt_size)) ?_
  have h₂ : Sealed symbols d₁ (d₁.on (d₁.cursor.close (.jump n))) :=
    sealed_close hf.sound hf.isOpen rfl nofun htest₁ (Symbols.binds_of_none rfl rfl)
  have hjump := next_close hf.sound hf.isOpen htest₁
  generalize hd₂ : d₁.on (d₁.cursor.close (.jump n)) = d₂ at h₂ hjump ⊢
  have hfresh₂ : ∀ k, k < 3 → d₂.cursor.function.IsFresh (n + k) := fun k hk =>
    hn ▸ isFresh_of_forked hf h.sound h₂ hk
  have hw₂ := standing_moveTo (standing_of_forked hf h.toStanding) h₂ (hfresh₂ 0 (by decide))
  refine .step (moveTo_eq_ok _ _) (.bind (hcond _ hw₂).traced ?_)
  rintro c d₃ ⟨hrun₃, h₃⟩
  have hw₃ := hw₂.emitted h₃.emitted
  have hfresh₃ : ∀ k, 0 < k → k < 3 → d₃.cursor.function.IsFresh (n + k) := fun k hpos hk =>
    isFresh_of_extends h₃.emitted.extend (hfresh₂ k hk)
      (Nat.ne_of_gt (Nat.lt_add_of_pos_right hpos))
  -- the condition has no blocks of its own, so the branch closes the first new block
  have hinside := (hfresh₃ 1 (by decide) (by decide)).lt_size
  have hexit := (hfresh₃ 2 (by decide) (by decide)).lt_size
  refine .step (emit_eq_ok (Emit.apply_branch hw₃.isOpen c hinside hexit)) ?_
  obtain ⟨h₄, hbranch⟩ := branch_sealed hw₃.sound hw₃.isOpen h₃.operand hinside hexit
  generalize hd₄ : d₃.on (d₃.cursor.close (.branch c (n + 1) (n + 2))) = d₄ at h₄ hbranch ⊢
  have hspot₃ : d₃.cursor.block = n := h₃.emitted.spot
  have hfresh₄ : ∀ k, 0 < k → k < 3 → d₄.cursor.function.IsFresh (n + k) := fun k hpos hk =>
    isFresh_of_extends h₄.extend (hfresh₃ k hpos hk)
      (hspot₃ ▸ Nat.ne_of_gt (Nat.lt_add_of_pos_right hpos))
  -- the body jumps back, to a block that is closed by now
  have htest : n < d₄.cursor.function.blocks.size :=
    Nat.lt_of_lt_of_le (hfresh₂ 0 (by decide)).lt_size
      (Nat.le_trans h₃.emitted.extend.size h₄.extend.size)
  have hw₄ := standing_moveTo hw₃.toStanding h₄ (hfresh₄ 1 (by decide) (by decide))
  refine .step (moveTo_eq_ok _ _) ?_
  rw [← List.append_nil bodyRefs]
  refine arm_yields hw₄.toStanding htest hbody fun inner₅ d₅ harm₅ => ?_
  have h₅ := harm₅.sealed
  have hfresh₅ : d₅.cursor.function.IsFresh (n + 2) :=
    isFresh_of_extends h₅.extend (hfresh₄ 2 (by decide) (by decide))
      (Nat.ne_of_gt (Nat.lt_succ_self (n + 1)))
  have hscopes₂ : d₂.scopes = d.scopes := h₂.scopes.trans hf.scopes
  have hscopes : d₅.scopes = d.scopes :=
    h₅.scopes.trans (h₄.scopes.trans (h₃.emitted.scopes.trans hscopes₂))
  have hle : ∀ k, d.cursor.function.blocks.size ≤ n + k := fun k => hn ▸ Nat.le_add_right _ k
  have hextends := ((((((hf.extend.trans h₂.extend).moveTo (hle 0)).trans
    h₃.emitted.extend).trans h₄.extend).moveTo (hle 1)).trans h₅.extend).moveTo (hle 2)
  refine .of_ok (moveTo_eq_ok _ _) ⟨⟨h₅.sound.moveTo hfresh₅.isOpen, hextends,
    congrArg List.tail hscopes, fun b hb hne => ?_⟩, hscopes, n, d₂, d₃, d₄, inner₅, d₅, c,
    ⟨h₂.sound, hf.extend.trans h₂.extend, hscopes₂, hn.symm, ⟨d₁, hf, hd₂.symm⟩,
      next_of_forked hf hjump, hfresh₂ 0 (by decide), hrun₃, h₃, hbranch, hd₄.symm, h₄,
      hfresh₄ 1 (by decide) (by decide), harm₅, hfresh₅⟩, rfl⟩
  obtain ⟨hb₄, hne₄⟩ := h₅.behind b hb
  obtain ⟨hb₃, hne₃⟩ := h₄.behind b hb₄
  obtain ⟨hb₂, hne₂⟩ := h₃.emitted.progress.behind b hb₃ hne₃
  exact behind_of_forked hf h₂ hb₂ (hn ▸ hne₂) (hn ▸ hne₄) (hn ▸ hne)

end Lower

end Source

end BlockIR
