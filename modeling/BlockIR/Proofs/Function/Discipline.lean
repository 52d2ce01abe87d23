import BlockIR.Proofs.Function.Cursor
import BlockIR.Proofs.Function.Insertion
import BlockIR.Proofs.Function.Verdict
import Mathlib.Data.Finset.Range
/-!
# What cursors make of a function

A function is built in sessions. In each of them a new cursor starts at the
entry, moves to blocks that may be closed or missing, and emits. Some emissions
fail, and leave a reserved slot or a detached instruction behind.

`Tidy` holds after all of that: a terminator is the last of its block, and the
successors of a block are the targets of its terminator, in order. Nothing keeps
an emission from naming a local slot that is not there, so tidy code is drafted
only once it is given slots enough; that, and that blocks are closed, is what is
left to the check.
-/

namespace BlockIR

open Success

/-- **The emission records the edges of what it appends.** A bare append records
none, so it must not append a terminator. -/
def Emission.recordsEdges : Emission → Bool
  | .append instr => !instr.isTerminator
  | _ => true

/-- The cursor that emissions leave, one after the other, whether they succeed or
fail. -/
def Emission.leaveAll (emissions : List Emission) (c : Cursor) : Cursor :=
  emissions.foldl (fun c e => e.leave c) c

/-- **The function after some sessions**, each with a cursor of its own. -/
def Function.worked (sessions : List (List Emission)) (f : Function) : Function :=
  sessions.foldl (fun f session => (Emission.leaveAll session (Cursor.atEntry f)).function) f

/-- A terminator leads to no block twice. -/
theorem Instruction.targets_nodup (i : Instruction) : i.targets.Nodup := by
  cases i with
  | branch cond t e =>
    simp only [targets]
    split
    · exact List.nodup_singleton t
    · rename_i hne
      simpa using hne
  | jump t => exact List.nodup_singleton t
  | _ => exact List.nodup_nil

namespace Function

variable {f : Function} {b : BlockId} {i : Instruction} {location : Location}

/-! ## The number of local slots -/

/-- The function with another number of local slots. -/
def withLocals (f : Function) (n : Nat) : Function := { f with numLocals := n }

/-- The function with a detached instruction in its arena. -/
def stock (f : Function) (i : Instruction) (location : Location) : Function :=
  { f with slots := f.slots.push { instr := i, location := location } }

/-- Code stays drafted with more slots. -/
theorem Drafted.withLocals (hf : f.Drafted) {n : Nat} (hn : f.numLocals ≤ n) :
    (f.withLocals n).Drafted where
  numbered := hf.numbered
  owned := hf.owned
  early := hf.early
  locals b k i hi l hl := Nat.lt_of_lt_of_le (hf.locals b k i hi l hl) hn
  taken := hf.taken
  paired := hf.paired

/-- The number of slots does not close a block. -/
theorem isOpen_withLocals (n : Nat) (h : f.IsOpen b) : (f.withLocals n).IsOpen b :=
  ⟨h.lt_size, h.terminator?⟩

/-- Pushing an instruction and changing the number of slots commute. -/
theorem push_withLocals (f : Function) (n : Nat) (b : BlockId) (i : Instruction)
    (location : Location) :
    (f.withLocals n).push b i location = (f.push b i location).withLocals n := rfl

/-- Adding edges and changing the number of slots commute. -/
theorem joinAll_withLocals (f : Function) (n : Nat) (src : BlockId) (dsts : List BlockId) :
    (f.withLocals n).joinAll src dsts = (f.joinAll src dsts).withLocals n := by
  induction dsts generalizing f with
  | nil => rfl
  | cons dst rest ih =>
    have hjoin : (f.withLocals n).join src dst = (f.join src dst).withLocals n := by
      have hsuccs : (f.withLocals n).succsOf src = f.succsOf src := rfl
      unfold join
      rw [hsuccs]
      split <;> rfl
    rw [joinAll, List.foldl_cons, hjoin]
    exact ih (f.join src dst)

/-- Closing a block and changing the number of slots commute. -/
theorem close_withLocals (f : Function) (n : Nat) (b : BlockId) (i : Instruction)
    (location : Location) :
    (f.withLocals n).close b i location = (f.close b i location).withLocals n := by
  rw [close, push_withLocals, joinAll_withLocals, close]

/-- A detached instruction is no part of the code. -/
theorem agreeAt_stock (hf : f.Drafted) (i : Instruction) (location : Location) (c : BlockId) :
    AgreeAt (f.stock i location) f c := by
  refine agreeAt_of_instrs rfl fun block hb id hid => ?_
  rw [stock, Array.getElem?_push, if_neg (Nat.ne_of_lt (hf.lt_slots hb hid))]

/-- Code stays drafted when an instruction is put into the arena only. -/
theorem drafted_stock (hf : f.Drafted) (i : Instruction) (location : Location) :
    (f.stock i location).Drafted := by
  have hagree := agreeAt_stock hf i location
  refine ⟨hf.numbered, fun c block hc id hid => ?_, fun c k j hj => ?_, fun c k j hj => ?_,
    fun c t => ?_, hf.paired⟩
  · obtain ⟨slot, hslot, howner⟩ := hf.owned c block hc id hid
    refine ⟨slot, ?_, howner⟩
    rw [stock, Array.getElem?_push, if_neg (Nat.ne_of_lt (hf.lt_slots hc hid)), hslot]
  · rw [(hagree c).instrAt?] at hj
    rw [(hagree c).length]
    exact hf.early c k j hj
  · rw [(hagree c).instrAt?] at hj
    exact hf.locals c k j hj
  · rw [(hagree c).targetsOf]
    exact hf.taken c t

/-- New edges follow those that are there, in the order in which they are
recorded. -/
theorem succsOf_joinAll {src : BlockId} {dsts : List BlockId} (hsrc : src < f.blocks.size)
    (hnodup : (f.succsOf src ++ dsts).Nodup) (c : BlockId) :
    (f.joinAll src dsts).succsOf c = if c = src then f.succsOf src ++ dsts else f.succsOf c := by
  induction dsts generalizing f with
  | nil =>
    rw [List.append_nil]
    split
    · rename_i hc
      rw [hc]
      rfl
    · rfl
  | cons dst rest ih =>
    have hnew : dst ∉ f.succsOf src := fun hmem =>
      (List.nodup_append.mp hnodup).2.2 dst hmem dst List.mem_cons_self rfl
    have hjoin : f.join src dst = f.linked src dst := if_neg hnew
    have hsuccs : (f.linked src dst).succsOf src = f.succsOf src ++ [dst] := by
      rw [succsOf_linked hsrc, if_pos rfl]
    have hrest := ih (f := f.linked src dst) (by simpa [linked] using hsrc)
      (by rw [hsuccs]; simpa using hnodup)
    rw [joinAll, List.foldl_cons, hjoin]
    refine hrest.trans ?_
    rw [hsuccs, succsOf_linked hsrc]
    split
    · simp
    · rfl

/-! ## Tidy code -/

/-- **Code as cursors leave it**: it is drafted when it has local slots enough, and
the successors of a block are the targets of its terminator, in order. -/
structure Tidy (f : Function) : Prop where
  drafted : ∃ n, ∀ m, n ≤ m → (f.withLocals m).Drafted
  succs : ∀ b, f.succsOf b = f.targetsOf b

/-- **An empty function is tidy.** -/
theorem tidy_empty (name : String) (params : List String) :
    (Function.empty name params).Tidy where
  drafted := ⟨params.length, fun _ hm => (drafted_empty name params).withLocals hm⟩
  succs b := by cases b <;> rfl

namespace Tidy

/-- A new slot keeps a function tidy. -/
theorem widen (h : f.Tidy) : f.widen.Tidy := ⟨h.drafted, h.succs⟩

/-- A new block keeps a function tidy. -/
theorem extend (h : f.Tidy) (name : Option String) : (f.extend name).Tidy where
  drafted := by
    obtain ⟨n, hn⟩ := h.drafted
    exact ⟨n, fun m hm => drafted_extend (hn m hm) name⟩
  succs c := by rw [succsOf_extend, (agreeAt_extend f name c).targetsOf, h.succs]

/-- An instruction in the arena only keeps a function tidy. -/
theorem stock (h : f.Tidy) (i : Instruction) (location : Location) : (f.stock i location).Tidy := by
  obtain ⟨n, hn⟩ := h.drafted
  refine ⟨⟨n, fun m hm => drafted_stock (hn m hm) i location⟩, fun c => ?_⟩
  have htargets : (f.stock i location).targetsOf c = f.targetsOf c :=
    (agreeAt_stock (hn n (Nat.le_refl n)) i location c).targetsOf
  rw [htargets]
  exact h.succs c

/-- Slots enough for the code and an instruction more. -/
theorem exists_drafted (h : f.Tidy) (i : Instruction) :
    ∃ n, ∀ m, n ≤ m → (f.withLocals m).Drafted ∧ ∀ l ∈ i.locals, l < m := by
  obtain ⟨n, hn⟩ := h.drafted
  obtain ⟨k, hk⟩ := i.locals.toFinset.exists_nat_subset_range
  refine ⟨max n k, fun m hm => ⟨hn m (Nat.le_trans (Nat.le_max_left n k) hm), fun l hl => ?_⟩⟩
  have hlk : l < k := Finset.mem_range.mp (hk (List.mem_toFinset.mpr hl))
  exact Nat.lt_of_lt_of_le hlk (Nat.le_trans (Nat.le_max_right n k) hm)

/-- An open block leads nowhere. -/
theorem succsOf_of_isOpen (h : f.Tidy) (hopen : f.IsOpen b) : f.succsOf b = [] := by
  rw [h.succs, targetsOf, hopen.terminator?]
  rfl

/-- An instruction that is no terminator keeps a function tidy. -/
theorem push (h : f.Tidy) (hopen : f.IsOpen b) (hterm : i.isTerminator = false)
    (location : Location) : (f.push b i location).Tidy := by
  obtain ⟨n, hn⟩ := h.exists_drafted i
  refine ⟨⟨n, fun m hm => ?_⟩, fun c => ?_⟩
  · exact drafted_push (hn m hm).1 (isOpen_withLocals m hopen) hterm (hn m hm).2
  · have hd := (hn n (Nat.le_refl n)).1
    rw [succsOf_push]
    by_cases hc : c = b
    · subst hc
      have hnone : (f.push c i location).terminator? c = none :=
        (isOpen_push hd (isOpen_withLocals n hopen) hterm).terminator?
      rw [h.succsOf_of_isOpen hopen, targetsOf, hnone]
      rfl
    · have hsame : (f.push b i location).targetsOf c = f.targetsOf c :=
        (agreeAt_push hd hc).targetsOf
      rw [hsame, h.succs]

/-- **A terminator that comes with its edges keeps code tidy**: the block led
nowhere before. -/
theorem close (h : f.Tidy) (hopen : f.IsOpen b) (hterm : i.isTerminator = true)
    (htargets : ∀ t ∈ i.targets, t < f.blocks.size) (location : Location) :
    (f.close b i location).Tidy := by
  -- tidy code may name locals that are not declared; with enough of them it is
  -- drafted, and the terminator may be appended
  obtain ⟨n, hn⟩ := h.exists_drafted i
  refine ⟨⟨n, fun m hm => ?_⟩, fun c => ?_⟩
  · rw [← close_withLocals]
    exact drafted_close (hn m hm).1 (isOpen_withLocals m hopen) htargets hterm (hn m hm).2
  · have hd := (hn n (Nat.le_refl n)).1
    have hopen' := isOpen_withLocals n hopen
    have hempty : (f.push b i location).succsOf b = [] := by
      rw [succsOf_push, h.succsOf_of_isOpen hopen]
    have hsuccs : (f.close b i location).succsOf c =
        if c = b then i.targets else f.succsOf c := by
      rw [Function.close, succsOf_joinAll (by simpa using hopen.lt_size)
        (by rw [hempty]; exact i.targets_nodup), hempty, succsOf_push]
      rfl
    rw [hsuccs]
    by_cases hc : c = b
    · subst hc
      have hlast : ((f.withLocals n).close c i location).terminator? c = some i :=
        terminator?_close hd hopen' htargets hterm
      have hlast' : (f.close c i location).terminator? c = some i := by
        rw [close_withLocals] at hlast
        exact hlast
      rw [if_pos rfl, targetsOf, hlast']
      rfl
    · have hagree : AgreeAt ((f.withLocals n).close b i location) (f.withLocals n) c :=
        agreeAt_close hd hopen' htargets hc
      rw [close_withLocals] at hagree
      have hsame : (f.close b i location).targetsOf c = f.targetsOf c := hagree.targetsOf
      rw [if_neg hc, hsame, h.succs]

/-- **What the check has left to decide** of tidy code: whether every block is
closed, and whether the local slots are there. -/
theorem check_iff (h : f.Tidy) :
    f.check = .ok () ↔ (∀ b, ¬ f.IsOpen b) ∧
      ∀ b k i, f.instrAt? b k = some i → ∀ l ∈ i.locals, l < f.numLocals := by
  obtain ⟨n, hn⟩ := h.drafted
  have hd := hn n (Nat.le_refl n)
  have hnumbered : f.Numbered := hd.numbered
  constructor
  · intro hcheck
    obtain ⟨hdraft, hclosed⟩ := drafted_of_check hnumbered hcheck
    exact ⟨hclosed, hdraft.locals⟩
  · rintro ⟨hclosed, hlocals⟩
    exact check_of_drafted ⟨hd.numbered, hd.owned, hd.early, hlocals, hd.taken, hd.paired⟩ hclosed

end Tidy

end Function

/-! ## Emissions -/

namespace Emit

variable {α : Type} {c : Cursor}

/-- Where nothing can be appended, an append fails, and at most leaves the
instruction detached. -/
theorem append_fails (hnot : ¬ c.function.IsOpen c.block) (instr : Instruction) :
    ∃ e c', (append instr).apply c = (.error e, c') ∧
      (c' = c ∨ c' = { c with function := c.function.stock instr c.location }) := by
  unfold append
  rw [Transform.apply_bind_ok (Transform.apply_get _)]
  cases hterm : c.function.terminator? c.block with
  | some t =>
    have hclosed : c.isClosed = true := by simp [Cursor.isClosed, hterm]
    simp only [hclosed, if_true]
    exact ⟨_, _, rfl, .inl rfl⟩
  | none =>
    have hclosed : c.isClosed = false := by simp [Cursor.isClosed, hterm]
    have hunknown : c.function.blocks.size ≤ c.block :=
      Nat.not_lt.mp fun hlt => hnot ⟨hlt, hterm⟩
    have hcount : (c.function.stock instr c.location).count c.block =
        .error (.unknownBlock c.block) := by
      have hblock : (c.function.stock instr c.location).block c.block =
          .error (.unknownBlock c.block) := Function.block_of_unknown hunknown
      rw [Function.count, hblock]
      rfl
    have hattach : (Function.attachLast c.block c.function.slots.size).apply
        (c.function.stock instr c.location) =
          (.error (.unknownBlock c.block), c.function.stock instr c.location) := by
      rw [Function.attachLast, Function.apply_query_bind, hcount]
    simp only [hclosed, Bool.false_eq_true, if_false]
    rw [Transform.apply_bind_ok (Transform.apply_lift _ _)]
    exact ⟨.unknownBlock c.block, _, apply_edit_error hattach, .inr rfl⟩

/-- What comes after an append that fails is not carried out. -/
theorem tidy_of_append_fails (h : c.function.Tidy) (hnot : ¬ c.function.IsOpen c.block)
    (instr : Instruction) (k : InstrId → Emit α) :
    ((append instr >>= k).apply c).2.function.Tidy := by
  obtain ⟨e, c', hfail, hleft⟩ := append_fails hnot instr
  rw [Transform.apply_bind_error hfail]
  rcases hleft with rfl | rfl
  · exact h
  · exact h.stock instr c.location

/-- Tidy code stays tidy. -/
def KeepsTidy (c c' : Cursor) : Prop := c.function.Tidy → c'.function.Tidy

/-- Nothing happens to a tidy function without a step. -/
theorem KeepsTidy.refl (c : Cursor) : KeepsTidy c c := id

/-- Steps that keep a function tidy compose. -/
theorem KeepsTidy.trans {c c' c'' : Cursor} (h : KeepsTidy c c') (h' : KeepsTidy c' c'') :
    KeepsTidy c c'' := fun hc => h' (h hc)

/-- Appending what is no terminator keeps a function tidy. -/
theorem append_keepsTidy {instr : Instruction} (hterm : instr.isTerminator = false) :
    Within KeepsTidy (append instr) := by
  intro c hc
  by_cases hopen : c.function.IsOpen c.block
  · rw [apply_append hopen]
    exact hc.push hopen hterm c.location
  · have htidy := tidy_of_append_fails hc hopen instr pure
    rwa [bind_pure] at htidy

/-- So does appending with a new slot. -/
theorem appendTo_keepsTidy {instr : LocalId → Instruction}
    (hterm : ∀ l, (instr l).isTerminator = false) : Within KeepsTidy (appendTo instr) :=
  Within.bind KeepsTidy.trans (Within.lift fun _ hc => hc.widen) fun dst =>
    Within.bind KeepsTidy.trans (append_keepsTidy (hterm dst)) fun _ =>
      Within.pure KeepsTidy.refl _

/-- An emission that asks for a block goes on only if there is one. -/
theorem requireBlock_keepsTidy {b : BlockId} {k : Unit → Emit α} (hc : c.function.Tidy)
    (hk : b < c.function.blocks.size → ((k ()).apply c).2.function.Tidy) :
    ((requireBlock b >>= k).apply c).2.function.Tidy := by
  rcases Nat.lt_or_ge b c.function.blocks.size with hlt | hge
  · rw [Transform.apply_bind_ok (apply_requireBlock hlt)]
    exact hk hlt
  · have hquery : (Transform.query (·.block b) : Edit Block).apply c.function =
        (.error (.unknownBlock b), c.function) := by
      rw [Transform.apply_query, Function.block_of_unknown hge]
    have hfail : (requireBlock b).apply c = (.error (.unknownBlock b), c) :=
      Transform.apply_bind_error (apply_edit_error hquery)
    rw [Transform.apply_bind_error hfail]
    exact hc

/-- A jump keeps a function tidy, or fails. -/
theorem jump_keepsTidy (target : BlockId) : Within KeepsTidy (jump target) := by
  intro c hc
  by_cases hopen : c.function.IsOpen c.block
  · refine requireBlock_keepsTidy hc fun ht => ?_
    have htidy := hc.close hopen (i := .jump target) rfl (by simpa [Instruction.targets] using ht)
      c.location
    have hjump := apply_jump hopen ht
    rw [jump, Transform.apply_bind_ok (apply_requireBlock ht)] at hjump
    rw [hjump]
    exact htidy
  · exact requireBlock_keepsTidy hc fun _ => tidy_of_append_fails hc hopen _ _

/-- So does a branch. -/
theorem branch_keepsTidy (cond : Operand) (thenTarget elseTarget : BlockId) :
    Within KeepsTidy (branch cond thenTarget elseTarget) := by
  intro c hc
  refine requireBlock_keepsTidy hc fun ht => requireBlock_keepsTidy hc fun he => ?_
  by_cases hopen : c.function.IsOpen c.block
  · have htidy := hc.close hopen (i := .branch cond thenTarget elseTarget) rfl (fun t hmem => by
      rcases Instruction.mem_targets_branch.mp hmem with rfl | rfl
      · exact ht
      · exact he) c.location
    have hbranch := apply_branch hopen cond ht he
    rw [branch, Transform.apply_bind_ok (apply_requireBlock ht),
      Transform.apply_bind_ok (apply_requireBlock he)] at hbranch
    rw [hbranch]
    exact htidy
  · exact tidy_of_append_fails hc hopen _ _

/-- So does a return. -/
theorem ret_keepsTidy (value : Operand) : Within KeepsTidy (ret value) := by
  intro c hc
  by_cases hopen : c.function.IsOpen c.block
  · rw [apply_ret hopen]
    exact hc.close hopen rfl (by simp [Instruction.targets]) c.location
  · exact tidy_of_append_fails hc hopen _ _

end Emit

/-- **Every emission that records its edges keeps code tidy**, whether it succeeds
or fails, and wherever the cursor stands. -/
theorem Emission.leave_keepsTidy (e : Emission) (he : e.recordsEdges = true) (c : Cursor) :
    Emit.KeepsTidy c (e.leave c) := by
  have hlast : ∀ {instr : Instruction}, instr.isTerminator = false →
      Within Emit.KeepsTidy (do let _ ← Emit.append instr; pure ()) := fun hterm =>
    Within.bind Emit.KeepsTidy.trans (Emit.append_keepsTidy hterm) fun _ =>
      Within.pure Emit.KeepsTidy.refl _
  cases e with
  | moveTo b => exact .refl c
  | newBlock name => exact fun hc => hc.extend (some name)
  | freshLocal => exact fun hc => hc.widen
  | locate location => exact .refl c
  | append instr => exact Emit.append_keepsTidy (by simpa [recordsEdges] using he) c
  | copy dst src => exact hlast rfl c
  | newArray size => exact Emit.appendTo_keepsTidy (by intro l; rfl) c
  | loadArray array index => exact Emit.appendTo_keepsTidy (by intro l; rfl) c
  | storeArray array index value => exact hlast rfl c
  | loadGlobal g => exact Emit.appendTo_keepsTidy (by intro l; rfl) c
  | storeGlobal g src => exact hlast rfl c
  | call callee args => exact Emit.appendTo_keepsTidy (by intro l; rfl) c
  | binary op lhs rhs => exact Emit.appendTo_keepsTidy (by intro l; rfl) c
  | jump target => exact Emit.jump_keepsTidy target c
  | branch cond thenTarget elseTarget => exact Emit.branch_keepsTidy cond thenTarget elseTarget c
  | ret value => exact Emit.ret_keepsTidy value c

namespace Function

variable {f : Function}

/-- A session keeps code tidy, and so do several. -/
theorem Tidy.session (h : f.Tidy) {session : List Emission}
    (hs : ∀ e ∈ session, e.recordsEdges = true) :
    (Emission.leaveAll session (Cursor.atEntry f)).function.Tidy := by
  have hall : ∀ (c : Cursor), c.function.Tidy → (Emission.leaveAll session c).function.Tidy := by
    induction session with
    | nil => exact fun c hc => hc
    | cons e rest ih =>
      obtain ⟨he, hrest⟩ := List.forall_mem_cons.mp hs
      exact fun c hc => ih hrest _ (e.leave_keepsTidy he c hc)
  exact hall _ h

/-- **A function that is worked on with emissions that record their edges stays
tidy.** -/
theorem Tidy.worked (h : f.Tidy) {sessions : List (List Emission)}
    (hs : ∀ session ∈ sessions, ∀ e ∈ session, e.recordsEdges = true) :
    (Function.worked sessions f).Tidy := by
  induction sessions generalizing f with
  | nil => exact h
  | cons session rest ih =>
    obtain ⟨hsession, hrest⟩ := List.forall_mem_cons.mp hs
    exact ih (h.session hsession) hrest

/-- **The discipline of cursors.** However many cursors have worked on a function,
wherever they went and whichever of their emissions failed: in every block no
instruction follows a terminator, and the successors are the targets of the
terminator, in order, none if there is no terminator. So the function passes the
check exactly when every block is terminated and every local slot that is used is
there. -/
theorem worked_disciplined (name : String) (params : List String)
    (sessions : List (List Emission))
    (hs : ∀ session ∈ sessions, ∀ e ∈ session, e.recordsEdges = true) :
    let f := Function.worked sessions (Function.empty name params)
    (∀ b block, f.block b = .ok block →
      (∀ k i, block.instrs[k]? = some i → ∃ instr, f.instr i = .ok instr ∧
        (instr.isTerminator = true → k + 1 = block.instrs.length)) ∧
      (∀ t, f.terminator? b = some t → f.successors b = .ok t.targets) ∧
      (f.terminator? b = none → f.successors b = .ok [])) ∧
    (f.check = .ok () ↔ ∀ b block, f.block b = .ok block →
      (∃ t, f.terminator? b = some t) ∧
      ∀ i ∈ block.instrs, ∀ instr, f.instr i = .ok instr →
        ∀ l ∈ instr.locals, l < f.numLocals) := by
  intro f
  have h : f.Tidy := (tidy_empty name params).worked hs
  obtain ⟨n, hn⟩ := h.drafted
  have hd := hn n (Nat.le_refl n)
  have hcode : ∀ b block k i slot, f.blocks[b]? = some block → block.instrs[k]? = some i →
      f.slots[i]? = some slot → f.instrAt? b k = some slot.instr :=
    fun b block k i slot hb hk hslot => instrAt?_eq_some.mpr ⟨block, i, slot, hb, hk, hslot, rfl⟩
  refine ⟨fun b block hblock => ?_, ?_⟩
  · have hb := block_eq_ok.mp hblock
    have hsuccs : f.successors b = .ok (f.targetsOf b) :=
      successors_eq_ok.mpr ⟨lt_size_of_block hb, h.succs b⟩
    refine ⟨fun k i hk => ?_, fun t ht => ?_, fun hnone => ?_⟩
    · obtain ⟨slot, hslot, -⟩ := hd.owned b block hb i (List.mem_of_getElem? hk)
      refine ⟨slot.instr, instr_eq_ok.mpr ⟨slot, hslot, rfl⟩, fun hterm => ?_⟩
      rw [← length_of_block hb]
      exact hd.early b k slot.instr (hcode b block k i slot hb hk hslot) hterm
    · rw [hsuccs, targetsOf, ht]
      rfl
    · rw [hsuccs, targetsOf, hnone]
      rfl
  · rw [h.check_iff]
    constructor
    · rintro ⟨hclosed, hlocals⟩ b block hblock
      have hb := block_eq_ok.mp hblock
      refine ⟨?_, fun i hi instr hinstr => ?_⟩
      · refine Option.ne_none_iff_exists'.mp fun hnone => ?_
        exact hclosed b ⟨lt_size_of_block hb, hnone⟩
      · obtain ⟨slot, hslot, rfl⟩ := instr_eq_ok.mp hinstr
        obtain ⟨k, hk⟩ := List.getElem?_of_mem hi
        exact hlocals b k slot.instr (hcode b block k i slot hb hk hslot)
    · intro hall
      refine ⟨fun b hopen => ?_, fun b k i hi => ?_⟩
      · obtain ⟨block, hb⟩ := exists_block hopen.lt_size
        obtain ⟨⟨t, ht⟩, -⟩ := hall b block (block_eq_ok.mpr hb)
        rw [hopen.terminator?] at ht
        cases ht
      · obtain ⟨block, id, slot, hb, hid, hslot, rfl⟩ := instrAt?_eq_some.mp hi
        exact (hall b block (block_eq_ok.mpr hb)).2 id (List.mem_of_getElem? hid) slot.instr
          (instr_eq_ok.mpr ⟨slot, hslot, rfl⟩)

/-- Two sessions that go wrong in every way: the second branch and the copy after it
find the block closed, the jump has no target, and one copy and one array are
emitted to a block that is not there. -/
def unrulySessions : List (List Emission) :=
  [[.newBlock "both", .branch (.var 0) 1 1, .branch (.var 0) 0 1, .copy 9 (.int 1), .moveTo 4,
      .copy 9 (.int 2), .newArray (.int 3)],
    [.copy 9 (.int 3), .moveTo 1, .jump 5, .append (.copy 1 (.int 4)), .ret (.var 1)]]

/-- The function that these sessions leave. -/
def unruly : Function := Function.worked unrulySessions (Function.empty "f" ["n"])

/-- The branch has one successor, and the function passes the check. Its detached
instructions use local slots that are not there, but no block lists them. -/
theorem worked_disciplined_unruly :
    (∀ session ∈ unrulySessions, ∀ e ∈ session, e.recordsEdges = true) ∧
    unruly.successors 0 = .ok [1] ∧ unruly.successors 1 = .ok [] ∧ unruly.check = .ok () ∧
    (∃ i instr, unruly.instr i = .ok instr ∧ 9 ∈ instr.locals) ∧
    ∀ b block, unruly.block b = .ok block → ∃ t, unruly.terminator? b = some t := by
  have hs : ∀ session ∈ unrulySessions, ∀ e ∈ session, e.recordsEdges = true := by decide
  obtain ⟨hblocks, hcheck⟩ := worked_disciplined "f" ["n"] unrulySessions hs
  have hentry : unruly.terminator? 0 = some (.branch (.var 0) 1 1) := by decide +kernel
  have hexit : unruly.terminator? 1 = some (.ret (.var 1)) := by decide +kernel
  have hok : unruly.check = .ok () := by decide +kernel
  have hspare : unruly.instr 1 = .ok (.copy 9 (.const (.int 2))) := by decide +kernel
  obtain ⟨entry, hb⟩ := exists_block (f := unruly) (b := 0) (by decide +kernel)
  obtain ⟨exit, hb'⟩ := exists_block (f := unruly) (b := 1) (by decide +kernel)
  exact ⟨hs, (hblocks 0 entry (block_eq_ok.mpr hb)).2.1 _ hentry,
    (hblocks 1 exit (block_eq_ok.mpr hb')).2.1 _ hexit, hok, ⟨1, _, hspare, by decide⟩,
    fun b block hblock => (hcheck.mp hok b block hblock).1⟩

end Function

end BlockIR
