import BlockIR.Proofs.Function.Assigned
import BlockIR.Proofs.Source.Body
/-!
# Lowered code reads only what is assigned

A name in scope has a slot that is written where the name is declared, and the
code of an expression writes the slot of its value. So wherever lowering stands,
the slots of all names in scope are assigned, and the code of an expression reads
nothing else but values that it has just computed.
-/

namespace BlockIR

open Success

namespace Source

namespace Draft

variable {symbols : Symbols} {chart chart' : Chart} {d d' : Draft} {l : LocalId} {o : Operand}
variable {i : Instruction} {b : BlockId}

/-- A slot is assigned where the code of a draft ends. -/
def Assigns (chart : Chart) (d : Draft) (l : LocalId) : Prop :=
  d.cursor.function.Assigned chart d.cursor.block
    (d.cursor.function.length d.cursor.block) l

/-- An operand can be read where the code of a draft ends. -/
def Gives (chart : Chart) (d : Draft) (o : Operand) : Prop :=
  ∀ l ∈ o.local?, d.Assigns chart l

/-- The slots of the names in scope. -/
def Named (d : Draft) (l : LocalId) : Prop :=
  ∃ entry ∈ d.scopes.flatten, entry.2 = l

theorem named_eq (hscopes : d'.scopes = d.scopes) : d'.Named = d.Named := by
  unfold Named
  rw [hscopes]

/-- **A draft whose code reads only what is assigned**, where the names in scope
are. -/
structure Charted (chart : Chart) (d : Draft) : Prop where
  code : d.cursor.function.Charted chart
  named : ∀ l, d.Named l → d.Assigns chart l

/-- What is assigned stays so while code is added to the block. -/
theorem Assigns.of_extends (h : d.Assigns chart l) (hspot : d'.cursor.block = d.cursor.block)
    (hextends : d.cursor.Extends d'.cursor) : d'.Assigns chart l := by
  rw [Assigns, hspot]
  rcases h with hparam | hentry | ⟨j, -, i, hi, hl⟩
  · left
    rw [Function.arity, hextends.params]
    exact hparam
  · exact .inr (.inl hentry)
  · have hi' := hextends.holds _ j i hi
    exact .inr (.inr ⟨j, Function.lt_length_of_instrAt? hi', i, hi', hl⟩)

/-- An operand that can be read stays so while code is emitted. -/
theorem Gives.of_emitted (h : d.Gives chart o) (he : Emitted symbols d d') : d'.Gives chart o :=
  fun l hl => (h l hl).of_extends he.spot he.extend

/-- The names in scope stay assigned while code is added to the block. -/
theorem Charted.of_extends (h : d.Charted chart) (hcode : d'.cursor.function.Charted chart)
    (hscopes : d'.scopes = d.scopes) (hspot : d'.cursor.block = d.cursor.block)
    (hextends : d.cursor.Extends d'.cursor) : d'.Charted chart := by
  refine ⟨hcode, fun l hl => ?_⟩
  rw [named_eq hscopes] at hl
  exact (h.named l hl).of_extends hspot hextends

/-- A chart may change where there is no block. -/
theorem Charted.rechart (h : d.Charted chart) (hd : d.Sound symbols)
    (hchart : ∀ b, b < d.cursor.function.blocks.size → chart' b = chart b) : d.Charted chart' :=
  ⟨h.code.rechart hd.drafted (Nat.lt_of_le_of_lt (Nat.zero_le _) hd.spot) hchart,
    fun l hl => (h.named l hl).rechart (hchart _ hd.spot)⟩

/-- Lowering may go on in a block that is entered with the names in scope. -/
theorem Charted.moveTo (h : d.Charted chart) (hchart : ∀ l, d.Named l → chart b l) :
    (d.on (d.cursor.moveTo b)).Charted chart :=
  ⟨h.code, fun l hl => .inr (.inl (hchart l hl))⟩

theorem Charted.locate (h : d.Charted chart) (location : Location) :
    (d.on (d.cursor.locate location)).Charted chart :=
  ⟨h.code, h.named⟩

/-- An instruction that reads what is assigned keeps the code charted. -/
theorem charted_append (h : d.Charted chart) (hd : d.Sound symbols) (hopen : d.IsOpen)
    (hterm : i.isTerminator = false) (hops : ∀ o ∈ i.operands, d.Gives chart o) :
    (d.on (d.cursor.append i)).Charted chart := by
  refine h.of_extends (Function.charted_push h.code hd.drafted hopen.lt_size hops ?_) rfl rfl
    (Cursor.extends_append hd.drafted hopen)
  rw [Instruction.targets_eq_nil hterm]
  exact nofun

/-- The slot that an instruction writes is assigned behind it. -/
theorem assigns_append (hd : d.Sound symbols) (hl : l ∈ i.def?) :
    (d.on (d.cursor.append i)).Assigns chart l := by
  have hi := next_append hd i
  exact .inr (.inr ⟨_, Function.lt_length_of_instrAt? hi, i, hi, hl⟩)

/-- A new slot keeps the code charted. -/
theorem charted_widen (h : d.Charted chart) : (d.on d.cursor.widen).Charted chart := by
  have hcode : (d.on d.cursor.widen).cursor.function.Charted chart :=
    h.code.congr rfl (Function.agreeAt_widen _)
  exact h.of_extends hcode rfl rfl (Cursor.extends_widen _)

/-- **An instruction that writes a new slot may be appended where its operands are
assigned**, and the slot then is. -/
theorem charted_assign {instr : LocalId → Instruction} (h : d.Charted chart)
    (hd : d.Sound symbols) (hopen : d.IsOpen)
    (hterm : (instr d.cursor.function.numLocals).isTerminator = false)
    (hops : ∀ o ∈ (instr d.cursor.function.numLocals).operands, d.Gives chart o)
    (hdef : (instr d.cursor.function.numLocals).def? = some d.cursor.function.numLocals) :
    (d.on (d.cursor.assign instr)).Charted chart ∧
      (d.on (d.cursor.assign instr)).Gives chart (.var d.cursor.function.numLocals) := by
  have hwide := emitted_widen hd hopen
  have hlast : ((d.on d.cursor.widen).on (d.cursor.widen.append
      (instr d.cursor.function.numLocals))).Assigns chart d.cursor.function.numLocals :=
    assigns_append hwide.sound (Option.mem_def.mpr hdef)
  refine ⟨charted_append (charted_widen h) hwide.sound hwide.isOpen hterm fun o ho =>
    (hops o ho).of_emitted hwide, ?_⟩
  rintro _ ⟨⟩
  exact hlast

/-- **A block may be closed where the operands of the terminator are assigned**,
and all that its targets are entered with. -/
theorem charted_close (h : d.Charted chart) (hd : d.Sound symbols) (hopen : d.IsOpen)
    (htargets : ∀ t ∈ i.targets, t < d.cursor.function.blocks.size)
    (hops : ∀ o ∈ i.operands, d.Gives chart o)
    (hleads : ∀ t ∈ i.targets, ∀ l, chart t l → d.Assigns chart l) :
    (d.on (d.cursor.close i)).Charted chart :=
  h.of_extends (Function.charted_close h.code hd.drafted hopen htargets hops hleads) rfl rfl
    (Cursor.extends_close hd.drafted hopen htargets)

/-- **The chart is kept for the blocks that were there**, and made for new ones. -/
def Charts (chart : Chart) (d d' : Draft) : Prop :=
  ∃ chart' : Chart, (∀ b, b < d.cursor.function.blocks.size → chart' b = chart b) ∧
    d'.Charted chart'

/-- Code that is charted as before is charted. -/
theorem Charted.charts (h : d'.Charted chart) : Charts chart d d' :=
  ⟨chart, fun _ _ => rfl, h⟩

/-- What is charted in two stretches is charted. -/
theorem Charts.trans {d₁ : Draft} {chart₁ : Chart} (h : Charts chart₁ d₁ d')
    (hagree : ∀ b, b < d.cursor.function.blocks.size → chart₁ b = chart b)
    (hsize : d.cursor.function.blocks.size ≤ d₁.cursor.function.blocks.size) :
    Charts chart d d' := by
  obtain ⟨chart', hagree', hc⟩ := h
  exact ⟨chart', fun b hb => (hagree' b (Nat.lt_of_lt_of_le hb hsize)).trans (hagree b hb), hc⟩

end Draft

/-- **A step of lowering ensures a promise**: if it succeeds, it leaves what is
promised. -/
def Ensures {α : Type} (x : Lower α) (d : Draft) (post : α → Draft → Prop) : Prop :=
  ∀ a d', x d = .ok (a, d') → post a d'

namespace Ensures

variable {α β : Type} {env : Environment} {function : String} {d d' : Draft} {x : Lower α}
variable {f : α → Lower β} {refs : List Reference} {post post' : α → Draft → Prop}
variable {last : β → Draft → Prop}

theorem pure {a : α} (h : post a d) : Ensures (pure a) d post := by
  rintro _ _ ⟨⟩
  exact h

theorem of_ok {a : α} (hx : x d = .ok (a, d')) (h : post a d') : Ensures x d post := by
  intro a' d'' hx'
  cases hx.symm.trans hx'
  exact h

theorem imp (hx : Ensures x d post) (h : ∀ a d', post a d' → post' a d') : Ensures x d post' :=
  fun a d' hrun => h a d' (hx a d' hrun)

/-- What is known of a step that succeeds may be used. -/
theorem of_yields (hy : Yields env function x d refs post)
    (h : ∀ a d', x d = .ok (a, d') → post a d' → post' a d') : Ensures x d post' :=
  fun a d' hrun => h a d' hrun (hy.of_eq_ok hrun).2

/-- A promise holds along with what is known of a step that succeeds. -/
theorem and_yields (hx : Ensures x d post') (hy : Yields env function x d refs post) :
    Ensures x d fun a d' => post a d' ∧ post' a d' :=
  fun a d' hrun => ⟨(hy.of_eq_ok hrun).2, hx a d' hrun⟩

/-- A sequence ensures what its second part ensures behind the first. -/
theorem bind (hx : Ensures x d post) (hf : ∀ a d', post a d' → Ensures (f a) d' last) :
    Ensures (x >>= f) d last := by
  intro b d' hrun
  obtain ⟨a, d₁, hfirst, hsecond⟩ := run_bind_eq_ok.mp hrun
  exact hf a d₁ (hx a d₁ hfirst) b d' hsecond

/-- A first part that is known to succeed. -/
theorem step {a : α} (hx : x d = .ok (a, d')) (hf : Ensures (f a) d' last) :
    Ensures (x >>= f) d last :=
  bind (of_ok hx ⟨rfl, rfl⟩ : Ensures x d fun b d'' => b = a ∧ d'' = d') fun _ _ h =>
    h.1 ▸ h.2 ▸ hf

end Ensures

namespace Lower

open Draft

variable {symbols : Symbols} {env : Environment} {function : String} {names : List String}
variable {chart : Chart} {d d' : Draft} {i : Instruction}

/-- What the code of an expression leaves: its operand can be read. -/
def Computes (symbols : Symbols) (chart : Chart) (d : Draft) (o : Operand) (d' : Draft) : Prop :=
  Delivers symbols d o d' ∧ d'.Charted chart ∧ d'.Gives chart o

/-- An instruction that reads what is assigned leaves its slot to be read. -/
theorem appendTo_ensures {instr : LocalId → Instruction} (h : d.Charted chart)
    (hd : d.Working symbols function names)
    (hterm : (instr d.cursor.function.numLocals).isTerminator = false)
    (hops : ∀ o ∈ (instr d.cursor.function.numLocals).operands, d.Gives chart o)
    (hdef : (instr d.cursor.function.numLocals).def? = some d.cursor.function.numLocals) :
    Ensures (do return .var (← emit (Emit.appendTo instr)) : Lower Operand) d fun o d' =>
      d'.Charted chart ∧ d'.Gives chart o :=
  .step (emit_eq_ok (Emit.apply_appendTo hd.isOpen instr))
    (.pure (charted_assign h hd.sound hd.isOpen hterm hops hdef))

mutual

/-- **The code of an expression reads only what is assigned**, and assigns its
value. -/
theorem expr_ensures (hsymbols : symbols.Matches env) : ∀ (e : Expr) {d : Draft},
    d.Working symbols function names → d.Charted chart →
    Ensures (expr symbols e) d (Computes symbols chart d)
  | .int i, d, hd, h => by
    refine .and_yields ?_ (expr_yields hsymbols (.int i) hd)
    rw [expr]
    exact .pure ⟨h, nofun⟩
  | .str s, d, hd, h => by
    refine .and_yields ?_ (expr_yields hsymbols (.str s) hd)
    rw [expr]
    exact .pure ⟨h, nofun⟩
  | .null, d, hd, h => by
    refine .and_yields ?_ (expr_yields hsymbols .null hd)
    rw [expr]
    exact .pure ⟨h, nofun⟩
  | .var (.named name), d, hd, h => by
    refine .and_yields ?_ (expr_yields hsymbols (.var (.named name)) hd)
    rw [expr]
    have hlookup : Yields env function (lookup name) d _ _ :=
      lookup_yields hd.sound hd.function name
    refine .bind (.of_yields hlookup fun l d' _ hl => hl) ?_
    rintro l _ ⟨rfl, -, hl⟩
    refine .pure ⟨h, ?_⟩
    rintro _ ⟨⟩
    exact h.named l ⟨_, mem_of_findSome?_lookup hl, rfl⟩
  | .var (.global module name), d, hd, h => by
    refine .and_yields ?_ (expr_yields hsymbols (.var (.global module name)) hd)
    rw [expr]
    have hglobal : Yields env function (symbols.global module name : Lower GlobalId) d _ _ :=
      global_yields hsymbols module name
    refine .bind (.of_yields hglobal fun g d' _ hg => hg) ?_
    rintro g _ ⟨rfl, -⟩
    exact appendTo_ensures h hd rfl nofun rfl
  | .call target args, d, hd, h => by
    refine .and_yields ?_ (expr_yields hsymbols (.call target args) hd)
    rw [expr]
    have hcallee : Yields env function (callee symbols target : Lower Callee) d _ _ :=
      callee_yields hsymbols target
    refine .bind (.of_yields hcallee fun c d' _ hc => hc) ?_
    rintro callee _ ⟨rfl, -⟩
    refine .bind (exprs_ensures hsymbols args hd h) ?_
    rintro os d₁ ⟨⟨h₁, -⟩, hc₁, hos⟩
    exact appendTo_ensures hc₁ (hd.emitted h₁) rfl hos rfl
  | .binary op lhs rhs, d, hd, h => by
    refine .and_yields ?_ (expr_yields hsymbols (.binary op lhs rhs) hd)
    rw [expr]
    refine .bind (expr_ensures hsymbols lhs hd h) ?_
    rintro a d₁ ⟨h₁, hc₁, ha⟩
    have hd₁ := hd.emitted h₁.emitted
    refine .bind (expr_ensures hsymbols rhs hd₁ hc₁) ?_
    rintro b d₂ ⟨h₂, hc₂, hb⟩
    exact appendTo_ensures hc₂ (hd₁.emitted h₂.emitted) rfl
      (List.forall_mem_cons.mpr ⟨ha.of_emitted h₂.emitted, List.forall_mem_singleton.mpr hb⟩) rfl
  | .arrayLit elems, d, hd, h => by
    refine .and_yields ?_ (expr_yields hsymbols (.arrayLit elems) hd)
    rw [expr]
    have hnew := newArray_emitted hd.sound hd.isOpen (Int64.ofNat elems.length)
    have hassign : (d.on (d.cursor.assign fun dst =>
        .newArray dst (.int (Int64.ofNat elems.length)))).Charted chart ∧ _ :=
      charted_assign h hd.sound hd.isOpen rfl (List.forall_mem_singleton.mpr nofun) rfl
    obtain ⟨hc₁, harray⟩ := hassign
    refine .step (emit_eq_ok (Emit.apply_appendTo hd.isOpen _)) ?_
    refine .bind (elements_ensures hsymbols elems 0 (hd.emitted hnew) hc₁ (Nat.lt_succ_self _)
      harray) ?_
    rintro _ d₂ ⟨h₂, hc₂, hg₂⟩
    exact .pure ⟨hc₂, hg₂⟩
  | .newArray size, d, hd, h => by
    refine .and_yields ?_ (expr_yields hsymbols (.newArray size) hd)
    rw [expr]
    refine .bind (expr_ensures hsymbols size hd h) ?_
    rintro n d₁ ⟨h₁, hc₁, hn⟩
    exact appendTo_ensures hc₁ (hd.emitted h₁.emitted) rfl (List.forall_mem_singleton.mpr hn) rfl
  | .index array index, d, hd, h => by
    refine .and_yields ?_ (expr_yields hsymbols (.index array index) hd)
    rw [expr]
    refine .bind (expr_ensures hsymbols array hd h) ?_
    rintro a d₁ ⟨h₁, hc₁, ha⟩
    have hd₁ := hd.emitted h₁.emitted
    refine .bind (expr_ensures hsymbols index hd₁ hc₁) ?_
    rintro n d₂ ⟨h₂, hc₂, hn⟩
    exact appendTo_ensures hc₂ (hd₁.emitted h₂.emitted) rfl
      (List.forall_mem_cons.mpr ⟨ha.of_emitted h₂.emitted, List.forall_mem_singleton.mpr hn⟩) rfl

/-- The code of expressions reads only what is assigned. -/
theorem exprs_ensures (hsymbols : symbols.Matches env) : ∀ (es : List Expr) {d : Draft},
    d.Working symbols function names → d.Charted chart →
    Ensures (exprs symbols es) d fun os d' =>
      (Emitted symbols d d' ∧ ∀ o ∈ os, ∀ l ∈ o.local?, l < d'.cursor.function.numLocals) ∧
        d'.Charted chart ∧ ∀ o ∈ os, d'.Gives chart o
  | [], d, hd, h => by
    refine .and_yields ?_ (exprs_yields hsymbols [] hd)
    rw [exprs]
    exact .pure ⟨h, nofun⟩
  | e :: es, d, hd, h => by
    refine .and_yields ?_ (exprs_yields hsymbols (e :: es) hd)
    rw [exprs]
    refine .bind (expr_ensures hsymbols e hd h) ?_
    rintro o d₁ ⟨h₁, hc₁, ho⟩
    refine .bind (exprs_ensures hsymbols es (hd.emitted h₁.emitted) hc₁) ?_
    rintro os d₂ ⟨⟨h₂, -⟩, hc₂, hos⟩
    exact .pure ⟨hc₂, List.forall_mem_cons.mpr ⟨ho.of_emitted h₂, hos⟩⟩

/-- The code of the elements of an array reads only what is assigned. -/
theorem elements_ensures (hsymbols : symbols.Matches env) {array : LocalId} :
    ∀ (es : List Expr) (index : Nat) {d : Draft}, d.Working symbols function names →
    d.Charted chart → array < d.cursor.function.numLocals → d.Gives chart (.var array) →
    Ensures (elements symbols array index es) d fun _ d' =>
      Emitted symbols d d' ∧ d'.Charted chart ∧ d'.Gives chart (.var array)
  | [], index, d, hd, h, hlt, harray => by
    refine .and_yields ?_ (elements_yields hsymbols [] index hd hlt)
    rw [elements]
    exact .pure ⟨h, harray⟩
  | e :: es, index, d, hd, h, hlt, harray => by
    refine .and_yields ?_ (elements_yields hsymbols (e :: es) index hd hlt)
    rw [elements]
    refine .bind (expr_ensures hsymbols e hd h) ?_
    rintro v d₁ ⟨h₁, hc₁, hv⟩
    have hd₁ := hd.emitted h₁.emitted
    -- the array is not written again: its slot stays assigned across the element
    have harray₁ := harray.of_emitted h₁.emitted
    have hlt₁ := Nat.lt_of_lt_of_le hlt h₁.emitted.extend.numLocals
    have hstore : Emitted symbols d₁ (d₁.on (d₁.cursor.append
        (.storeArray (.var array) (.int (Int64.ofNat index)) v))) := by
      refine storeArray_emitted hd₁.sound hd₁.isOpen ?_ nofun h₁.operand
      rintro _ ⟨⟩
      exact hlt₁
    have hc₂ : (d₁.on (d₁.cursor.append
        (.storeArray (.var array) (.int (Int64.ofNat index)) v))).Charted chart :=
      charted_append hc₁ hd₁.sound hd₁.isOpen rfl (List.forall_mem_cons.mpr
        ⟨harray₁, List.forall_mem_cons.mpr ⟨nofun, List.forall_mem_singleton.mpr hv⟩⟩)
    refine .step (emit_append_eq_ok hd₁.isOpen _) ?_
    exact (elements_ensures hsymbols es (index + 1) (hd₁.emitted hstore) hc₂
      (Nat.lt_of_lt_of_le hlt₁ hstore.extend.numLocals) (harray₁.of_emitted hstore)).imp
      fun _ _ h₂ => h₂.2

end

end Lower

end Source

end BlockIR
