import BlockIR.Proofs.Function.Edit
import BlockIR.Proofs.Source.Body
/-!
# References and the accesses they become

A program tree refers to globals and functions by module and name, its code by
slot and place. `mentions` lists the references of a tree in the order in which
its code is emitted, and `accesses` lists what the instructions of a function
load, store and call in that order. Lowering makes one access of each reference,
the one that its symbol denotes, and no other accesses.
-/

namespace BlockIR

open Success

/-! ## Accesses of code -/

/-- **An access of an instruction** to what the whole program shares. -/
inductive Access where
  | load (g : GlobalId)
  | store (g : GlobalId)
  | call (f : FunctionRef)
  deriving DecidableEq

/-- The access that an instruction makes. -/
def Instruction.access? : Instruction → Option Access
  | .loadGlobal _ g => some (.load g)
  | .storeGlobal g _ => some (.store g)
  | .call _ (.function f) _ => some (.call f)
  | _ => none

namespace Function

/-- The accesses of the instructions that blocks own, in the order in which the
instructions were added. -/
def accesses (f : Function) : List Access :=
  (f.slots.toList.filter fun slot => slot.owner.isSome).filterMap fun slot => slot.instr.access?

/-- A pushed instruction adds what it refers to at the end. -/
theorem accesses_push (f : Function) (b : BlockId) (i : Instruction) (location : Location) :
    (f.push b i location).accesses = f.accesses ++ i.access?.toList := by
  unfold accesses push
  rw [Array.toList_push, List.filter_append, List.filterMap_append]
  cases hi : i.access? with
  | none => simp [hi]
  | some access => simp [hi]

end Function

namespace Emit

variable {α β : Type} {c c' : Cursor} {instr : Instruction} {added added' : List Access}

/-- An instruction can be appended to an open block only. -/
theorem append_eq_ok {i : InstrId} (h : (append instr).apply c = (.ok i, c')) :
    c' = c.append instr := by
  have hopen : c.function.IsOpen c.block := by
    unfold append at h
    rw [Transform.apply_bind_ok (Transform.apply_get _)] at h
    cases hclosed : c.isClosed with
    | true =>
      simp only [hclosed, if_true] at h
      cases congrArg Prod.fst h
    | false =>
      simp only [hclosed, Bool.false_eq_true, if_false] at h
      obtain ⟨j, c₁, hcreate, hattach⟩ := apply_bind_eq_ok.mp h
      cases hcreate
      refine ⟨?_, Option.not_isSome_iff_eq_none.mp (Bool.eq_false_iff.mp hclosed)⟩
      -- in a block that does not exist the new instruction cannot be attached
      by_contra hge
      have hnone : c.function.blocks[c.block]? = none :=
        Array.getElem?_eq_none (Nat.le_of_not_lt hge)
      have hresult : ((Function.attachLast c.block c.function.slots.size).apply
          { c.function with
            slots := c.function.slots.push { instr := instr, location := c.location } }).1 = .ok i :=
        congrArg Prod.fst hattach
      rw [Function.attachLast, Function.apply_query_bind] at hresult
      simp only [Function.count, Function.block, hnone] at hresult
      cases hresult
  rw [apply_append hopen] at h
  exact (congrArg Prod.snd h).symm

/-- **An emission adds accesses** whenever it succeeds. -/
def Adds (added : List Access) (e : Emit α) : Prop :=
  ∀ c a c', e.apply c = (.ok a, c') →
    c'.function.accesses = c.function.accesses ++ added

namespace Adds

/-- Sequences add what their parts add, in turn. -/
theorem bind {e : Emit α} {k : α → Emit β} (he : Adds added e) (hk : ∀ a, Adds added' (k a)) :
    Adds (added ++ added') (e >>= k) := by
  intro c b c' h
  obtain ⟨a, c₁, hfirst, hsecond⟩ := apply_bind_eq_ok.mp h
  rw [hk a c₁ b c' hsecond, he c a c₁ hfirst, List.append_assoc]

/-- What leaves the arena as it is adds nothing. -/
theorem of_slots {e : Emit α} (h : ∀ c, (e.apply c).2.function.slots = c.function.slots) :
    Adds [] e := by
  intro c a c' hrun
  have hslots := h c
  rw [hrun] at hslots
  rw [List.append_nil, Function.accesses, hslots, Function.accesses]

theorem pure (a : α) : Adds [] (pure a : Emit α) := of_slots fun _ => rfl

/-- An instruction adds what it refers to. -/
theorem append (instr : Instruction) : Adds instr.access?.toList (append instr) := by
  intro c i c' h
  rw [append_eq_ok h]
  exact Function.accesses_push c.function c.block instr c.location

/-- Something else may be returned. -/
theorem returning {e : Emit α} (h : Adds added e) (k : α → β) :
    Adds added (e >>= fun a => Pure.pure (k a)) := by
  rw [← List.append_nil added]
  exact h.bind fun a => .pure (k a)

/-- An instruction with a new slot adds what it refers to, whatever the slot. -/
theorem appendTo {instr : LocalId → Instruction} (h : ∀ l, (instr l).access?.toList = added) :
    Adds added (appendTo instr) := by
  have hfresh : Adds [] (liftM freshLocal : Emit LocalId) := of_slots fun _ => rfl
  refine hfresh.bind fun dst => ?_
  have happend := (append (instr dst)).returning fun _ => dst
  rw [h dst] at happend
  exact happend

/-- A copy refers to nothing. -/
theorem copy (dst : LocalId) (src : Operand) : Adds [] (copy dst src) :=
  (append (.copy dst src)).returning _

/-- A store to an array refers to nothing. -/
theorem storeArray (array index value : Operand) : Adds [] (storeArray array index value) :=
  (append (.storeArray array index value)).returning _

/-- A store to a global refers to it. -/
theorem storeGlobal (g : GlobalId) (src : Operand) : Adds [.store g] (storeGlobal g src) :=
  (append (.storeGlobal g src)).returning _

/-- A return refers to nothing. -/
theorem ret (value : Operand) : Adds [] (ret value) :=
  (append (.ret value)).returning _

/-- Requiring a block adds nothing. -/
theorem requireBlock (b : BlockId) : Adds [] (requireBlock b) := by
  have hquery : Adds [] (edit (Transform.query (·.block b)) : Emit Block) := of_slots fun _ => rfl
  exact hquery.returning _

/-- Adding an edge adds nothing. -/
theorem connectTo (target : BlockId) : Adds [] (connectTo target) := by
  have hget : Adds [] (get : Emit Cursor) := of_slots fun _ => rfl
  refine hget.bind fun c => ?_
  have hedit : Adds [] (edit (Function.connect c.block target)) := by
    refine of_slots fun c' => ?_
    show ((Function.connect c.block target).apply c'.function).2.slots = c'.function.slots
    rw [Function.apply_connect]
    rcases c'.function.block target with e | block
    · rfl
    · rcases c'.function.successors c.block with e | succs
      · rfl
      · simp only
        split <;> rfl
  exact hedit.returning _

/-- A jump refers to nothing. -/
theorem jump (target : BlockId) : Adds [] (jump target) :=
  (requireBlock target).bind fun _ => (append (.jump target)).bind fun _ => connectTo target

/-- A branch refers to nothing. -/
theorem branch (cond : Operand) (thenTarget elseTarget : BlockId) :
    Adds [] (branch cond thenTarget elseTarget) :=
  (requireBlock thenTarget).bind fun _ => (requireBlock elseTarget).bind fun _ =>
    (append (.branch cond thenTarget elseTarget)).bind fun _ =>
      (connectTo thenTarget).bind fun _ => connectTo elseTarget

end Adds

end Emit

namespace Source

/-! ## References of a tree -/

/-- **A reference of a program tree** to what a module declares. -/
inductive Mention where
  | load (module name : String)
  | store (module name : String)
  | call (module name : String)
  deriving DecidableEq

/-- The reference that a call makes. -/
def Target.mentions : Target → List Mention
  | .function module name => [.call module name]
  | .builtin _ => []

/-- The reference that an assignment makes by its target. -/
def Variable.stores : Variable → List Mention
  | .named _ => []
  | .global module name => [.store module name]

mutual

/-- **The references of an expression**, in the order of their code: those of
the arguments of a call before the call. -/
def Expr.mentions : Expr → List Mention
  | .int _ | .str _ | .null => []
  | .var (.named _) => []
  | .var (.global module name) => [.load module name]
  | .call target args => Expr.allMentions args ++ target.mentions
  | .binary _ lhs rhs => lhs.mentions ++ rhs.mentions
  | .arrayLit elements => Expr.allMentions elements
  | .newArray size => size.mentions
  | .index array i => array.mentions ++ i.mentions

/-- The references of some expressions. -/
def Expr.allMentions : List Expr → List Mention
  | [] => []
  | e :: es => e.mentions ++ Expr.allMentions es

end

/-- The references of an expression that may be absent. -/
def Expr.optMentions : Option Expr → List Mention
  | none => []
  | some e => e.mentions

mutual

/-- **The references of a statement**, in the order of their code: those of the
assigned value before the assignment. -/
def Stmt.mentions : Stmt → List Mention
  | .declare _ init => Expr.optMentions init
  | .assign v value => value.mentions ++ v.stores
  | .assignIndex array i value => array.mentions ++ (i.mentions ++ value.mentions)
  | .ite cond thenBody elseBody =>
    cond.mentions ++ (Stmt.allMentions thenBody ++ Stmt.allMentions elseBody)
  | .loop cond body => cond.mentions ++ Stmt.allMentions body
  | .ret value => Expr.optMentions value
  | .expr e => e.mentions
  | .located _ stmt => stmt.mentions

/-- The references of a statement list. -/
def Stmt.allMentions : List Stmt → List Mention
  | [] => []
  | s :: rest => s.mentions ++ Stmt.allMentions rest

end

/-- The references of a function. -/
def FunctionDef.mentions (f : FunctionDef) : List Mention :=
  Stmt.allMentions f.body

/-- The references that initializing a global of a module makes: those of its
initial value, and the global itself. -/
def GlobalDef.mentions (module : String) (g : GlobalDef) : List Mention :=
  match g.init with
  | none => []
  | some init => init.mentions ++ [.store module g.name]

/-- The references of the initializer of a module. -/
def Module.initMentions (id : String) (m : Module) : List Mention :=
  m.globals.flatMap (GlobalDef.mentions id)

/-- The access that symbols make of a reference. -/
def Symbols.access? (symbols : Symbols) : Mention → Option Access
  | .load module name => (symbols.globals.lookup (module, name)).map .load
  | .store module name => (symbols.globals.lookup (module, name)).map .store
  | .call module name => (symbols.functions.lookup (module, name)).map .call

/-! ## Lowering -/

/-- **A step of lowering makes accesses of references** whenever it succeeds: one
of each, in order. -/
def Resolves {α : Type} (symbols : Symbols) (names : List Mention) (x : Lower α) : Prop :=
  ∀ d a d', x d = .ok (a, d') → d'.cursor.function.accesses.map some =
    d.cursor.function.accesses.map some ++ names.map symbols.access?

namespace Resolves

variable {α β γ : Type} {symbols : Symbols} {names names' : List Mention} {x : Lower α}
variable {f : α → Lower β}

/-- Sequences resolve the names of their parts, in turn. -/
theorem bind (hx : Resolves symbols names x) (hf : ∀ a, Resolves symbols names' (f a)) :
    Resolves symbols (names ++ names') (x >>= f) := by
  intro d b d' hrun
  obtain ⟨a, d₁, hfirst, hsecond⟩ := run_bind_eq_ok.mp hrun
  rw [hf a d₁ b d' hsecond, hx d a d₁ hfirst, List.map_append, List.append_assoc]

/-- First something without references. -/
theorem after (hx : Resolves symbols [] x) (hf : ∀ a, Resolves symbols names (f a)) :
    Resolves symbols names (x >>= f) :=
  bind hx hf

/-- Then something without references. -/
theorem before (hx : Resolves symbols names x) (hf : ∀ a, Resolves symbols [] (f a)) :
    Resolves symbols names (x >>= f) := by
  rw [← List.append_nil names]
  exact bind hx hf

/-- What leaves the function as it is makes no accesses. -/
theorem of_function (h : ∀ d a d', x d = .ok (a, d') →
    d'.cursor.function.slots = d.cursor.function.slots) : Resolves symbols [] x := by
  intro d a d' hrun
  rw [List.map_nil, List.append_nil, Function.accesses, h d a d' hrun, Function.accesses]

theorem pure (a : α) : Resolves symbols [] (pure a : Lower α) := by
  refine of_function ?_
  rintro d _ _ ⟨⟩
  rfl

/-- What an emission adds is what the references denote. -/
theorem emit {e : Emit α} {added : List Access} (he : e.Adds added)
    (hnames : added.map some = names.map symbols.access?) : Resolves symbols names (Lower.emit e) := by
  intro d a d' hrun
  rw [← hnames, ← List.map_append]
  exact congrArg (List.map some) (he d.cursor a d'.cursor (Lower.apply_of_emit hrun))

/-- Code that refers to nothing resolves nothing. -/
theorem emit_nil {e : Emit α} (he : e.Adds []) : Resolves symbols [] (Lower.emit e) :=
  emit he rfl

/-- A step of the cursor that adds no instruction resolves nothing. -/
theorem onCursor {y : StateM Cursor α} (hy : ∀ c, (y.run c).2.function.slots = c.function.slots) :
    Resolves symbols [] (Lower.onCursor y) := by
  refine of_function fun d a d' hrun => ?_
  rw [Lower.onCursor_eq_ok] at hrun
  cases hrun
  exact hy d.cursor

/-- A change of the scopes resolves nothing. -/
theorem modify {g : Draft → Draft} (hg : ∀ d, (g d).cursor = d.cursor) :
    Resolves symbols [] (modify g : Lower PUnit) := by
  refine of_function ?_
  rintro d _ _ ⟨⟩
  rw [hg]

/-- Something is looked up first, in symbols or otherwise. -/
theorem bind_lift {e : Except LoweringError γ} {k : γ → Lower β}
    (hk : ∀ c, e = .ok c → Resolves symbols names (k c)) :
    Resolves symbols names ((liftM e : Lower γ) >>= k) := by
  intro d b d' hrun
  obtain ⟨c, d₁, hlift, hrest⟩ := run_bind_eq_ok.mp hrun
  cases e with
  | error err => cases hlift
  | ok c' =>
    cases hlift
    exact hk c rfl d b d' hrest

end Resolves

namespace Lower

variable {symbols : Symbols}

/-! ### Control -/

/-- A new block resolves nothing. -/
theorem newBlock_resolves (name : String) : Resolves symbols [] (newBlock name) :=
  .onCursor fun _ => rfl

/-- Going to another block resolves nothing. -/
theorem moveTo_resolves (b : BlockId) : Resolves symbols [] (moveTo b) :=
  .onCursor fun _ => rfl

theorem locate_resolves (location : Location) :
    Resolves symbols [] (onCursor (Emit.locate location)) :=
  .onCursor fun _ => rfl

theorem isClosed_resolves : Resolves symbols [] isClosed := by
  refine .of_function fun d b d' hrun => ?_
  rw [isClosed_eq_ok] at hrun
  cases hrun
  rfl

/-- Going on in an open block resolves nothing. -/
theorem reopen_resolves : Resolves symbols [] reopen := by
  refine .after isClosed_resolves fun closed => ?_
  cases closed with
  | true => exact .after (newBlock_resolves _) fun b => moveTo_resolves b
  | false => exact .pure _

/-- A jump from a block that is still open resolves nothing. -/
theorem jumpIfOpen_resolves (target : BlockId) : Resolves symbols [] (jumpIfOpen target) := by
  refine .after isClosed_resolves fun closed => ?_
  cases closed with
  | true => exact .pure _
  | false => exact .emit_nil (.jump target)

/-- The return at the end of a body resolves nothing. -/
theorem closeBody_resolves : Resolves symbols [] closeBody := by
  refine .after isClosed_resolves fun closed => ?_
  cases closed with
  | true => exact .pure _
  | false => exact .after (locate_resolves _) fun _ => .emit_nil (.ret .null)

/-- A local is no name that is resolved. -/
theorem lookup_resolves (name : String) : Resolves symbols [] (lookup name) := by
  refine .of_function fun d l d' hrun => ?_
  rw [(of_lookup_eq_ok hrun).1]

/-- A declaration resolves nothing. -/
theorem bind_resolves (name : String) (l : LocalId) : Resolves symbols [] (bind name l) := by
  refine .modify fun d => ?_
  cases d.scopes with
  | nil => rfl
  | cons scope outer => rfl

/-- A scope does not change what is resolved in it. -/
theorem inScope_resolves {names : List Mention} {x : Lower Unit} (hx : Resolves symbols names x) :
    Resolves symbols names (inScope x) :=
  .after (.modify fun _ => rfl) fun _ => .before hx fun _ => .modify fun _ => rfl

/-! ### Expressions -/

/-- A global that is found is one of the symbols. -/
theorem global_of_lookup {module name : String} {g : GlobalId}
    (h : symbols.global module name = .ok g) :
    symbols.globals.lookup (module, name) = some g := by
  unfold Symbols.global at h
  cases hlookup : symbols.globals.lookup (module, name) with
  | none =>
    rw [hlookup] at h
    cases h
  | some g' =>
    rw [hlookup] at h
    cases h
    rfl

/-- The code of a call makes an access of its target. -/
theorem callee_mentions {target : Target} {callee : Callee}
    (h : Lower.callee symbols target = .ok callee) (dst : Option LocalId) (args : List Operand) :
    (Instruction.call dst callee args).access?.toList.map some =
      target.mentions.map symbols.access? := by
  cases target with
  | builtin name =>
    cases h
    rfl
  | function module name =>
    obtain ⟨ref, href, hcallee⟩ := Success.bind_eq_ok.mp h
    cases hcallee
    unfold Symbols.function at href
    cases hlookup : symbols.functions.lookup (module, name) with
    | none =>
      rw [hlookup] at href
      cases href
    | some ref' =>
      rw [hlookup] at href
      cases href
      simp [Instruction.access?, Target.mentions, Symbols.access?, hlookup]

/-- Code that writes its value into a fresh slot. -/
theorem value_resolves {e : Emit LocalId} {added : List Access} {names : List Mention}
    (he : e.Adds added) (hnames : added.map some = names.map symbols.access?) :
    Resolves symbols names (do return .var (← emit e) : Lower Operand) :=
  .before (.emit he hnames) fun _ => .pure _

mutual

/-- **The code of an expression makes one access of each of its references.** -/
theorem expr_resolves : ∀ e : Expr, Resolves symbols e.mentions (expr symbols e)
  | .int i => by
    rw [expr]
    exact .pure _
  | .str s => by
    rw [expr]
    exact .pure _
  | .null => by
    rw [expr]
    exact .pure _
  | .var (.named name) => by
    rw [expr]
    exact .before (lookup_resolves name) fun l => .pure _
  | .var (.global module name) => by
    rw [expr]
    refine .bind_lift fun g hg => ?_
    have hload : (Emit.loadGlobal g).Adds [.load g] := .appendTo fun _ => rfl
    refine value_resolves hload ?_
    simp [Expr.mentions, Symbols.access?, global_of_lookup hg]
  | .call target args => by
    rw [expr, Expr.mentions]
    refine .bind_lift fun callee hcallee => .bind (exprs_resolves args) fun operands => ?_
    have hcall : (Emit.call callee operands).Adds
        (Instruction.call none callee operands).access?.toList := by
      refine .appendTo fun _ => ?_
      cases callee <;> rfl
    exact value_resolves hcall (callee_mentions hcallee none operands)
  | .binary op lhs rhs => by
    rw [expr, Expr.mentions]
    refine .bind (expr_resolves lhs) fun a => .before (expr_resolves rhs) fun b => ?_
    have hbinary : (Emit.binary op a b).Adds [] := .appendTo fun _ => rfl
    exact value_resolves hbinary rfl
  | .arrayLit elems => by
    rw [expr, Expr.mentions]
    have hnew : (Emit.newArray (.int (Int64.ofNat elems.length))).Adds [] := .appendTo fun _ => rfl
    refine .after (.emit_nil hnew) fun array => ?_
    exact .before (elements_resolves array elems 0) fun _ => .pure _
  | .newArray size => by
    rw [expr, Expr.mentions]
    refine .before (expr_resolves size) fun n => ?_
    have hnew : (Emit.newArray n).Adds [] := .appendTo fun _ => rfl
    exact value_resolves hnew rfl
  | .index array i => by
    rw [expr, Expr.mentions]
    refine .bind (expr_resolves array) fun a => .before (expr_resolves i) fun n => ?_
    have hload : (Emit.loadArray a n).Adds [] := .appendTo fun _ => rfl
    exact value_resolves hload rfl

/-- Expressions resolve their names in turn. -/
theorem exprs_resolves : ∀ es : List Expr, Resolves symbols (Expr.allMentions es) (exprs symbols es)
  | [] => by
    rw [exprs]
    exact .pure _
  | e :: es => by
    rw [exprs]
    exact .bind (expr_resolves e) fun o => .before (exprs_resolves es) fun os => .pure _

/-- The elements of an array resolve their names in turn. -/
theorem elements_resolves (array : LocalId) : ∀ (es : List Expr) (i : Nat),
    Resolves symbols (Expr.allMentions es) (elements symbols array i es)
  | [], i => by
    rw [elements]
    exact .pure _
  | e :: es, i => by
    rw [elements]
    refine .bind (expr_resolves e) fun v => ?_
    exact .after (.emit_nil (.storeArray _ _ _)) fun _ => elements_resolves array es (i + 1)

end

/-- An expression that may be absent resolves its names. -/
theorem exprOrNull_resolves (e : Option Expr) :
    Resolves symbols (Expr.optMentions e) (exprOrNull symbols e) := by
  cases e with
  | none => exact .pure _
  | some e => exact expr_resolves e

/-- Storing a global makes an access of it. -/
theorem storeGlobal_resolves (module name : String) (o : Operand) :
    Resolves symbols [.store module name] (do
      let g ← symbols.global module name
      emit (Emit.storeGlobal g o)) := by
  refine .bind_lift fun g hg => .emit (.storeGlobal g o) ?_
  simp [Symbols.access?, global_of_lookup hg]

/-- An assignment to a global resolves its name. -/
theorem assign_resolves (o : Operand) (v : Variable) :
    Resolves symbols v.stores (assign symbols o v) := by
  cases v with
  | named name =>
    exact .after (lookup_resolves name) fun l => .emit_nil (.copy l o)
  | global module name => exact storeGlobal_resolves module name o

/-! ### Statements -/

mutual

/-- **The code of a statement makes one access of each of its references.** -/
theorem stmt_resolves : ∀ s : Stmt, Resolves symbols s.mentions (stmt symbols s)
  | .declare name init => by
    rw [stmt]
    refine .after reopen_resolves fun _ => .before (exprOrNull_resolves init) fun value => ?_
    refine .after (.onCursor fun _ => rfl) fun l => ?_
    exact .after (.emit_nil (.copy l value)) fun _ => bind_resolves name l
  | .assign v value => by
    rw [stmt]
    refine .after reopen_resolves fun _ => ?_
    exact .bind (expr_resolves value) fun o => assign_resolves o v
  | .assignIndex array i value => by
    rw [stmt]
    refine .after reopen_resolves fun _ => .bind (expr_resolves array) fun a => ?_
    refine .bind (expr_resolves i) fun n => .before (expr_resolves value) fun v => ?_
    exact .emit_nil (.storeArray a n v)
  | .ite cond thenBody elseBody => by
    rw [stmt]
    refine .after reopen_resolves fun _ => .bind (expr_resolves cond) fun c => ?_
    refine .after (newBlock_resolves _) fun thenBlock => ?_
    refine .after (newBlock_resolves _) fun elseBlock => .after (newBlock_resolves _) fun join => ?_
    refine .after (.emit_nil (.branch c thenBlock elseBlock)) fun _ => ?_
    refine .after (moveTo_resolves _) fun _ => ?_
    refine .bind (inScope_resolves (body_resolves thenBody)) fun _ => ?_
    refine .after (jumpIfOpen_resolves join) fun _ => .after (moveTo_resolves _) fun _ => ?_
    refine .before (inScope_resolves (body_resolves elseBody)) fun _ => ?_
    exact .after (jumpIfOpen_resolves join) fun _ => moveTo_resolves join
  | .loop cond loopBody => by
    rw [stmt]
    refine .after reopen_resolves fun _ => .after (newBlock_resolves _) fun test => ?_
    refine .after (newBlock_resolves _) fun inside => .after (newBlock_resolves _) fun exit => ?_
    refine .after (.emit_nil (.jump test)) fun _ => .after (moveTo_resolves _) fun _ => ?_
    refine .bind (expr_resolves cond) fun c => ?_
    refine .after (.emit_nil (.branch c inside exit)) fun _ => .after (moveTo_resolves _) fun _ => ?_
    refine .before (inScope_resolves (body_resolves loopBody)) fun _ => ?_
    exact .after (jumpIfOpen_resolves test) fun _ => moveTo_resolves exit
  | .ret value => by
    rw [stmt]
    refine .after reopen_resolves fun _ => .before (exprOrNull_resolves value) fun v => ?_
    exact .emit_nil (.ret v)
  | .expr e => by
    rw [stmt]
    exact .after reopen_resolves fun _ => .before (expr_resolves e) fun _ => .pure _
  | .located location inner => by
    rw [stmt]
    refine .after reopen_resolves fun _ => .after (locate_resolves _) fun previous => ?_
    exact .before (stmt_resolves inner) fun _ => .before (locate_resolves _) fun _ => .pure _

/-- Statements resolve their names in turn. -/
theorem body_resolves : ∀ ss : List Stmt, Resolves symbols (Stmt.allMentions ss) (body symbols ss)
  | [] => by
    rw [body]
    exact .pure _
  | s :: rest => by
    rw [body]
    exact .bind (stmt_resolves s) fun _ => body_resolves rest

end

/-! ### Functions -/

/-- The code of a function makes the accesses of its body. -/
theorem intoFunction_mentions {name : String} {params : List String} {scope : Scope}
    {x : Lower Unit} {names : List Mention} {code : Function} (hx : Resolves symbols names x)
    (h : intoFunction name params scope x = .ok code) :
    code.accesses.map some = names.map symbols.access? := by
  obtain ⟨d, d', hrun, hclose, rfl⟩ := intoFunction_eq_ok h
  have hquiet : Resolves symbols [] closeBody := closeBody_resolves
  rw [hquiet d () d' hclose, hx _ _ _ hrun, List.map_nil, List.append_nil]
  rfl

end Lower

/-- **The code of a function makes one access of each of its references**, and no
others. -/
theorem FunctionDef.accesses_lower {symbols : Symbols} {f : FunctionDef} {code : Function}
    (h : f.lower symbols = .ok code) :
    code.accesses.map some = f.mentions.map symbols.access? :=
  Lower.intoFunction_mentions (Lower.body_resolves f.body) h

/-- The initial value of a global resolves its names, and then that of the global. -/
theorem GlobalDef.lowerInit_resolves {symbols : Symbols} (id : String) (g : GlobalDef) :
    Resolves symbols (g.mentions id) (g.lowerInit symbols id) := by
  unfold GlobalDef.lowerInit GlobalDef.mentions
  cases g.init with
  | none => exact .pure _
  | some init =>
    refine .after (Lower.locate_resolves _) fun _ => .bind (Lower.expr_resolves init) fun value => ?_
    exact Lower.storeGlobal_resolves id g.name value

/-- Initial values resolve their names in turn. -/
theorem lowerInits_resolves {symbols : Symbols} (id : String) : ∀ globals : List GlobalDef,
    Resolves symbols (globals.flatMap (GlobalDef.mentions id))
      (globals.forM (GlobalDef.lowerInit symbols id))
  | [] => .pure _
  | g :: rest => by
    rw [List.flatMap_cons]
    exact .bind (g.lowerInit_resolves id) fun _ => lowerInits_resolves id rest

/-- **So does the code of the initializer of a module.** -/
theorem Module.accesses_lowerInit {symbols : Symbols} {id : String} {m : Module} {code : Function}
    (h : m.lowerInit symbols id = .ok code) :
    code.accesses.map some = (m.initMentions id).map symbols.access? :=
  Lower.intoFunction_mentions (lowerInits_resolves id m.globals) h

end Source

end BlockIR
