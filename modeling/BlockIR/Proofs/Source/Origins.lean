import BlockIR.Proofs.Source.Locations
import BlockIR.Proofs.Source.Names
/-!
# Where instructions come from

`Stmt.origins` lists what a statement becomes in the arena: for each instruction
what it does, and the location of the innermost located statement around what it
was emitted for. Lowering adds instructions with these origins and no others
(`Lower.stmt_adds`). A body whose last block has no terminator also gets a return
there, even if nothing leads to that block, as where both arms of a branch
return; it has no place in the source. So locations are all that a located
statement changes, and every instruction has the location of its statement.
-/

namespace BlockIR

open Success

/-! ## Origins -/

/-- What an instruction does, whatever it reads and writes. -/
inductive Opcode where
  | copy
  | newArray
  | loadArray
  | storeArray
  | loadGlobal
  | storeGlobal
  | call
  | binary
  | jump
  | branch
  | ret
  deriving DecidableEq

def Instruction.opcode : Instruction → Opcode
  | .copy .. => .copy
  | .newArray .. => .newArray
  | .loadArray .. => .loadArray
  | .storeArray .. => .storeArray
  | .loadGlobal .. => .loadGlobal
  | .storeGlobal .. => .storeGlobal
  | .call .. => .call
  | .binary .. => .binary
  | .jump .. => .jump
  | .branch .. => .branch
  | .ret .. => .ret

/-- **The origin of an instruction**: what it does, and for which place of the
source. -/
structure Origin where
  opcode : Opcode
  location : Location
  deriving DecidableEq

/-- The origins of instructions for one place. -/
def Location.origins (l : Location) (ops : List Opcode) : List Origin :=
  ops.map fun op => ⟨op, l⟩

/-- The origins of two stretches of code are those of each. -/
theorem Location.origins_append (l : Location) (ops ops' : List Opcode) :
    l.origins (ops ++ ops') = l.origins ops ++ l.origins ops' :=
  List.map_append

def Slot.origin (s : Slot) : Origin := ⟨s.instr.opcode, s.location⟩

namespace Function

/-- **The origins of the instructions of a function**, in the order in which they
were added. -/
def origins (f : Function) : List Origin :=
  f.slots.toList.map Slot.origin

/-- One instruction more adds its origin. -/
theorem origins_of_push {f f' : Function} {slot : Slot} (h : f'.slots = f.slots.push slot) :
    f'.origins = f.origins ++ [slot.origin] := by
  rw [origins, h, Array.toList_push, List.map_append]
  rfl

/-- Edges do not change the arena. -/
theorem slots_joinAll (f : Function) (src : BlockId) (dsts : List BlockId) :
    (f.joinAll src dsts).slots = f.slots := by
  have hjoin : ∀ (f : Function) (dst : BlockId), (f.join src dst).slots = f.slots := by
    intro f dst
    unfold join
    split
    · rfl
    · rfl
  induction dsts generalizing f with
  | nil => rfl
  | cons dst rest ih =>
    rw [joinAll, List.foldl_cons]
    exact (ih (f.join src dst)).trans (hjoin f dst)

/-- The slot of a terminator comes behind those that were there. -/
theorem slots_close (f : Function) (b : BlockId) (i : Instruction) (location : Location) :
    (f.close b i location).slots = f.slots.push ⟨i, some b, location⟩ :=
  slots_joinAll _ b i.targets

/-- **The code comes from somewhere**: its instructions have some origins, and at
the end, unless it closes before, it returns null at no place of the source. -/
def ComesFrom (f : Function) (origins : List Origin) (closes : Bool) : Prop :=
  ∃ emitted closing, f.slots.toList = emitted ++ closing ∧ emitted.map Slot.origin = origins ∧
    if closes then closing = [] else ∃ b, closing = [⟨.ret .null, some b, .builtin⟩]

end Function

namespace Source

/-! ## Origins of a tree -/

/-- What an assignment does to its target. -/
def Variable.storeOpcode : Variable → Opcode
  | .named _ => .copy
  | .global .. => .storeGlobal

mutual

/-- **What an expression becomes**, in the order of its code. -/
def Expr.opcodes : Expr → List Opcode
  | .int _ | .str _ | .null => []
  | .var (.named _) => []
  | .var (.global ..) => [.loadGlobal]
  | .call _ args => Expr.allOpcodes args ++ [.call]
  | .binary _ lhs rhs => lhs.opcodes ++ (rhs.opcodes ++ [.binary])
  | .arrayLit elements => .newArray :: Expr.elementOpcodes elements
  | .newArray size => size.opcodes ++ [.newArray]
  | .index array i => array.opcodes ++ (i.opcodes ++ [.loadArray])

/-- What some expressions become. -/
def Expr.allOpcodes : List Expr → List Opcode
  | [] => []
  | e :: es => e.opcodes ++ Expr.allOpcodes es

/-- What the elements of an array become, each stored once it is there. -/
def Expr.elementOpcodes : List Expr → List Opcode
  | [] => []
  | e :: es => e.opcodes ++ .storeArray :: Expr.elementOpcodes es

end

/-- What an expression that may be absent becomes. -/
def Expr.optOpcodes : Option Expr → List Opcode
  | none => []
  | some e => e.opcodes

/-- The last of some statements closes the block it ends in. -/
def Stmt.lastCloses (body : List Stmt) : Bool :=
  body.getLast?.any Stmt.closes

/-- The jump to where control goes on behind some statements. -/
def Stmt.jumpBehind (l : Location) (body : List Stmt) : List Origin :=
  if Stmt.lastCloses body then [] else [⟨.jump, l⟩]

mutual

/-- **The origins of what a statement becomes**, in the order of its code, at a
location. A located statement is at its own. -/
def Stmt.origins (l : Location) : Stmt → List Origin
  | .declare _ init => l.origins (Expr.optOpcodes init ++ [.copy])
  | .assign v value => l.origins (value.opcodes ++ [v.storeOpcode])
  | .assignIndex array i value =>
    l.origins (array.opcodes ++ (i.opcodes ++ (value.opcodes ++ [.storeArray])))
  | .ite cond thenBody elseBody =>
    l.origins (cond.opcodes ++ [.branch]) ++
      ((Stmt.allOrigins l thenBody ++ Stmt.jumpBehind l thenBody) ++
        (Stmt.allOrigins l elseBody ++ Stmt.jumpBehind l elseBody))
  | .loop cond body =>
    l.origins ([.jump] ++ cond.opcodes ++ [.branch]) ++
      (Stmt.allOrigins l body ++ Stmt.jumpBehind l body)
  | .ret value => l.origins (Expr.optOpcodes value ++ [.ret])
  | .expr e => l.origins e.opcodes
  | .located l' stmt => stmt.origins l'

/-- The origins of what some statements become. -/
def Stmt.allOrigins (l : Location) : List Stmt → List Origin
  | [] => []
  | s :: rest => s.origins l ++ Stmt.allOrigins l rest

end

/-- The origins of what initializing a global becomes: all at its location. -/
def GlobalDef.origins (g : GlobalDef) : List Origin :=
  match g.init with
  | none => []
  | some init => g.location.origins (init.opcodes ++ [.storeGlobal])

/-! ## Steps of lowering -/

/-- **What is added to a draft**: instructions of some origins. The location in
force is the same before and after. -/
structure Draft.Adds (d d' : Draft) (origins : List Origin) : Prop where
  origins_eq : d'.cursor.function.origins = d.cursor.function.origins ++ origins
  location_eq : d'.cursor.location = d.cursor.location

/-- What is added twice is added in turn. -/
theorem Draft.Adds.trans {d d' d'' : Draft} {origins origins' : List Origin}
    (h : d.Adds d' origins) (h' : d'.Adds d'' origins') : d.Adds d'' (origins ++ origins') := by
  refine ⟨?_, h'.location_eq.trans h.location_eq⟩
  rw [h'.origins_eq, h.origins_eq, List.append_assoc]

/-- Going on in another block adds nothing. -/
theorem Draft.Adds.moveTo {d d' : Draft} {origins : List Origin} (h : d.Adds d' origins)
    (b : BlockId) : d.Adds (d'.on (d'.cursor.moveTo b)) origins :=
  ⟨h.origins_eq, h.location_eq⟩

/-- Where the cursor is does not matter for what is added. -/
theorem Draft.Adds.of_moveTo {d d' : Draft} {origins : List Origin} {b : BlockId}
    (h : (d.on (d.cursor.moveTo b)).Adds d' origins) : d.Adds d' origins :=
  ⟨h.origins_eq, h.location_eq⟩

/-- **A step of lowering adds instructions at the location in force** whenever it
succeeds. -/
def Emits {α : Type} (ops : List Opcode) (x : Lower α) : Prop :=
  ∀ d a d', x d = .ok (a, d') → d.Adds d' (d.cursor.location.origins ops)

namespace Emits

variable {α β γ : Type} {ops ops' : List Opcode} {x : Lower α} {k : α → Lower β}

/-- Sequences emit what their parts emit, in turn. -/
theorem bind (hx : Emits ops x) (hk : ∀ a, Emits ops' (k a)) : Emits (ops ++ ops') (x >>= k) := by
  intro d b d' hrun
  obtain ⟨a, d₁, hfirst, hsecond⟩ := run_bind_eq_ok.mp hrun
  have h := hx d a d₁ hfirst
  have h' := hk a d₁ b d' hsecond
  rw [h.location_eq] at h'
  rw [Location.origins_append]
  exact h.trans h'

/-- First something that adds nothing. -/
theorem after (hx : Emits [] x) (hk : ∀ a, Emits ops (k a)) : Emits ops (x >>= k) :=
  bind hx hk

/-- Then something that adds nothing. -/
theorem before (hx : Emits ops x) (hk : ∀ a, Emits [] (k a)) : Emits ops (x >>= k) := by
  rw [← List.append_nil ops]
  exact bind hx hk

/-- What leaves the arena and the location as they are adds nothing. -/
theorem of_same (h : ∀ d a d', x d = .ok (a, d') →
    d'.cursor.function.slots = d.cursor.function.slots ∧
      d'.cursor.location = d.cursor.location) : Emits [] x := by
  intro d a d' hrun
  obtain ⟨hslots, hlocation⟩ := h d a d' hrun
  refine ⟨?_, hlocation⟩
  rw [Function.origins, hslots]
  exact (List.append_nil _).symm

theorem pure (a : α) : Emits [] (pure a : Lower α) := by
  refine of_same ?_
  rintro d _ _ ⟨⟩
  exact ⟨rfl, rfl⟩

/-- A step of the cursor that adds no instruction emits nothing. -/
theorem onCursor {y : StateM Cursor α} (hslots : ∀ c, (y.run c).2.function.slots = c.function.slots)
    (hlocation : ∀ c, (y.run c).2.location = c.location) : Emits [] (Lower.onCursor y) := by
  refine of_same fun d a d' hrun => ?_
  rw [Lower.onCursor_eq_ok] at hrun
  cases hrun
  exact ⟨hslots d.cursor, hlocation d.cursor⟩

/-- A lookup emits nothing. -/
theorem lift (e : Except LoweringError α) : Emits [] (liftM e : Lower α) := by
  refine of_same fun d a d' hrun => ?_
  cases e with
  | error err => cases hrun
  | ok a' =>
    cases hrun
    exact ⟨rfl, rfl⟩

/-- What an emission adds is what a cursor gets appended. -/
theorem emit {e : Emit α} (instr : α → Instruction) {op : Opcode}
    (he : ∀ c a c', e.apply c = (.ok a, c') → c'.location = c.location ∧
      c'.function.slots = c.function.slots.push ⟨instr a, some c.block, c.location⟩)
    (hop : ∀ a, (instr a).opcode = op) : Emits [op] (Lower.emit e) := by
  intro d a d' hrun
  obtain ⟨hlocation, hslots⟩ := he d.cursor a d'.cursor (Lower.apply_of_emit hrun)
  refine ⟨?_, hlocation⟩
  rw [Function.origins_of_push hslots, Slot.origin, hop]
  rfl

/-- An instruction is emitted. -/
theorem append (i : Instruction) : Emits [i.opcode] (Lower.emit (do let _ ← Emit.append i)) := by
  refine emit (fun _ => i) (fun c a c' h => ?_) fun _ => rfl
  obtain ⟨id, c₁, happend, hdone⟩ := apply_bind_eq_ok.mp h
  cases hdone
  rw [Emit.append_eq_ok happend]
  exact ⟨rfl, rfl⟩

/-- An instruction with a new slot is emitted, whatever the slot. -/
theorem appendTo {instr : LocalId → Instruction} {op : Opcode}
    (hop : ∀ l, (instr l).opcode = op) : Emits [op] (Lower.emit (Emit.appendTo instr)) := by
  refine emit instr (fun c l c' h => ?_) hop
  obtain ⟨dst, c₁, hfresh, hrest⟩ := apply_bind_eq_ok.mp h
  obtain ⟨id, c₂, happend, hdone⟩ := apply_bind_eq_ok.mp hrest
  cases hfresh
  cases hdone
  rw [Emit.append_eq_ok happend]
  exact ⟨rfl, rfl⟩

/-- Code that writes its value into a fresh slot. -/
theorem value {instr : LocalId → Instruction} {op : Opcode} (hop : ∀ l, (instr l).opcode = op) :
    Emits [op] (do return .var (← Lower.emit (Emit.appendTo instr)) : Lower Operand) :=
  before (appendTo hop) fun _ => pure _

end Emits

namespace Lower

open Draft

variable {symbols : Symbols} {env : Environment} {d d' : Draft}

theorem isClosed_emits : Emits [] isClosed := by
  refine .of_same fun d b d' hrun => ?_
  rw [isClosed_eq_ok] at hrun
  cases hrun
  exact ⟨rfl, rfl⟩

/-- Going on in an open block emits nothing. -/
theorem reopen_emits : Emits [] reopen := by
  refine .after isClosed_emits fun closed => ?_
  cases closed with
  | true =>
    have hnew : Emits [] (newBlock "unreachable") := .onCursor (fun _ => rfl) fun _ => rfl
    exact .after hnew fun b => .onCursor (fun _ => rfl) fun _ => rfl
  | false => exact .pure _

/-- The look for a local emits nothing. -/
theorem lookup_emits (name : String) : Emits [] (lookup name) := by
  refine .of_same fun d l d' hrun => ?_
  rw [(of_lookup_eq_ok hrun).1]
  exact ⟨rfl, rfl⟩

/-- A declaration in the scopes emits nothing. -/
theorem bind_emits (name : String) (l : LocalId) : Emits [] (bind name l) := by
  refine .of_same ?_
  rintro ⟨cursor, scopes⟩ _ _ ⟨⟩
  cases scopes with
  | nil => exact ⟨rfl, rfl⟩
  | cons scope outer => exact ⟨rfl, rfl⟩

mutual

/-- **The code of an expression is what it becomes**, at the location in force. -/
theorem expr_emits : ∀ e : Expr, Emits e.opcodes (expr symbols e)
  | .int i => by
    rw [expr]
    exact .pure _
  | .str s => by
    rw [expr]
    exact .pure _
  | .null => by
    rw [expr]
    exact .pure _
  | .var (.named name) => by
    rw [expr]
    exact .before (lookup_emits name) fun l => .pure _
  | .var (.global module name) => by
    rw [expr]
    exact .after (.lift _) fun g => .value fun _ => rfl
  | .call target args => by
    rw [expr, Expr.opcodes]
    refine .after (.lift _) fun callee => .bind (exprs_emits args) fun operands => ?_
    exact .value fun _ => rfl
  | .binary op lhs rhs => by
    rw [expr, Expr.opcodes]
    exact .bind (expr_emits lhs) fun a => .bind (expr_emits rhs) fun b => .value fun _ => rfl
  | .arrayLit elems => by
    rw [expr, Expr.opcodes]
    have hnew : Emits [.newArray] (emit (Emit.newArray (.int (Int64.ofNat elems.length)))) :=
      .appendTo fun _ => rfl
    exact .bind hnew fun array => .before (elements_emits array elems 0) fun _ => .pure _
  | .newArray size => by
    rw [expr, Expr.opcodes]
    exact .bind (expr_emits size) fun n => .value fun _ => rfl
  | .index array i => by
    rw [expr, Expr.opcodes]
    exact .bind (expr_emits array) fun a => .bind (expr_emits i) fun n => .value fun _ => rfl

/-- Expressions emit their instructions in turn. -/
theorem exprs_emits : ∀ es : List Expr, Emits (Expr.allOpcodes es) (exprs symbols es)
  | [] => by
    rw [exprs]
    exact .pure _
  | e :: es => by
    rw [exprs]
    exact .bind (expr_emits e) fun o => .before (exprs_emits es) fun os => .pure _

/-- Each element of an array is followed by its store. -/
theorem elements_emits (array : LocalId) : ∀ (es : List Expr) (i : Nat),
    Emits (Expr.elementOpcodes es) (elements symbols array i es)
  | [], i => by
    rw [elements]
    exact .pure _
  | e :: es, i => by
    rw [elements]
    have hstore : ∀ v, Emits [.storeArray]
        (emit (Emit.storeArray (.var array) (.int (Int64.ofNat i)) v)) := fun v => .append _
    exact .bind (expr_emits e) fun v => .bind (hstore v) fun _ => elements_emits array es (i + 1)

end

/-- An absent expression emits nothing. -/
theorem exprOrNull_emits (e : Option Expr) :
    Emits (Expr.optOpcodes e) (exprOrNull symbols e) := by
  cases e with
  | none => exact .pure _
  | some e => exact expr_emits e

/-- An assignment ends with a copy or a store. -/
theorem assign_emits (o : Operand) (v : Variable) :
    Emits [v.storeOpcode] (assign symbols o v) := by
  cases v with
  | named name => exact .after (lookup_emits name) fun l => .append (.copy l o)
  | global module name => exact .after (.lift _) fun g => .append (.storeGlobal g o)

/-! ## Statements -/

/-- Behind a reopening code can be emitted. -/
theorem working_of_reopen (env : Environment) (hd : d.Sound symbols)
    (h : reopen d = .ok ((), d')) :
    d'.Working symbols d.cursor.function.name (namesOf d.scopes) := by
  have hreopened : Yields env d.cursor.function.name reopen d _ _ := reopen_yields ⟨hd, rfl, rfl⟩
  obtain ⟨-, -, -, hw, -⟩ := hreopened.of_eq_ok h
  exact hw

/-- Whether control can go on behind some statements is for the last of them to
say. -/
theorem body_isOpen (hsymbols : symbols.Matches env) : ∀ (ss : List Stmt) {d : Draft},
    d.Sound symbols → (ss = [] → d.IsOpen) → body symbols ss d = .ok ((), d') →
    (d'.IsOpen ↔ Stmt.lastCloses ss = false)
  | [], d, _, hopen, hrun => by
    rw [body] at hrun
    cases hrun
    exact iff_of_true (hopen rfl) rfl
  | [s], d, hd, _, hrun => by
    rw [body, run_bind_eq_ok] at hrun
    obtain ⟨_, d₁, hstmt, hrun⟩ := hrun
    rw [body] at hrun
    cases hrun
    exact ((stmt_yields hsymbols s ⟨hd, rfl, rfl⟩).of_eq_ok hstmt).2.isOpen
  | s :: t :: rest, d, hd, _, hrun => by
    -- the first statement may close its block: the second one opens another
    rw [body, run_bind_eq_ok] at hrun
    obtain ⟨_, d₁, hstmt, hrun⟩ := hrun
    have h₁ := ((stmt_yields hsymbols s ⟨hd, rfl, rfl⟩).of_eq_ok hstmt).2
    have hrest := body_isOpen hsymbols (t :: rest) h₁.progress.sound (by rintro ⟨⟩) hrun
    rw [Stmt.lastCloses, List.getLast?_cons_cons]
    exact hrest

/-- A terminator adds its origin, at the location in force. -/
theorem adds_close (d : Draft) (i : Instruction) :
    d.Adds (d.on (d.cursor.close i)) [⟨i.opcode, d.cursor.location⟩] :=
  ⟨Function.origins_of_push (Function.slots_close ..), rfl⟩

/-- New blocks have no instruction but the one that leads to them. -/
theorem adds_fork {wide : Draft} (h : Forked symbols d wide) (i : Instruction) :
    d.Adds (wide.on (wide.cursor.close i)) [⟨i.opcode, d.cursor.location⟩] := by
  have hclose := adds_close wide i
  refine ⟨?_, hclose.location_eq.trans h.location⟩
  rw [hclose.origins_eq, Function.origins, h.slots, h.location]
  rfl

/-- What the statements of a block add, wherever they begin. -/
def BodyAdds (symbols : Symbols) (ss : List Stmt) : Prop :=
  ∀ d d', d.Sound symbols → body symbols ss d = .ok ((), d') →
    d.Adds d' (Stmt.allOrigins d.cursor.location ss)

/-- The arm of a branch adds its statements, and the jump behind them if control
can get there. -/
theorem Arm.adds {ss : List Stmt} {target : BlockId} {inner : Draft} {l : Location}
    (hsymbols : symbols.Matches env) (harm : Arm symbols (body symbols ss) target d inner d')
    (hd : d.Sound symbols) (hopen : d.IsOpen) (hbody : BodyAdds symbols ss)
    (hl : d.cursor.location = l) :
    d.Adds d' (Stmt.allOrigins l ss ++ Stmt.jumpBehind l ss) := by
  subst hl
  have hrun := hbody (openScope d) inner (openScope_sound hd) harm.run
  have hinner : d.Adds (closeScope inner) (Stmt.allOrigins d.cursor.location ss) :=
    ⟨hrun.origins_eq, hrun.location_eq⟩
  have hends := body_isOpen hsymbols ss (openScope_sound hd) (fun _ => hopen) harm.run
  refine hinner.trans ?_
  unfold Stmt.jumpBehind
  cases hlast : Stmt.lastCloses ss with
  | false =>
    rw [harm.ends.1 (hends.mpr hlast), ← hinner.location_eq]
    exact adds_close (closeScope inner) (.jump target)
  | true =>
    have hclosed : ¬ (closeScope inner).IsOpen := fun hopen' => by
      cases hlast.symm.trans (hends.mp hopen')
    rw [harm.ends.2 hclosed]
    exact ⟨(List.append_nil _).symm, rfl⟩

/-- A branch adds itself and both its arms. -/
theorem Branched.adds {c : Operand} {thenBody elseBody : List Stmt} {n : BlockId}
    {forked inner₁ after₁ inner₂ after₂ : Draft} {l : Location} (hsymbols : symbols.Matches env)
    (hb : Branched symbols c (body symbols thenBody) (body symbols elseBody) n d forked inner₁
      after₁ inner₂ after₂)
    (hthen : BodyAdds symbols thenBody) (helse : BodyAdds symbols elseBody)
    (hl : d.cursor.location = l) :
    d.Adds after₂ ([⟨.branch, l⟩] ++
      ((Stmt.allOrigins l thenBody ++ Stmt.jumpBehind l thenBody) ++
        (Stmt.allOrigins l elseBody ++ Stmt.jumpBehind l elseBody))) := by
  subst hl
  obtain ⟨wide, hf, hforked⟩ := hb.fork
  have hbranch : d.Adds forked [⟨.branch, d.cursor.location⟩] := by
    rw [hforked]
    exact adds_fork hf (.branch c n (n + 1))
  have hthenArm := hb.thenArm.adds hsymbols (hb.sound.moveTo hb.thenFresh.isOpen)
    hb.thenFresh.isOpen hthen hbranch.location_eq
  -- the second arm begins at the location that the first one has left in force
  have hfirst := hbranch.trans hthenArm.of_moveTo
  have helseArm := hb.elseArm.adds hsymbols
    (hb.thenArm.sealed.sound.moveTo hb.elseFresh.isOpen) hb.elseFresh.isOpen helse
    hfirst.location_eq
  rw [← List.append_assoc]
  exact hfirst.trans helseArm.of_moveTo

/-- A loop adds the jump to its test, the test, and its body with the jump back. -/
theorem Looped.adds {cond : Expr} {loopBody : List Stmt} {n : BlockId}
    {forked tested branched inner after : Draft} {c : Operand} {l : Location}
    (hsymbols : symbols.Matches env)
    (hlooped : Looped symbols (expr symbols cond) (body symbols loopBody) n d forked tested branched
      inner after c) (hbody : BodyAdds symbols loopBody) (hl : d.cursor.location = l) :
    d.Adds after (l.origins ([.jump] ++ cond.opcodes ++ [.branch]) ++
      (Stmt.allOrigins l loopBody ++ Stmt.jumpBehind l loopBody)) := by
  subst hl
  obtain ⟨wide, hf, hforked⟩ := hlooped.fork
  have hjump : d.Adds forked [⟨.jump, d.cursor.location⟩] := by
    rw [hforked]
    exact adds_fork hf (.jump n)
  have htest := (expr_emits cond _ c tested hlooped.run).of_moveTo
  rw [show (forked.on (forked.cursor.moveTo n)).cursor.location = d.cursor.location from
    hjump.location_eq] at htest
  have htested := hjump.trans htest
  have hchoice := adds_close tested (.branch c (n + 1) (n + 2))
  rw [← hlooped.choice, htested.location_eq] at hchoice
  have hbranched := htested.trans hchoice
  have harm := hlooped.arm.adds hsymbols (hlooped.close.sound.moveTo hlooped.bodyFresh.isOpen)
    hlooped.bodyFresh.isOpen hbody hbranched.location_eq
  rw [Location.origins_append, Location.origins_append]
  exact hbranched.trans harm.of_moveTo

mutual

/-- **A statement adds what it becomes**, at the location in force or at its own. -/
theorem stmt_adds (hsymbols : symbols.Matches env) : ∀ (s : Stmt) {d d' : Draft},
    d.Sound symbols → stmt symbols s d = .ok ((), d') → d.Adds d' (s.origins d.cursor.location)
  | .declare name init, d, d', _, hrun => by
    have hemits : Emits (Expr.optOpcodes init ++ [.copy]) (stmt symbols (.declare name init)) := by
      rw [stmt]
      refine .after reopen_emits fun _ => .bind (exprOrNull_emits init) fun value => ?_
      refine .after (.onCursor (fun _ => rfl) fun _ => rfl) fun l => ?_
      exact .before (.append (.copy l value)) fun _ => bind_emits name l
    exact hemits d () d' hrun
  | .assign v value, d, d', _, hrun => by
    have hemits : Emits (value.opcodes ++ [v.storeOpcode]) (stmt symbols (.assign v value)) := by
      rw [stmt]
      exact .after reopen_emits fun _ => .bind (expr_emits value) fun o => assign_emits o v
    exact hemits d () d' hrun
  | .assignIndex array i value, d, d', _, hrun => by
    have hemits : Emits (array.opcodes ++ (i.opcodes ++ (value.opcodes ++ [.storeArray])))
        (stmt symbols (.assignIndex array i value)) := by
      rw [stmt]
      refine .after reopen_emits fun _ => .bind (expr_emits array) fun a => ?_
      refine .bind (expr_emits i) fun n => .bind (expr_emits value) fun v => ?_
      exact .append (.storeArray a n v)
    exact hemits d () d' hrun
  | .ite cond thenBody elseBody, d, d', hd, hrun => by
    rw [stmt, run_bind_eq_ok] at hrun
    obtain ⟨_, d₁, hreopen, hrun⟩ := hrun
    have hw₁ := working_of_reopen env hd hreopen
    rw [run_bind_eq_ok] at hrun
    obtain ⟨c, d₂, hcond, hrun⟩ := hrun
    have h₂ := ((expr_yields hsymbols cond hw₁).of_eq_ok hcond).2
    obtain ⟨-, -, -, n, forked, inner₁, after₁, inner₂, after₂, hb, rfl⟩ :=
      (ite_yields (hw₁.emitted h₂.emitted) h₂.operand
        (fun d' hd' => body_yields hsymbols thenBody hd')
        (fun d' hd' => body_yields hsymbols elseBody hd')).of_eq_ok hrun
    have htest := Emits.after reopen_emits (fun _ => expr_emits cond) d c d₂
      (run_bind_eq_ok.mpr ⟨(), d₁, hreopen, hcond⟩)
    have hbranched := hb.adds hsymbols (fun _ _ => body_adds hsymbols thenBody)
      (fun _ _ => body_adds hsymbols elseBody) htest.location_eq
    rw [Stmt.origins, Location.origins_append, List.append_assoc]
    exact htest.trans (hbranched.moveTo (n + 2))
  | .loop cond loopBody, d, d', hd, hrun => by
    rw [stmt, run_bind_eq_ok] at hrun
    obtain ⟨_, d₁, hreopen, hrun⟩ := hrun
    have hw₁ := working_of_reopen env hd hreopen
    obtain ⟨-, -, -, n, forked, tested, branched, inner, after, c, hlooped, rfl⟩ :=
      (loop_yields hw₁ (fun d' hd' => expr_yields hsymbols cond hd')
        (fun d' hd' => body_yields hsymbols loopBody hd')).of_eq_ok hrun
    have h₁ := reopen_emits d () d₁ hreopen
    have hadds := hlooped.adds hsymbols (fun _ _ => body_adds hsymbols loopBody) h₁.location_eq
    exact h₁.trans (hadds.moveTo (n + 2))
  | .ret value, d, d', _, hrun => by
    have hemits : Emits (Expr.optOpcodes value ++ [.ret]) (stmt symbols (.ret value)) := by
      rw [stmt]
      exact .after reopen_emits fun _ => .bind (exprOrNull_emits value) fun v => .append (.ret v)
    exact hemits d () d' hrun
  | .expr e, d, d', _, hrun => by
    have hemits : Emits e.opcodes (stmt symbols (.expr e)) := by
      rw [stmt]
      exact .after reopen_emits fun _ => .before (expr_emits e) fun _ => .pure _
    exact hemits d () d' hrun
  | .located location inner, d, d', hd, hrun => by
    rw [stmt, run_bind_eq_ok] at hrun
    obtain ⟨_, d₁, hreopen, hrun⟩ := hrun
    have hw₁ := working_of_reopen env hd hreopen
    rw [run_bind_eq_ok] at hrun
    obtain ⟨previous, d₂, hlocate, hrun⟩ := hrun
    rw [onCursor_eq_ok] at hlocate
    cases hlocate
    rw [run_bind_eq_ok] at hrun
    obtain ⟨_, d₃, hinner, hrun⟩ := hrun
    cases hrun
    -- the location before comes back once the statement inside is lowered
    have h₁ := reopen_emits d () d₁ hreopen
    have h₃ := stmt_adds hsymbols inner (hw₁.sound.locate location) hinner
    have h₂ : d.cursor.function.origins =
        (d₁.on (d₁.cursor.locate location)).cursor.function.origins :=
      (h₁.origins_eq.trans (List.append_nil _)).symm
    refine ⟨?_, h₁.location_eq⟩
    rw [h₂]
    exact h₃.origins_eq

/-- **Statements add their origins in turn.** -/
theorem body_adds (hsymbols : symbols.Matches env) : ∀ (ss : List Stmt) {d d' : Draft},
    d.Sound symbols → body symbols ss d = .ok ((), d') →
    d.Adds d' (Stmt.allOrigins d.cursor.location ss)
  | [], d, d', _, hrun => by
    rw [body] at hrun
    cases hrun
    exact ⟨(List.append_nil _).symm, rfl⟩
  | s :: rest, d, d', hd, hrun => by
    rw [body, run_bind_eq_ok] at hrun
    obtain ⟨_, d₁, hstmt, hrun⟩ := hrun
    have h₁ := stmt_adds hsymbols s hd hstmt
    have hd₁ := ((stmt_yields hsymbols s ⟨hd, rfl, rfl⟩).of_eq_ok hstmt).2.progress.sound
    have hrest := body_adds hsymbols rest hd₁ hrun
    rw [h₁.location_eq] at hrest
    exact h₁.trans hrest

end

/-! ## Functions -/

/-- **The code of a function comes from its body**, but for the return at its end. -/
theorem intoFunction_comesFrom (symbols : Symbols) (env : Environment) {name : String}
    {params : List String} {scope : Scope} {x : Lower Unit} {origins : List Origin} {closes : Bool}
    {code : Function}
    (hcode : intoFunction name params scope x = .ok code)
    (hx : ∀ d, x (start name params scope) = .ok ((), d) → d.Sound symbols ∧
      d.cursor.function.origins = origins ∧ (d.IsOpen ↔ closes = false)) :
    code.ComesFrom origins closes := by
  obtain ⟨d, d', hbody, hclose, rfl⟩ := intoFunction_eq_ok hcode
  obtain ⟨hd, horigins, hopen⟩ := hx d hbody
  have hclosing : Yields env name closeBody d _ _ := closeBody_yields hd
  obtain ⟨-, -, -, hends⟩ := hclosing.of_eq_ok hclose
  cases closes with
  | false =>
    -- the one instruction that no part of the body asks for
    rw [hends.1 (hopen.mpr rfl)]
    refine ⟨d.cursor.function.slots.toList, [⟨.ret .null, some d.cursor.block, .builtin⟩], ?_,
      horigins, d.cursor.block, rfl⟩
    have hslots := Function.slots_close d.cursor.function d.cursor.block (.ret .null) .builtin
    rw [← Array.toList_push]
    exact congrArg Array.toList hslots
  | true =>
    have hclosed : ¬ d.IsOpen := fun h => by cases hopen.mp h
    rw [hends.2 hclosed]
    exact ⟨_, [], (List.append_nil _).symm, horigins, rfl⟩

end Lower

section

variable {symbols : Symbols} {env : Environment} {code : Function}

/-- The code of a function comes from its body. -/
theorem FunctionDef.comesFrom_of_lower {f : FunctionDef} (hsymbols : symbols.Matches env)
    (h : f.lower symbols = .ok code) :
    code.ComesFrom (Stmt.allOrigins .unknown f.body) (Stmt.lastCloses f.body) := by
  have hstart : (Lower.start f.name f.params (Lower.paramScope f.params)).Sound symbols :=
    Lower.start_sound _ Lower.paramScope_slots (Lower.paramScope_distinct _)
  refine Lower.intoFunction_comesFrom symbols env h fun d hrun => ⟨?_, ?_, ?_⟩
  · exact ((Lower.body_yields hsymbols f.body ⟨hstart, rfl, rfl⟩).of_eq_ok hrun).2.sound
  · exact (Lower.body_adds hsymbols f.body hstart hrun).origins_eq
  · exact Lower.body_isOpen hsymbols f.body hstart
      (fun _ => Function.isOpen_empty f.name f.params) hrun

/-- Initializing a global adds its code at its location. -/
theorem GlobalDef.origins_of_lowerInit {id : String} {g : GlobalDef} {d d' : Draft}
    (h : g.lowerInit symbols id d = .ok ((), d')) :
    d'.cursor.function.origins = d.cursor.function.origins ++ g.origins := by
  unfold GlobalDef.lowerInit at h
  unfold GlobalDef.origins
  cases hinit : g.init with
  | none =>
    rw [hinit] at h
    cases h
    exact (List.append_nil _).symm
  | some init =>
    rw [hinit] at h
    have hemits : Emits (init.opcodes ++ [.storeGlobal]) (do
        let value ← Lower.expr symbols init
        let global ← symbols.global id g.name
        Lower.emit (Emit.storeGlobal global value)) := by
      refine .bind (Lower.expr_emits init) fun value => .after (.lift _) fun global => ?_
      exact .append (.storeGlobal global value)
    exact (hemits (d.on (d.cursor.locate g.location)) () d' h).origins_eq

/-- The initializer goes through the globals in their order, and control gets to
its end. -/
theorem origins_of_lowerInits {id function : String} (hsymbols : symbols.Matches env) :
    ∀ (globals : List GlobalDef) {d d' : Draft}, (∀ g ∈ globals, env.global id g.name) →
      d.Working symbols function [] →
      globals.forM (GlobalDef.lowerInit symbols id) d = .ok ((), d') →
      d'.Working symbols function [] ∧
        d'.cursor.function.origins = d.cursor.function.origins ++ globals.flatMap GlobalDef.origins
  | [], d, d', _, hd, hrun => by
    cases hrun
    exact ⟨hd, (List.append_nil _).symm⟩
  | g :: rest, d, d', hown, hd, hrun => by
    rw [List.forM_eq_forM, List.forM_cons, run_bind_eq_ok] at hrun
    obtain ⟨_, d₁, hfirst, hrun⟩ := hrun
    have hg := GlobalDef.lowerInit_yields hsymbols g (hown g List.mem_cons_self) hd
    obtain ⟨-, -, hw₁⟩ := hg.of_eq_ok hfirst
    obtain ⟨hw, horigins⟩ := origins_of_lowerInits hsymbols rest
      (fun g' hg' => hown g' (List.mem_cons_of_mem _ hg')) hw₁ hrun
    refine ⟨hw, ?_⟩
    rw [horigins, GlobalDef.origins_of_lowerInit hfirst, List.flatMap_cons, List.append_assoc]

/-- The code of an initializer comes from the initial values. -/
theorem Module.comesFrom_of_lowerInit {id : String} {m : Module} (hsymbols : symbols.Matches env)
    (hown : ∀ g ∈ m.globals, env.global id g.name) (h : m.lowerInit symbols id = .ok code) :
    code.ComesFrom (m.globals.flatMap GlobalDef.origins) false := by
  have hstart : (Lower.start initName [] []).Working symbols initName [] :=
    ⟨⟨Lower.start_sound _ nofun List.nodup_nil, rfl, rfl⟩, Function.isOpen_empty _ _⟩
  refine Lower.intoFunction_comesFrom symbols env h fun d hrun => ?_
  obtain ⟨hw, horigins⟩ := origins_of_lowerInits hsymbols m.globals hown hstart hrun
  exact ⟨hw.sound, horigins, iff_of_true hw.isOpen rfl⟩

end

namespace Program

/-- **The locations of a lowered program**: every function of the tree has code that
comes from its body, every initializer code that comes from its globals, and there
is no other code. -/
structure Located (p : Program) (lowered : BlockIR.Program) : Prop where
  /-- Outside of located statements no location is known. -/
  function : ∀ id m, p.Includes id m → ∀ f ∈ m.functions,
    ∃ ref code, lowered.functionRef? id f.name = some ref ∧ lowered.function? ref = some code ∧
      code.ComesFrom (Stmt.allOrigins .unknown f.body) (Stmt.lastCloses f.body)
  init : ∀ id m, p.Includes id m → m.HasInit →
    ∃ ref code, lowered.moduleIndex? id = some ref.module ∧
      Machine.initializer? lowered ref.module = some ref ∧ lowered.function? ref = some code ∧
      code.ComesFrom (m.globals.flatMap GlobalDef.origins) false
  only : ∀ ref code, lowered.function? ref = some code → ∃ id m, p.Includes id m ∧
    lowered.moduleIndex? id = some ref.module ∧
      ((∃ f ∈ m.functions, lowered.functionRef? id f.name = some ref) ∨
        m.HasInit ∧ Machine.initializer? lowered ref.module = some ref)

variable {p : Program} {entry : String} {modules : List (String × Module)} {d : Declared}
variable {lowered : BlockIR.Program}

/-- All code of a lowered program is where the tree says. -/
theorem Lowering.located (h : p.Lowering entry modules d lowered)
    (hnames : ∀ id m, p.Includes id m → m.names.Nodup) : p.Located lowered where
  function id m hm f hf := by
    obtain ⟨ref, code, href, hcode, hlower⟩ := h.exists_code hnames hm hf
    exact ⟨ref, code, href, hcode, f.comesFrom_of_lower (h.lists.matches h.covers) hlower⟩
  init id m hm hhas := by
    obtain ⟨ref, code, hinit, hindex, hcode, hlower⟩ := h.exists_init hm hhas
    have hown : ∀ g ∈ m.globals, p.environment.global id g.name := fun g hg =>
      ⟨m, hm, g, hg, rfl⟩
    exact ⟨ref, code, hindex, hinit, hcode,
      m.comesFrom_of_lowerInit (h.lists.matches h.covers) hown hlower⟩
  only ref code hcode := by
    obtain ⟨id, m, hm, ⟨f, hf, -⟩ | ⟨hhas, hindex, -⟩⟩ := h.code ref code hcode
    · have hincludes := (h.lists.mem_iff id m).mp (List.mem_of_getElem? hm)
      have hlookup := (h.covers.functions id f.name ref).mpr ⟨m, f, hm, hf, rfl⟩
      exact ⟨id, m, hincludes, h.moduleIndex?_of_listed hm,
        .inl ⟨f, List.mem_of_getElem? hf, h.functionRef?_of_lookup hnames hlookup⟩⟩
    · have hincludes := (h.lists.mem_iff id m).mp (List.mem_of_getElem? hm)
      have hinit := h.initializer?_of_listed hm hhas
      rw [← hindex] at hinit
      exact ⟨id, m, hincludes, h.moduleIndex?_of_listed hm, .inr ⟨hhas, hinit⟩⟩

/-- **Source locations are transparent.** A program tree and the one with its
locations erased lower to programs that differ in the locations of instructions
only, or fail with the same error; and every instruction has the location of the
innermost located statement around what it was emitted for, that of its global in
an initializer, and the marker of synthesized code if it is the return at the end
of a body. -/
theorem locations_transparent (p : Program) (entry : String) :
    (p.erase.lower entry).map BlockIR.Program.unlocated =
      (p.lower entry).map BlockIR.Program.unlocated ∧
    ∀ lowered, p.lower entry = .ok lowered → p.Located lowered := by
  refine ⟨p.lower_erase entry, fun lowered h => ?_⟩
  obtain ⟨hscoped, modules, d, hlowering⟩ := (p.lower_decides entry).of_eq_ok h
  exact hlowering.located fun id m hm =>
    m.names_nodup_iff.mpr ⟨hscoped.distinct id m hm, hscoped.initFree id m hm⟩

/-- A line of a file. -/
def lineOf (line : Nat) : Location := .span ⟨"placed.teal", line, 5, line, 40⟩

/-- A global on its line, and a branch that has a line with a return on another
inside. What follows the branch has no line. -/
def placedTree : Program :=
  Sample.single {
    globals := [
      { name := "total", init := some (.binary .add (.int 1) (.int 2)), location := lineOf 1 }]
    functions := [
      { name := "main"
        params := ["n"]
        body := [
          .located (lineOf 3) (.ite (Sample.v "n")
            [.located (lineOf 4) (Sample.ret (Sample.v "n")), Sample.print (Sample.v "n")]
            [Sample.set "n" (.int 1)]),
          Sample.print (Sample.v "n")] }] }

/-- Without its locations the tree lowers to another program, which is the same but
for them. The return on its line is followed by code on the line of the branch. -/
theorem locations_transparent_placed :
    ∃ lowered, placedTree.lower "main" = .ok lowered ∧
      placedTree.erase.lower "main" ≠ .ok lowered ∧
      (placedTree.erase.lower "main").map BlockIR.Program.unlocated = .ok lowered.unlocated ∧
      (∃ ref code, lowered.functionRef? "main" "main" = some ref ∧
        lowered.function? ref = some code ∧
        code.ComesFrom [⟨.branch, lineOf 3⟩, ⟨.ret, lineOf 4⟩, ⟨.call, lineOf 3⟩,
          ⟨.jump, lineOf 3⟩, ⟨.copy, lineOf 3⟩, ⟨.jump, lineOf 3⟩, ⟨.call, .unknown⟩] false) ∧
      ∃ ref code, Machine.initializer? lowered ref.module = some ref ∧
        lowered.function? ref = some code ∧
        code.ComesFrom [⟨.binary, lineOf 1⟩, ⟨.storeGlobal, lineOf 1⟩] false := by
  have hok : (placedTree.lower "main").isOk = true := by decide +kernel
  have hne : placedTree.erase.lower "main" ≠ placedTree.lower "main" := by decide +kernel
  obtain ⟨herase, hlocated⟩ := locations_transparent placedTree "main"
  cases hlower : placedTree.lower "main" with
  | error e =>
    rw [hlower] at hok
    cases hok
  | ok lowered =>
    rw [hlower] at hne herase
    have h := hlocated lowered hlower
    have hroot : placedTree.Includes "main" _ := ⟨.root, rfl⟩
    obtain ⟨ref, code, href, hcode, hbody⟩ := h.function "main" _ hroot _ List.mem_cons_self
    obtain ⟨ref', code', -, hinit, hcode', hinits⟩ := h.init "main" _ hroot (by decide)
    exact ⟨lowered, rfl, hne, herase, ⟨ref, code, href, hcode, hbody⟩, ref', code', hinit, hcode',
      hinits⟩

end Program

end Source

end BlockIR
