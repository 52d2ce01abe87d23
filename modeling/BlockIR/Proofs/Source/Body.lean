import BlockIR.Proofs.Source.Control
import Mathlib.Data.List.Nodup
/-!
# Lowering accepts the bodies that are well scoped

Every expression and statement is lowered if each of its references is declared,
and only then; what it leaves is a sound draft that extends the one before, and
what it reports otherwise is the first reference that is not declared. The
proof follows the syntax: one case for each form, with the promise of the parts
composed by `Yields`.
-/

namespace BlockIR

open Success

namespace Source

namespace Lower

open Draft

variable {symbols : Symbols} {env : Environment} {function : String} {names : List String}
variable {d d' : Draft} {i : Instruction}

/-- An instruction that writes a new slot is emitted, and the slot returned as
operand. -/
theorem appendTo_yields {instr : LocalId → Instruction} (he : Emitted symbols d d')
    (hterm : (instr d'.cursor.function.numLocals).isTerminator = false)
    (hops : ∀ o ∈ (instr d'.cursor.function.numLocals).operands, ∀ l ∈ o.local?,
      l < d'.cursor.function.numLocals)
    (hdef : (instr d'.cursor.function.numLocals).def? = some d'.cursor.function.numLocals)
    (hi : symbols.Binds (instr d'.cursor.function.numLocals)) :
    Yields env function (do return .var (← emit (Emit.appendTo instr))) d' []
      (Delivers symbols d) := by
  have hlocals := locals_lt (fun o ho l hl => Nat.lt_succ_of_lt (hops o ho l hl)) (fun l hl => by
    rw [hdef] at hl
    cases hl
    exact Nat.lt_succ_self _)
  refine .step (emit_eq_ok (Emit.apply_appendTo he.isOpen instr)) (.pure ?_)
  refine ⟨he.trans (emitted_assign he.sound he.isOpen hterm hlocals hi), ?_⟩
  rintro l ⟨⟩
  exact Nat.lt_succ_self _

/-- An instruction is emitted into an open block. -/
theorem emit_append_eq_ok (hopen : d.IsOpen) (instr : Instruction) :
    emit (do let _ ← Emit.append instr) d = .ok ((), d.on (d.cursor.append instr)) := by
  refine emit_eq_ok ?_
  rw [Transform.apply_bind_ok (Emit.apply_append hopen instr)]
  rfl

/-- An instruction without new slot is emitted. -/
theorem append_yields {instr : Instruction} (he : Emitted symbols d d')
    (hterm : instr.isTerminator = false)
    (hops : ∀ o ∈ instr.operands, ∀ l ∈ o.local?, l < d'.cursor.function.numLocals)
    (hdef : ∀ l ∈ instr.def?, l < d'.cursor.function.numLocals) (hi : symbols.Binds instr) :
    Yields env function (emit (do let _ ← Emit.append instr)) d' [] fun _ d'' =>
      Emitted symbols d d'' :=
  .of_ok (emit_append_eq_ok he.isOpen instr)
    (he.trans (emitted_append he.sound he.isOpen hterm (locals_lt hops hdef) hi))

/-- A new array of a given size goes to a new slot. -/
theorem newArray_emitted (h : d.Sound symbols) (hopen : d.IsOpen) (size : Int64) :
    Emitted symbols d (d.on (d.cursor.assign fun dst => .newArray dst (.int size))) :=
  emitted_assign h hopen rfl (locals_lt (List.forall_mem_singleton.mpr nofun) (by
    rintro _ ⟨⟩
    exact Nat.lt_succ_self _)) (Symbols.binds_of_none rfl rfl)

/-- A store of operands that can be read is emitted. -/
theorem storeArray_emitted {a i v : Operand} (h : d.Sound symbols) (hopen : d.IsOpen)
    (ha : ∀ l ∈ a.local?, l < d.cursor.function.numLocals)
    (hi : ∀ l ∈ i.local?, l < d.cursor.function.numLocals)
    (hv : ∀ l ∈ v.local?, l < d.cursor.function.numLocals) :
    Emitted symbols d (d.on (d.cursor.append (.storeArray a i v))) :=
  emitted_append h hopen rfl (locals_lt (List.forall_mem_cons.mpr
    ⟨ha, List.forall_mem_cons.mpr ⟨hi, List.forall_mem_singleton.mpr hv⟩⟩) nofun)
    (Symbols.binds_of_none rfl rfl)

mutual

/-- **An expression is lowered exactly when its references are declared.** -/
theorem expr_yields (hsymbols : symbols.Matches env) : ∀ (e : Expr) {d : Draft},
    d.Working symbols function names →
    Yields env function (expr symbols e) d (e.references names) (Delivers symbols d)
  | .int i, d, h => .pure ⟨.refl h.sound h.isOpen, fun l hl => by cases hl⟩
  | .str s, d, h => .pure ⟨.refl h.sound h.isOpen, fun l hl => by cases hl⟩
  | .null, d, h => .pure ⟨.refl h.sound h.isOpen, fun l hl => by cases hl⟩
  | .var (.named name), d, h => by
    rw [expr, Expr.references, Variable.reference, ← h.names]
    refine .before (lookup_yields h.sound h.function name) ?_
    rintro l _ ⟨rfl, hl, -⟩
    refine .pure ⟨.refl h.sound h.isOpen, ?_⟩
    rintro _ ⟨⟩
    exact hl
  | .var (.global module name), d, h => by
    rw [expr, Expr.references, Variable.reference]
    refine .before (global_yields hsymbols module name) ?_
    rintro g _ ⟨rfl, hg⟩
    refine appendTo_yields (.refl h.sound h.isOpen) rfl (fun o ho => by cases ho) rfl ⟨?_, ?_⟩
    · rintro _ ⟨⟩
      exact ⟨_, hg⟩
    · rintro _ ⟨⟩
  | .call target args, d, h => by
    rw [expr, Expr.references]
    refine .bind (callee_yields hsymbols target) ?_
    rintro callee _ ⟨rfl, hcallee⟩
    refine .before (exprs_yields hsymbols args h) fun os d₁ h₁ => ?_
    refine appendTo_yields h₁.1 rfl h₁.2 rfl ⟨?_, fun ref href => ?_⟩
    · rintro _ ⟨⟩
    · match target, callee, hcallee, href with
      | .function _ _, .function _, hcallee, rfl => exact ⟨_, hcallee⟩
  | .binary op lhs rhs, d, h => by
    rw [expr, Expr.references]
    refine .bind (expr_yields hsymbols lhs h) fun a d₁ h₁ => ?_
    refine .before (expr_yields hsymbols rhs (h.emitted h₁.emitted)) fun b d₂ h₂ => ?_
    exact appendTo_yields (h₁.emitted.trans h₂.emitted) rfl
      (List.forall_mem_cons.mpr ⟨h₁.operand_of_emitted h₂.emitted,
        List.forall_mem_singleton.mpr h₂.operand⟩) rfl (Symbols.binds_of_none rfl rfl)
  | .arrayLit elems, d, h => by
    rw [expr, Expr.references]
    have hnew := newArray_emitted h.sound h.isOpen (Int64.ofNat elems.length)
    refine .step (emit_eq_ok (Emit.apply_appendTo h.isOpen _)) ?_
    refine .before (elements_yields hsymbols elems 0 (h.emitted hnew) (Nat.lt_succ_self _)) ?_
    intro _ d₁ h₁
    refine .pure ⟨hnew.trans h₁, ?_⟩
    rintro _ ⟨⟩
    exact Nat.lt_of_lt_of_le (Nat.lt_succ_self _) h₁.extend.numLocals
  | .newArray size, d, h => by
    rw [expr, Expr.references]
    refine .before (expr_yields hsymbols size h) fun n d₁ h₁ => ?_
    exact appendTo_yields h₁.emitted rfl (List.forall_mem_singleton.mpr h₁.operand) rfl
      (Symbols.binds_of_none rfl rfl)
  | .index array i, d, h => by
    rw [expr, Expr.references]
    refine .bind (expr_yields hsymbols array h) fun a d₁ h₁ => ?_
    refine .before (expr_yields hsymbols i (h.emitted h₁.emitted)) fun b d₂ h₂ => ?_
    exact appendTo_yields (h₁.emitted.trans h₂.emitted) rfl
      (List.forall_mem_cons.mpr ⟨h₁.operand_of_emitted h₂.emitted,
        List.forall_mem_singleton.mpr h₂.operand⟩) rfl (Symbols.binds_of_none rfl rfl)

/-- Expressions are lowered exactly when their references are declared. -/
theorem exprs_yields (hsymbols : symbols.Matches env) : ∀ (es : List Expr) {d : Draft},
    d.Working symbols function names →
    Yields env function (exprs symbols es) d (Expr.allReferences names es) fun os d' =>
      Emitted symbols d d' ∧ ∀ o ∈ os, ∀ l ∈ o.local?, l < d'.cursor.function.numLocals
  | [], d, h => .pure ⟨.refl h.sound h.isOpen, fun o ho => by cases ho⟩
  | e :: es, d, h => by
    rw [exprs, Expr.allReferences]
    refine .bind (expr_yields hsymbols e h) fun o d₁ h₁ => ?_
    refine .before (exprs_yields hsymbols es (h.emitted h₁.emitted)) fun os d₂ h₂ => ?_
    refine .pure ⟨h₁.emitted.trans h₂.1,
      List.forall_mem_cons.mpr ⟨h₁.operand_of_emitted h₂.1, h₂.2⟩⟩

/-- The elements of an array are lowered exactly when their references are declared. -/
theorem elements_yields (hsymbols : symbols.Matches env) {array : LocalId} :
    ∀ (es : List Expr) (index : Nat) {d : Draft}, d.Working symbols function names →
    array < d.cursor.function.numLocals →
    Yields env function (elements symbols array index es) d (Expr.allReferences names es)
      fun _ d' => Emitted symbols d d'
  | [], _, d, h, _ => .pure (.refl h.sound h.isOpen)
  | e :: es, index, d, h, harray => by
    rw [elements, Expr.allReferences]
    refine .bind (expr_yields hsymbols e h) fun v d₁ h₁ => ?_
    have hstore : Emitted symbols d₁ (d₁.on (d₁.cursor.append
        (.storeArray (.var array) (.int (Int64.ofNat index)) v))) := by
      refine storeArray_emitted h₁.emitted.sound h₁.emitted.isOpen ?_ nofun h₁.operand
      rintro _ ⟨⟩
      exact Nat.lt_of_lt_of_le harray h₁.emitted.extend.numLocals
    have h₂ := h₁.emitted.trans hstore
    refine .step (emit_append_eq_ok h₁.emitted.isOpen _) ?_
    refine (elements_yields hsymbols es (index + 1) (h.emitted h₂) ?_).imp ?_
    · exact Nat.lt_of_lt_of_le harray h₂.extend.numLocals
    · intro _ d₃ h₃
      exact h₂.trans h₃

end

/-! ## Statements -/

/-- An absent expression is always lowered. -/
theorem exprOrNull_yields (hsymbols : symbols.Matches env) (e : Option Expr)
    (h : d.Working symbols function names) :
    Yields env function (exprOrNull symbols e) d (Expr.optReferences names e)
      (Delivers symbols d) := by
  cases e with
  | none => exact .pure ⟨.refl h.sound h.isOpen, nofun⟩
  | some e => exact expr_yields hsymbols e h

/-- What a statement does to the scopes: it declares at most one name, in the
innermost. -/
def Declares (declared : Option String) (before after : List Scope) : Prop :=
  match declared with
  | none => after = before
  | some name => ∃ l top outer, before = top :: outer ∧ after = ((name, l) :: top) :: outer

/-- A statement adds the name that it declares. -/
theorem Declares.namesOf_eq {declared : Option String} {before after : List Scope}
    (h : Declares declared before after) :
    namesOf after = declared.toList ++ namesOf before := by
  cases declared with
  | none =>
    cases h
    rfl
  | some name =>
    obtain ⟨l, top, outer, rfl, rfl⟩ := h
    rfl

/-- A statement leaves progress, its name in scope, and an open block unless it
returns. -/
structure Leaves (symbols : Symbols) (s : Stmt) (d d' : Draft) : Prop where
  progress : Progress symbols d d'
  declares : Declares s.declared? d.scopes d'.scopes
  isOpen : d'.IsOpen ↔ s.closes = false

/-- A name is added to the innermost scope. -/
theorem bind_eq_ok {top : Scope} {outer : List Scope} (name : String) (l : LocalId)
    (hscopes : d.scopes = top :: outer) :
    bind name l d = .ok ((), { d with scopes := ((name, l) :: top) :: outer }) := by
  simp only [bind, modify, modifyGet, MonadStateOf.modifyGet, StateT.modifyGet, hscopes]
  rfl

/-- A name is declared at a slot that no other name has. -/
theorem bind_yields (he : Emitted symbols d d') (name : String) {l : LocalId}
    (hl : l < d'.cursor.function.numLocals) (hfresh : ∀ entry ∈ d'.scopes.flatten, entry.2 < l) :
    Yields env function (bind name l) d' [] fun _ d'' =>
      Progress symbols d d'' ∧ Declares (some name) d.scopes d''.scopes ∧
        d''.cursor = d'.cursor := by
  cases hscopes : d.scopes with
  | nil => exact absurd (he.scopes.trans hscopes) he.sound.nonempty
  | cons top outer =>
    have hbefore : d'.scopes = top :: outer := he.scopes.trans hscopes
    rw [hbefore] at hfresh
    have hslots : ∀ entry ∈ (top :: outer).flatten, entry.2 < d'.cursor.function.numLocals :=
      hbefore ▸ he.sound.slots
    have hdistinct : ((top :: outer).flatten.map Prod.snd).Nodup := hbefore ▸ he.sound.distinct
    have hnew : l ∉ (top :: outer).flatten.map Prod.snd := by
      intro hmem
      obtain ⟨entry, hentry, heq⟩ := List.mem_map.mp hmem
      exact Nat.ne_of_lt (hfresh entry hentry) heq
    refine .of_ok (bind_eq_ok name l hbefore) ⟨⟨⟨he.sound.drafted, he.sound.bound, he.sound.spot,
      ?_, ?_, ?_⟩, he.extend, ?_, he.progress.behind⟩, ⟨l, top, outer, rfl, rfl⟩, rfl⟩
    · exact List.forall_mem_cons.mpr ⟨hl, hslots⟩
    · exact List.nodup_cons.mpr ⟨hnew, hdistinct⟩
    · exact List.cons_ne_nil _ _
    · rw [hscopes]
      rfl

/-- An assignment is lowered exactly when its variable is declared. -/
theorem assign_yields (hsymbols : symbols.Matches env) (h : d.Working symbols function names)
    {o : Operand} (hd : Delivers symbols d o d') (v : Variable) :
    Yields env function (assign symbols o v) d' [v.reference names] fun _ d'' =>
      Emitted symbols d d'' := by
  have hw := h.emitted hd.emitted
  cases v with
  | named name =>
    rw [assign, Variable.reference, ← hw.names]
    refine .before (lookup_yields hw.sound hw.function name) ?_
    rintro l _ ⟨rfl, hl, -⟩
    refine append_yields hd.emitted rfl (List.forall_mem_singleton.mpr hd.operand) ?_
      (Symbols.binds_of_none rfl rfl)
    rintro _ ⟨⟩
    exact hl
  | global module name =>
    rw [assign, Variable.reference]
    refine .before (global_yields hsymbols module name) ?_
    rintro g _ ⟨rfl, hg⟩
    refine append_yields hd.emitted rfl (List.forall_mem_singleton.mpr hd.operand)
      (by rintro _ ⟨⟩) ⟨?_, by rintro _ ⟨⟩⟩
    rintro _ ⟨⟩
    exact ⟨_, hg⟩

/-- A copy goes to a new slot. -/
theorem copy_emitted {o : Operand} (h : d.Sound symbols) (hopen : d.IsOpen)
    (ho : ∀ l ∈ o.local?, l < d.cursor.function.numLocals) :
    Emitted symbols d (d.on (d.cursor.assign fun l => .copy l o)) := by
  refine emitted_assign h hopen rfl (locals_lt ?_ ?_) (Symbols.binds_of_none rfl rfl)
  · exact List.forall_mem_singleton.mpr fun l hl => Nat.lt_succ_of_lt (ho l hl)
  · rintro _ ⟨⟩
    exact Nat.lt_succ_self _

mutual

/-- **A statement is lowered exactly when its references are declared.** -/
theorem stmt_yields (hsymbols : symbols.Matches env) : ∀ (s : Stmt) {names : List String}
    {d : Draft}, d.Standing symbols function names →
    Yields env function (stmt symbols s) d (s.references names) fun _ d' => Leaves symbols s d d'
  | .declare name init, names, d, h => by
    rw [stmt, Stmt.references]
    refine .after (reopen_yields h) ?_
    rintro _ d₁ ⟨hp₁, hs₁, hw₁, -⟩
    refine .before (exprOrNull_yields hsymbols init hw₁) fun v d₂ h₂ => ?_
    have hcopy := copy_emitted h₂.emitted.sound h₂.emitted.isOpen h₂.operand
    have hwide := emitted_widen h₂.emitted.sound h₂.emitted.isOpen
    refine .step (onCursor_eq_ok Emit.freshLocal d₂) (.step (emit_append_eq_ok hwide.isOpen _) ?_)
    -- the new slot lies above all those that the scopes hold
    refine (bind_yields (h₂.emitted.trans hcopy) name (Nat.lt_succ_self _)
      h₂.emitted.sound.slots).imp ?_
    rintro _ d₃ ⟨hp₃, hdeclares, hcursor⟩
    rw [hs₁] at hdeclares
    refine ⟨hp₁.trans hp₃, hdeclares, iff_of_true ?_ rfl⟩
    rw [Draft.IsOpen, hcursor]
    exact hcopy.isOpen
  | .assign v value, names, d, h => by
    rw [stmt, Stmt.references]
    refine .after (reopen_yields h) ?_
    rintro _ d₁ ⟨hp₁, hs₁, hw₁, -⟩
    refine .bind (expr_yields hsymbols value hw₁) fun o d₂ h₂ => ?_
    refine (assign_yields hsymbols hw₁ h₂ v).imp fun _ d₃ h₃ => ?_
    exact ⟨hp₁.trans h₃.progress, h₃.scopes.trans hs₁, iff_of_true h₃.isOpen rfl⟩
  | .assignIndex array index value, names, d, h => by
    rw [stmt, Stmt.references]
    refine .after (reopen_yields h) ?_
    rintro _ d₁ ⟨hp₁, hs₁, hw₁, -⟩
    refine .bind (expr_yields hsymbols array hw₁) fun a d₂ h₂ => ?_
    have hw₂ := hw₁.emitted h₂.emitted
    refine .bind (expr_yields hsymbols index hw₂) fun i d₃ h₃ => ?_
    have hw₃ := hw₂.emitted h₃.emitted
    refine .before (expr_yields hsymbols value hw₃) fun v d₄ h₄ => ?_
    have he := (h₂.emitted.trans h₃.emitted).trans h₄.emitted
    have hstore := storeArray_emitted h₄.emitted.sound h₄.emitted.isOpen
      (h₂.operand_of_emitted (h₃.emitted.trans h₄.emitted)) (h₃.operand_of_emitted h₄.emitted)
      h₄.operand
    have h₅ := he.trans hstore
    exact .of_ok (emit_append_eq_ok h₄.emitted.isOpen _)
      ⟨hp₁.trans h₅.progress, h₅.scopes.trans hs₁, iff_of_true h₅.isOpen rfl⟩
  | .ite cond thenBody elseBody, names, d, h => by
    rw [stmt, Stmt.references]
    refine .after (reopen_yields h) ?_
    rintro _ d₁ ⟨hp₁, hs₁, hw₁, -⟩
    refine .bind (expr_yields hsymbols cond hw₁) fun c d₂ h₂ => ?_
    have hw₂ := hw₁.emitted h₂.emitted
    refine (ite_yields hw₂ h₂.operand (fun d' hd => body_yields hsymbols thenBody hd)
      (fun d' hd => body_yields hsymbols elseBody hd)).imp ?_
    rintro _ _ ⟨hp₃, hs₃, n, _, _, _, _, after, hbranched, rfl⟩
    exact ⟨(hp₁.trans h₂.emitted.progress).trans hp₃, (hs₃.trans h₂.emitted.scopes).trans hs₁,
      iff_of_true hbranched.joinFresh.isOpen rfl⟩
  | .loop cond loopBody, names, d, h => by
    rw [stmt, Stmt.references]
    refine .after (reopen_yields h) ?_
    rintro _ d₁ ⟨hp₁, hs₁, hw₁, -⟩
    refine (loop_yields hw₁ (fun d' hd => expr_yields hsymbols cond hd)
      (fun d' hd => body_yields hsymbols loopBody hd)).imp ?_
    rintro _ _ ⟨hp₂, hs₂, n, _, _, _, _, after, c, hlooped, rfl⟩
    exact ⟨hp₁.trans hp₂, hs₂.trans hs₁, iff_of_true hlooped.exitFresh.isOpen rfl⟩
  | .ret value, names, d, h => by
    rw [stmt, Stmt.references]
    refine .after (reopen_yields h) ?_
    rintro _ d₁ ⟨hp₁, hs₁, hw₁, -⟩
    refine .before (exprOrNull_yields hsymbols value hw₁) fun v d₂ h₂ => ?_
    have hsealed : Sealed symbols d₂ (d₂.on (d₂.cursor.close (.ret v))) :=
      sealed_close h₂.emitted.sound h₂.emitted.isOpen rfl
        (locals_lt (List.forall_mem_singleton.mpr h₂.operand) nofun) (fun t ht => by cases ht)
        (Symbols.binds_of_none rfl rfl)
    refine .of_ok (emit_eq_ok (Emit.apply_ret h₂.emitted.isOpen v)) ?_
    exact ⟨(hp₁.trans h₂.emitted.progress).trans hsealed.progress, h₂.emitted.scopes.trans hs₁,
      iff_of_false (fun hopen => (hsealed.behind _ hopen).2 rfl) (by decide : ¬ true = false)⟩
  | .expr e, names, d, h => by
    rw [stmt, Stmt.references]
    refine .after (reopen_yields h) ?_
    rintro _ d₁ ⟨hp₁, hs₁, hw₁, -⟩
    refine .before (expr_yields hsymbols e hw₁) fun o d₂ h₂ => .pure ?_
    exact ⟨hp₁.trans h₂.emitted.progress, h₂.emitted.scopes.trans hs₁,
      iff_of_true h₂.emitted.isOpen rfl⟩
  | .located location inner, names, d, h => by
    rw [stmt, Stmt.references]
    refine .after (reopen_yields h) ?_
    rintro _ d₁ ⟨hp₁, hs₁, hw₁, -⟩
    refine .step (onCursor_eq_ok (Emit.locate location) d₁) ?_
    have hstand : (d₁.on (d₁.cursor.locate location)).Standing symbols function names :=
      ⟨hw₁.sound.locate location, hw₁.function, hw₁.names⟩
    refine .before (stmt_yields hsymbols inner hstand) fun _ d₂ h₂ => ?_
    refine .step (onCursor_eq_ok (Emit.locate d₁.cursor.location) d₂) (.pure ?_)
    have hdeclares : Declares inner.declared? d₁.scopes d₂.scopes := h₂.declares
    rw [hs₁] at hdeclares
    exact ⟨hp₁.trans (h₂.progress.of_locate.locate _), hdeclares, h₂.isOpen⟩

/-- Statements are lowered exactly when their references are declared. -/
theorem body_yields (hsymbols : symbols.Matches env) : ∀ (ss : List Stmt) {names : List String}
    {d : Draft}, d.Standing symbols function names →
    Yields env function (body symbols ss) d (Stmt.allReferences names ss) fun _ d' =>
      Progress symbols d d'
  | [], names, d, h => .pure (.refl h.sound)
  | s :: rest, names, d, h => by
    rw [body, Stmt.allReferences]
    refine .bind (stmt_yields hsymbols s h) fun _ d₁ h₁ => ?_
    have hstand : d₁.Standing symbols function (s.declared?.toList ++ names) :=
      ⟨h₁.progress.sound, h₁.progress.extend.name.trans h.function, by
        rw [h₁.declares.namesOf_eq, h.names]⟩
    refine (body_yields hsymbols rest hstand).imp fun _ d₂ h₂ => ?_
    exact h₁.progress.trans h₂

end

/-! ## Functions -/

/-- **A function that lowering made**: it passes the check and names only what
symbols denote. -/
structure Lowered (symbols : Symbols) (name : String) (params : List String) (f : Function) :
    Prop where
  name : f.name = name
  params : f.params = params
  check : f.check = .ok ()
  numbered : f.Numbered
  enterable : 0 < f.blocks.size
  bound : ∀ b k i, f.instrAt? b k = some i → symbols.Binds i

/-- The draft that lowering into a function begins with. -/
def start (name : String) (params : List String) (scope : Scope) : Draft :=
  ⟨Cursor.atEntry (Function.empty name params), [scope]⟩

/-- The draft that a function begins with is sound. -/
theorem start_sound (name : String) {params : List String} {scope : Scope}
    (hslots : ∀ entry ∈ scope, entry.2 < params.length) (hdistinct : (scope.map Prod.snd).Nodup) :
    (start name params scope).Sound symbols where
  drafted := Function.drafted_empty name params
  bound b k i hi := by
    obtain ⟨block, id, slot, -, -, hslot, -⟩ := Function.instrAt?_eq_some.mp hi
    cases hslot
  spot := (Function.isOpen_empty name params).lt_size
  slots entry hentry := hslots entry (by simpa [start] using hentry)
  distinct := by simpa [start] using hdistinct
  nonempty := List.cons_ne_nil _ _

/-- The code of a function is that of its body, closed. -/
theorem intoFunction_eq_ok {name : String} {params : List String} {scope : Scope} {x : Lower Unit}
    {code : Function} (h : intoFunction name params scope x = .ok code) :
    ∃ d d', x (start name params scope) = .ok ((), d) ∧ closeBody d = .ok ((), d') ∧
      d'.cursor.function = code := by
  have hrun : intoFunction name params scope x =
      ((do x; closeBody : Lower Unit) (start name params scope) >>= fun p =>
        .ok p.2.cursor.function) := rfl
  rw [hrun, Success.bind_eq_ok] at h
  obtain ⟨⟨_, d'⟩, h, hcode⟩ := h
  rw [run_bind_eq_ok] at h
  obtain ⟨_, d, hx, hclose⟩ := h
  cases hcode
  exact ⟨d, d', hx, hclose, rfl⟩

/-- **Lowering into a function succeeds when lowering its body does**, and the
function then passes the check. -/
theorem intoFunction_spec {name : String} {params : List String} {scope : Scope} {x : Lower Unit}
    {refs : List Reference}
    (hx : Yields env name x (start name params scope) refs fun _ d =>
      Progress symbols (start name params scope) d) :
    Decides (intoFunction name params scope x) (∀ r ∈ refs, r.Declared env)
      (Lowered symbols name params) (Blames env name refs) := by
  have hall : Yields env name (do x; closeBody) (start name params scope) refs fun _ d =>
      Lowered symbols name params d.cursor.function := by
    refine .before hx fun _ d h => (closeBody_yields h.sound).imp ?_
    rintro _ d' ⟨h', -⟩
    have hextends := h.extend.trans h'.extend
    refine ⟨hextends.name, hextends.params, Function.check_of_drafted h'.sound.drafted ?_,
      h'.sound.drafted.numbered, Nat.lt_of_le_of_lt (Nat.zero_le _) h'.sound.spot, h'.sound.bound⟩
    intro b hb
    -- only the entry was there at the start, and that is where the body began
    obtain ⟨hb', hne⟩ := h'.behind b hb
    obtain ⟨hb₀, hne₀⟩ := h.behind b hb' hne
    exact hne₀ (Nat.lt_one_iff.mp hb₀.lt_size)
  have hrun : intoFunction name params scope x =
      ((do x; closeBody : Lower Unit) (start name params scope) >>= fun p =>
        .ok p.2.cursor.function) := rfl
  rw [hrun]
  exact (Decides.bind hall fun _ h => .of_ok rfl h).imp (iff_of_eq (and_true _))
    (fun _ _ h => h) fun _ _ h => h

theorem paramScope_eq (params : List String) : paramScope params = params.zipIdx.reverse := by
  simp [paramScope, List.mapIdx_eq_zipIdx_map]

/-- The parameters are in scope, the latest first. -/
theorem paramScope_names (params : List String) :
    (paramScope params).map Prod.fst = params.reverse := by
  rw [paramScope_eq, List.map_reverse, List.zipIdx_map_fst]

/-- The parameters have the first slots. -/
theorem paramScope_slots {params : List String} : ∀ entry ∈ paramScope params,
    entry.2 < params.length := by
  intro entry hentry
  obtain ⟨k, hk, rfl⟩ := List.mem_mapIdx.mp (List.mem_reverse.mp hentry)
  exact hk

/-- No two parameters share a slot. -/
theorem paramScope_distinct (params : List String) :
    ((paramScope params).map Prod.snd).Nodup := by
  rw [paramScope_eq, List.map_reverse, List.nodup_reverse, List.zipIdx_map_snd]
  exact List.nodup_range'

end Lower

/-- **A function is lowered exactly when it is well scoped**, and the error
otherwise names the first reference that is not declared. -/
theorem FunctionDef.lower_spec {symbols : Symbols} {env : Environment}
    (hsymbols : symbols.Matches env) (f : FunctionDef) :
    Decides (f.lower symbols) (f.Scoped env) (Lower.Lowered symbols f.name f.params)
      (Blames env f.name f.references) := by
  rw [f.scoped_iff]
  refine Lower.intoFunction_spec (Lower.body_yields hsymbols f.body ⟨?_, rfl, ?_⟩)
  · exact Lower.start_sound _ Lower.paramScope_slots (Lower.paramScope_distinct _)
  · simp [Lower.start, namesOf, Lower.paramScope_names]

/-- The initial value of a global is lowered with no local in scope. -/
theorem GlobalDef.lowerInit_yields {symbols : Symbols} {env : Environment} {id function : String}
    {d : Draft} (hsymbols : symbols.Matches env) (g : GlobalDef) (hown : env.global id g.name)
    (h : d.Working symbols function []) :
    Yields env function (GlobalDef.lowerInit symbols id g) d (Expr.optReferences [] g.init)
      fun _ d' => Draft.Progress symbols d d' ∧ d'.Working symbols function [] := by
  unfold GlobalDef.lowerInit
  cases g.init with
  | none => exact .pure ⟨.refl h.sound, h⟩
  | some init =>
    have hw : (d.on (d.cursor.locate g.location)).Working symbols function [] :=
      ⟨⟨h.sound.locate _, h.function, h.names⟩, h.isOpen⟩
    refine .step (Lower.onCursor_eq_ok (Emit.locate g.location) d) ?_
    refine .before (Lower.expr_yields hsymbols init hw) fun v d₁ h₁ => ?_
    have hstore := Lower.assign_yields hsymbols hw h₁ (.global id g.name)
    refine (hstore.resolved (List.forall_mem_singleton.mpr hown)).imp fun _ d₂ h₂ => ?_
    exact ⟨h₂.progress.of_locate, hw.emitted h₂⟩

/-- The initial values of globals are lowered in turn. -/
theorem lowerInits_yields {symbols : Symbols} {env : Environment} {id function : String}
    (hsymbols : symbols.Matches env) : ∀ (globals : List GlobalDef) {d : Draft},
    (∀ g ∈ globals, env.global id g.name) → d.Working symbols function [] →
    Yields env function (globals.forM (GlobalDef.lowerInit symbols id)) d
      (globals.flatMap fun g => Expr.optReferences [] g.init) fun _ d' =>
        Draft.Progress symbols d d'
  | [], d, _, h => .pure (.refl h.sound)
  | g :: rest, d, hown, h => by
    change Yields env function (GlobalDef.lowerInit symbols id g >>= fun _ =>
      rest.forM (GlobalDef.lowerInit symbols id)) d _ _
    rw [List.flatMap_cons]
    refine .bind (GlobalDef.lowerInit_yields hsymbols g (hown g List.mem_cons_self) h) ?_
    rintro _ d₁ ⟨hp₁, hw₁⟩
    refine (lowerInits_yields hsymbols rest (fun g' hg' => hown g' (List.mem_cons_of_mem _ hg'))
      hw₁).imp fun _ d₂ hp₂ => ?_
    exact hp₁.trans hp₂

/-- **The initializer of a module is lowered exactly when its initial values are
well scoped**, and the error otherwise names the first reference that is not
declared. -/
theorem Module.lowerInit_spec {symbols : Symbols} {env : Environment} {id : String}
    (hsymbols : symbols.Matches env) (m : Module) (hown : ∀ g ∈ m.globals, env.global id g.name) :
    Decides (m.lowerInit symbols id) (∀ g ∈ m.globals, Expr.OptScoped env [] g.init)
      (Lower.Lowered symbols initName []) (Blames env initName m.initReferences) := by
  rw [m.initScoped_iff]
  refine Lower.intoFunction_spec (lowerInits_yields hsymbols m.globals hown ?_)
  exact ⟨⟨Lower.start_sound _ nofun List.nodup_nil, rfl, rfl⟩, Function.isOpen_empty _ _⟩

end Source

end BlockIR
