import BlockIR.Proofs.Source.Draft
import BlockIR.Proofs.Source.Scoping
/-!
# When a step of lowering succeeds, and what it leaves

`Yields x d refs post` says of a step of lowering that it resolves the references
`refs` in turn: it succeeds exactly when all of them are declared, and then
leaves what `post` says, and otherwise it reports the first that is not. It
composes along sequences, so the success of a whole body is read off its parts.
The rest of the file says what the small steps of lowering do.
-/

namespace BlockIR

open Success

namespace Source

section

variable {env : Environment} {function : String} {refs refs' : List Reference}
variable {r : Reference} {e : LoweringError}

/-- A reference by itself is at fault if it is not declared. -/
theorem blames_singleton (h : ¬ r.Declared env) : Blames env function [r] (r.error function) :=
  ⟨[], r, [], rfl, by simp, h, rfl⟩

/-- What follows the reference at fault does not matter. -/
theorem Blames.append_right (h : Blames env function refs e) (refs' : List Reference) :
    Blames env function (refs ++ refs') e := by
  obtain ⟨before, r, after, rfl, hbefore, hr, he⟩ := h
  exact ⟨before, r, after ++ refs', by simp, hbefore, hr, he⟩

/-- References that are declared do not matter before the one at fault. -/
theorem Blames.append_left (hrefs : ∀ r ∈ refs, r.Declared env)
    (h : Blames env function refs' e) : Blames env function (refs ++ refs') e := by
  obtain ⟨before, r, after, rfl, hbefore, hr, he⟩ := h
  exact ⟨refs ++ before, r, after, by simp, List.forall_mem_append.mpr ⟨hrefs, hbefore⟩, hr, he⟩

end

/-- **A step of lowering resolves some references**: it succeeds exactly when all
are declared, and then leaves what is promised. -/
def Yields {α : Type} (env : Environment) (function : String) (x : Lower α) (d : Draft)
    (refs : List Reference) (post : α → Draft → Prop) : Prop :=
  Decides (x d) (∀ r ∈ refs, r.Declared env) (fun result => post result.1 result.2)
    (Blames env function refs)

namespace Yields

variable {α β : Type} {env : Environment} {function : String} {d d' : Draft}
variable {x : Lower α} {f : α → Lower β} {refs refs' : List Reference} {r : Reference}
variable {post post' : α → Draft → Prop} {last : β → Draft → Prop}

/-- A step that refers to nothing and succeeds. -/
theorem of_ok {a : α} (h : x d = .ok (a, d')) (hpost : post a d') :
    Yields env function x d [] post := by
  unfold Yields
  rw [h]
  exact ⟨by simp, hpost⟩

/-- A step that resolves one reference, and finds it. -/
theorem found {a : α} (hr : r.Declared env) (h : x d = .ok (a, d')) (hpost : post a d') :
    Yields env function x d [r] post := by
  unfold Yields
  rw [h]
  exact ⟨List.forall_mem_singleton.mpr hr, hpost⟩

/-- A step that resolves one reference, and does not find it. -/
theorem missed (hr : ¬ r.Declared env) (h : x d = .error (r.error function)) :
    Yields env function x d [r] post :=
  Decides.of_error h (fun hall => hr (hall r List.mem_cons_self)) (blames_singleton hr)

theorem pure {a : α} (hpost : post a d) : Yields env function (pure a) d [] post :=
  of_ok rfl hpost

/-- What is promised may be weakened. -/
theorem imp (hx : Yields env function x d refs post)
    (hpost : ∀ a d', post a d' → post' a d') : Yields env function x d refs post' :=
  Decides.imp hx Iff.rfl (fun r _ h => hpost r.1 r.2 h) fun _ _ h => h

/-- References that are known to be declared need no mention. -/
theorem resolved (hx : Yields env function x d refs post) (hrefs : ∀ r ∈ refs, r.Declared env) :
    Yields env function x d [] post :=
  Decides.imp hx (iff_of_true hrefs (by simp)) (fun _ _ h => h) fun _ hfits =>
    absurd hrefs hfits

/-- A success shows that the references are declared, and what was promised. -/
theorem of_eq_ok {a : α} (hx : Yields env function x d refs post) (h : x d = .ok (a, d')) :
    (∀ r ∈ refs, r.Declared env) ∧ post a d' := by
  have hboth := Decides.of_eq_ok hx h
  exact hboth

/-- What a step leaves is what it came to. -/
theorem traced (hx : Yields env function x d refs post) :
    Yields env function x d refs fun a d' => x d = .ok (a, d') ∧ post a d' :=
  Decides.traced hx

/-- **A sequence resolves the references of both parts**, those of the first before
those of the second. -/
theorem bind (hx : Yields env function x d refs post)
    (hf : ∀ a d', post a d' → Yields env function (f a) d' refs' last) :
    Yields env function (x >>= f) d (refs ++ refs') last := by
  have hfirst : Decides (x d) (∀ r ∈ refs, r.Declared env)
      (fun result => (∀ r ∈ refs, r.Declared env) ∧ post result.1 result.2)
      (Blames env function (refs ++ refs')) :=
    Decides.imp hx Iff.rfl (fun _ hrefs h => ⟨hrefs, h⟩) fun _ _ he => he.append_right refs'
  unfold Yields
  rw [List.forall_mem_append]
  refine Decides.bind hfirst fun result hresult => ?_
  exact Decides.imp (hf result.1 result.2 hresult.2) Iff.rfl (fun _ _ h => h) fun _ _ he =>
    .append_left hresult.1 he

/-- A first part that refers to nothing. -/
theorem after (hx : Yields env function x d [] post)
    (hf : ∀ a d', post a d' → Yields env function (f a) d' refs' last) :
    Yields env function (x >>= f) d refs' last :=
  bind hx hf

/-- A first part that is known to succeed. -/
theorem step {a : α} (h : x d = .ok (a, d')) (hf : Yields env function (f a) d' refs last) :
    Yields env function (x >>= f) d refs last := by
  have hrun : (x >>= f) d = (x d >>= fun p => f p.1 p.2) := rfl
  unfold Yields at hf ⊢
  rw [hrun, h]
  exact hf

/-- A second part that refers to nothing. -/
theorem before (hx : Yields env function x d refs post)
    (hf : ∀ a d', post a d' → Yields env function (f a) d' [] last) :
    Yields env function (x >>= f) d refs last := by
  have hboth := bind hx hf
  rwa [List.append_nil] at hboth

end Yields

/-! ## The steps of lowering -/

/-- What a call runs, by the symbols. -/
def Symbols.Denotes (symbols : Symbols) : Target → Callee → Prop
  | .function module name, .function ref => symbols.functions.lookup (module, name) = some ref
  | .builtin name, .builtin name' => name' = name
  | _, _ => False

/-- **The symbols hold the names of an environment** and no others. -/
structure Symbols.Matches (symbols : Symbols) (env : Environment) : Prop where
  function : ∀ module name,
    env.function module name ↔ (symbols.functions.lookup (module, name)).isSome = true
  global : ∀ module name,
    env.global module name ↔ (symbols.globals.lookup (module, name)).isSome = true

namespace Lower

variable {α : Type} {symbols : Symbols} {env : Environment} {function : String} {d d' : Draft}

/-- An emission that succeeds at the cursor succeeds here, and leaves the scopes. -/
theorem emit_eq_ok {e : Emit α} {a : α} {c : Cursor} (h : e.apply d.cursor = (.ok a, c)) :
    emit e d = .ok (a, d.on c) := by
  obtain ⟨cursor, scopes⟩ := d
  simp only [emit, h]
  rfl

/-- Code is emitted where its emission at the cursor succeeds. -/
theorem apply_of_emit {e : Emit α} {a : α} (h : emit e d = .ok (a, d')) :
    e.apply d.cursor = (.ok a, d'.cursor) := by
  obtain ⟨cursor, scopes⟩ := d
  rcases happly : e.apply cursor with ⟨err | a', c⟩
  · simp only [emit, happly] at h
    cases h
  · simp only [emit, happly] at h
    cases h
    rfl

theorem onCursor_eq_ok (x : StateM Cursor α) (d : Draft) :
    onCursor x d = .ok ((x.run d.cursor).1, d.on (x.run d.cursor).2) := rfl

theorem moveTo_eq_ok (b : BlockId) (d : Draft) :
    moveTo b d = .ok ((), d.on (d.cursor.moveTo b)) := rfl

/-- A new block gets the next number. -/
theorem newBlock_eq_ok (name : String) (d : Draft) :
    newBlock name d =
      .ok (d.cursor.function.blocks.size, d.on (d.cursor.extend name)) := rfl

theorem isClosed_eq_ok (d : Draft) : isClosed d = .ok (d.cursor.isClosed, d) := rfl

/-- Lowering goes on in a block that is not closed. -/
theorem reopen_eq_ok (hopen : d.cursor.isClosed = false) : reopen d = .ok ((), d) := by
  change (if d.cursor.isClosed = true then _ else _ : Lower Unit) d = _
  rw [hopen]
  rfl

theorem isClosed_of_isOpen (hopen : d.IsOpen) : d.cursor.isClosed = false := by
  simp [Cursor.isClosed, hopen.terminator?]

theorem mem_of_lookup {κ β : Type} [BEq κ] [LawfulBEq κ] {entries : List (κ × β)} {key : κ} {b : β}
    (h : entries.lookup key = some b) : (key, b) ∈ entries := by
  obtain ⟨before, after, rfl, -⟩ := List.lookup_eq_some_iff.mp h
  simp

/-- The slot of a name is one that a scope gives it. -/
theorem mem_of_findSome?_lookup {scopes : List Scope} {name : String} {l : LocalId}
    (h : scopes.findSome? (List.lookup name) = some l) : (name, l) ∈ scopes.flatten := by
  obtain ⟨scope, hscope, hl⟩ := List.exists_of_findSome?_eq_some h
  exact List.mem_flatten.mpr ⟨scope, hscope, mem_of_lookup hl⟩

/-- A name is not found when it is in no scope. -/
theorem findSome?_lookup_eq_none {scopes : List Scope} {name : String} :
    scopes.findSome? (List.lookup name) = none ↔ name ∉ namesOf scopes := by
  simp only [List.findSome?_eq_none_iff, List.lookup_eq_none_iff, namesOf, List.mem_map,
    List.mem_flatten, not_exists, not_and, bne_iff_ne, ne_eq]
  constructor
  · rintro h entry ⟨scope, hscope, hentry⟩ rfl
    exact h scope hscope entry hentry rfl
  · rintro h scope hscope entry hentry rfl
    exact h entry ⟨scope, hscope, hentry⟩ rfl

/-- A name is found in the innermost scope that has it, or reported. -/
theorem lookup_eq (name : String) (d : Draft) :
    lookup name d = match d.scopes.findSome? (List.lookup name) with
      | some l => .ok (l, d)
      | none => .error (.unknownLocal d.cursor.function.name name) := by
  change (match d.scopes.findSome? (List.lookup name) with
    | some l => pure l
    | none => throw (.unknownLocal d.cursor.function.name name) : Lower LocalId) d = _
  cases d.scopes.findSome? (List.lookup name) <;> rfl

/-- Looking a name up leaves the draft, and gives what the scopes have. -/
theorem of_lookup_eq_ok {name : String} {l : LocalId} (h : lookup name d = .ok (l, d')) :
    d' = d ∧ d.scopes.findSome? (List.lookup name) = some l := by
  rw [lookup_eq] at h
  cases hl : d.scopes.findSome? (List.lookup name) with
  | none =>
    rw [hl] at h
    cases h
  | some l' =>
    rw [hl] at h
    cases h
    exact ⟨rfl, rfl⟩

/-- **A local is found when its name is in scope.** -/
theorem lookup_yields (h : d.Sound symbols) (hname : d.cursor.function.name = function)
    (name : String) :
    Yields env function (lookup name) d [.named name (namesOf d.scopes)] fun l d' =>
      d' = d ∧ l < d.cursor.function.numLocals ∧
        d.scopes.findSome? (List.lookup name) = some l := by
  have hlookup := lookup_eq name d
  cases hl : d.scopes.findSome? (List.lookup name) with
  | none =>
    rw [hl, hname] at hlookup
    exact .missed (findSome?_lookup_eq_none.mp hl) hlookup
  | some l =>
    rw [hl] at hlookup
    have hmem := mem_of_findSome?_lookup hl
    exact .found (List.mem_map.mpr ⟨(name, l), hmem, rfl⟩) hlookup ⟨rfl, h.slots _ hmem, rfl⟩

/-- A global is found when it is declared. -/
theorem global_yields (hsymbols : symbols.Matches env) (module name : String) :
    Yields env function (symbols.global module name : Lower GlobalId) d [.global module name]
      fun g d' => d' = d ∧ symbols.globals.lookup (module, name) = some g := by
  change Yields env function (liftM (symbols.global module name)) d _ _
  unfold Symbols.global
  cases hg : symbols.globals.lookup (module, name) with
  | none =>
    have hnot : ¬ env.global module name := by
      rw [hsymbols.global, hg]
      exact Bool.false_ne_true
    exact .missed hnot rfl
  | some g =>
    have hdeclared : env.global module name := by
      rw [hsymbols.global, hg]
      rfl
    exact .found hdeclared rfl ⟨rfl, rfl⟩

/-- What a call runs is found when it is declared. -/
theorem callee_yields (hsymbols : symbols.Matches env) (target : Target) :
    Yields env function (callee symbols target : Lower Callee) d target.reference?.toList
      fun callee d' => d' = d ∧ symbols.Denotes target callee := by
  change Yields env function (liftM (callee symbols target)) d _ _
  cases target with
  | builtin name => exact .of_ok rfl ⟨rfl, rfl⟩
  | function module name =>
    rw [callee, Symbols.function]
    cases hf : symbols.functions.lookup (module, name) with
    | none =>
      have hnot : ¬ env.function module name := by
        rw [hsymbols.function, hf]
        exact Bool.false_ne_true
      exact .missed hnot rfl
    | some ref =>
      have hdeclared : env.function module name := by
        rw [hsymbols.function, hf]
        rfl
      exact .found hdeclared rfl ⟨rfl, hf⟩

end Lower

end Source

end BlockIR
