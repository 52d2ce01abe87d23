import BlockIR.Builtin.Standard
import BlockIR.Proofs.Operation
import BlockIR.Proofs.Success
import Mathlib.Data.List.Nodup
/-!
# The standard operations keep their declarations

An operation is `Honest` when, on arguments of its declared kinds, it returns a
value of its declared type or fails for a reason of the program's own. All
standard operations are, so a call through the standard table never reports a
defect. The table itself is there: declarations and implementations go together
name by name.
-/

namespace BlockIR

open Success

/-- **The error is a defect**: of the code that is run, of a builtin operation
or of the table, and not of the program's own making. -/
def RuntimeError.isDefect : RuntimeError → Bool
  | internal _ => true
  | unknownFunction _ => true
  | brokenPromise .. => true
  | linkage _ => true
  | _ => false

/-- **An operation may report the error**: it is no defect, and not about the
calls in progress. -/
def RuntimeError.isReport : RuntimeError → Bool
  | stackOverflow _ => false
  | e => !e.isDefect

/-- What an operation may report is no defect. -/
theorem RuntimeError.isDefect_of_isReport {e : RuntimeError} (h : e.isReport = true) :
    e.isDefect = false := by
  unfold isReport at h
  split at h
  · cases h
  · simpa using h

/-- An effect that fails only for a reason that an operation may report. -/
abbrev Effect.Sound {α : Type} (e : Effect α) (w : World) (good : α → Prop) : Prop :=
  Meets e w (fun a _ => good a) fun err _ => err.isReport = true

/-- **An operation keeps its declaration.** -/
def Entry.Honest (e : Entry) : Prop :=
  ∀ args, args.length = e.signature.arity →
    Table.mismatch? 0 e.signature.params args = none →
    ∀ w, (e.run args).Sound w fun v => e.signature.result.accepts v.kind = true

/-- A call through a table of honest operations reports no defect. -/
theorem Table.call_sound {t : Table} (ht : ∀ e ∈ t.entries, e.Honest) (name : String)
    (args : List Value) (w : World) : (t.call name args).Sound w fun _ => True := by
  unfold Table.call
  cases he : t.entry? name with
  | none => exact Meets.throw rfl
  | some e =>
    have hmem : e ∈ t.entries := List.mem_of_find?_eq_some he
    simp only
    split
    · exact Meets.throw rfl
    · rename_i harity
      cases hkinds : mismatch? 0 e.signature.params args with
      | some found => exact Meets.throw rfl
      | none =>
        refine Meets.bind (ht e hmem args (by simpa using harity) hkinds w) fun v t hv => ?_
        simp only [hv, if_true]
        exact Meets.pure trivial

namespace Builtin

open Name

/-! ## Arguments of declared kinds -/

/-- A value that is accepted as an integer is one. -/
theorem int_of_accepts {v : Value} (h : ParamType.int.accepts v.kind = true) :
    ∃ i, v = .int i := by
  cases v with
  | int i => exact ⟨i, rfl⟩
  | str _ => cases h
  | array _ => cases h
  | null => cases h

/-- A value that is accepted as a text is one. -/
theorem str_of_accepts {v : Value} (h : ParamType.string.accepts v.kind = true) :
    ∃ s, v = .str s := by
  cases v with
  | str s => exact ⟨s, rfl⟩
  | int _ => cases h
  | array _ => cases h
  | null => cases h

/-- A value that is accepted as an array is one. -/
theorem array_of_accepts {v : Value} (h : ParamType.array.accepts v.kind = true) :
    ∃ a, v = .array a := by
  cases v with
  | array a => exact ⟨a, rfl⟩
  | int _ => cases h
  | str _ => cases h
  | null => cases h

/-- An integer is accepted as one. -/
theorem accepts_of_int {v : Value} (h : v.kind = .int) : ParamType.int.accepts v.kind = true := by
  rw [h]
  rfl

/-- An argument that fits is accepted by its parameter. -/
theorem accepts_of_one {t : ParamType} {v : Value} {n : Nat}
    (h : Table.mismatch? n [t] [v] = none) : t.accepts v.kind = true := by
  unfold Table.mismatch? at h
  split at h
  · assumption
  · cases h

/-- Two arguments that fit are accepted by their parameters. -/
theorem accepts_of_two {t u : ParamType} {v w : Value} {n : Nat}
    (h : Table.mismatch? n [t, u] [v, w] = none) :
    t.accepts v.kind = true ∧ u.accepts w.kind = true := by
  unfold Table.mismatch? at h
  split at h
  · exact ⟨by assumption, accepts_of_one h⟩
  · cases h

/-- Arguments that fit one parameter are one value that it accepts. -/
theorem one_of_length {args : List Value} {t : ParamType} (hn : args.length = 1)
    (h : Table.mismatch? 0 [t] args = none) : ∃ v, args = [v] ∧ t.accepts v.kind = true := by
  match args, hn with
  | [v], _ => exact ⟨v, rfl, accepts_of_one h⟩

/-- Arguments that fit two parameters are two values that these accept. -/
theorem two_of_length {args : List Value} {t u : ParamType} (hn : args.length = 2)
    (h : Table.mismatch? 0 [t, u] args = none) :
    ∃ v w, args = [v, w] ∧ t.accepts v.kind = true ∧ u.accepts w.kind = true := by
  match args, hn with
  | [v, w], _ => exact ⟨v, w, rfl, accepts_of_two h⟩

/-! ## The families of operations -/

/-- The declaration of an operation on two integers with an integer result. -/
def onIntsSignature (name : String) : Signature := ⟨name, .int, [.int, .int]⟩

/-- An operation on two integers is honest when it returns integers. -/
theorem honest_onInts {name op : String} {f : Int64 → Int64 → Effect Value}
    (hf : ∀ a b w, (f a b).Sound w fun v => v.kind = .int) :
    Entry.Honest ⟨onIntsSignature name, onInts op f⟩ := by
  intro args hn hkinds w
  obtain ⟨v, v', rfl, hv, hv'⟩ := two_of_length hn hkinds
  obtain ⟨a, rfl⟩ := int_of_accepts hv
  obtain ⟨b, rfl⟩ := int_of_accepts hv'
  exact (hf a b w).imp fun _ _ hr => accepts_of_int hr

/-- Arithmetic is honest. -/
theorem honest_arithmetic (name op : String) (f : Int64 → Int64 → Int64) :
    Entry.Honest ⟨onIntsSignature name, arithmetic op f⟩ :=
  honest_onInts fun _ _ _ => Meets.pure rfl

/-- Comparisons are honest. -/
theorem honest_comparison (name op : String) (f : Int64 → Int64 → Bool) :
    Entry.Honest ⟨onIntsSignature name, comparison op f⟩ :=
  honest_onInts fun _ _ _ => Meets.pure rfl

/-- Division is honest: it reports a divisor of zero. -/
theorem honest_division (name op : String) (f : Int64 → Int64 → Int64) :
    Entry.Honest ⟨onIntsSignature name, division op f⟩ := by
  refine honest_onInts fun a b w => ?_
  split
  · exact Meets.throw rfl
  · exact Meets.pure rfl

/-- Equality is honest for values of all kinds. -/
theorem honest_equality (name op : String) (f : Bool → Bool) :
    Entry.Honest ⟨⟨name, .int, [.any, .any]⟩, equality op f⟩ := by
  intro args hn hkinds w
  obtain ⟨v, v', rfl, -, -⟩ := two_of_length hn hkinds
  exact Meets.pure rfl

/-- An operation on a text is honest when it returns integers. -/
theorem honest_onText {name op : String} {f : String → Effect Value}
    (hf : ∀ s w, (f s).Sound w fun v => v.kind = .int) :
    Entry.Honest ⟨⟨name, .int, [.string]⟩, onText op f⟩ := by
  intro args hn hkinds w
  obtain ⟨v, rfl, hv⟩ := one_of_length hn hkinds
  obtain ⟨s, rfl⟩ := str_of_accepts hv
  exact (hf s w).imp fun _ _ hr => accepts_of_int hr

/-! ## The single operations -/

/-- Concatenation is honest. -/
theorem honest_concatenate (name : String) :
    Entry.Honest ⟨⟨name, .string, [.string, .string]⟩, concatenate⟩ := by
  intro args hn hkinds w
  obtain ⟨v, v', rfl, hv, hv'⟩ := two_of_length hn hkinds
  obtain ⟨s, rfl⟩ := str_of_accepts hv
  obtain ⟨s', rfl⟩ := str_of_accepts hv'
  exact Meets.pure rfl

/-- Reading a number from a text is honest: it reports a text that holds none. -/
theorem honest_textToInt (name : String) :
    Entry.Honest ⟨⟨name, .int, [.string]⟩, textToInt⟩ := by
  refine honest_onText fun s w => ?_
  cases Decimal.canonicalInt64? s with
  | none => exact Meets.throw rfl
  | some i => exact Meets.pure rfl

/-- Asking whether a text is a number is honest. -/
theorem honest_isIntText (name : String) :
    Entry.Honest ⟨⟨name, .int, [.string]⟩, isIntText⟩ :=
  honest_onText fun _ _ => Meets.pure rfl

/-- Writing a number as text is honest. -/
theorem honest_intToText (name : String) :
    Entry.Honest ⟨⟨name, .string, [.int]⟩, intToText⟩ := by
  intro args hn hkinds w
  obtain ⟨v, rfl, hv⟩ := one_of_length hn hkinds
  obtain ⟨i, rfl⟩ := int_of_accepts hv
  exact Meets.pure rfl

/-- Printing fails only with a report. -/
theorem printLine_sound (op text : String) (w : World) :
    (Effect.printLine op text).Sound w fun _ => True := by
  have hrun : (Effect.printLine op text).apply w =
      ((w.console.printLine text).1.mapError (.io op),
        ⟨w.heap, (w.console.printLine text).2, w.clock⟩) := rfl
  cases hresult : (w.console.printLine text).1 with
  | error fault =>
    rw [hresult] at hrun
    exact Meets.of_error hrun rfl
  | ok _ =>
    rw [hresult] at hrun
    exact Meets.of_ok hrun trivial

/-- Reading a line fails only with a report. -/
theorem readLine_sound (op : String) (w : World) :
    (Effect.readLine op).Sound w fun _ => True := by
  obtain ⟨heap, console, clock⟩ := w
  unfold Effect.Sound Meets Effect.readLine
  simp only [Transform.apply, ExceptT.run_mk, StateT.run]
  rcases console.readLine with ⟨fault | line | line, console'⟩
  · exact rfl
  · exact rfl
  · trivial

/-- Printing a value is honest. -/
theorem honest_printValue (name : String) :
    Entry.Honest ⟨⟨name, .any, [.any]⟩, printValue⟩ := by
  intro args hn hkinds w
  obtain ⟨v, rfl, -⟩ := one_of_length hn hkinds
  refine Meets.bind Meets.get fun w' t _ => ?_
  exact Meets.bind (printLine_sound _ _ t) fun _ _ _ => Meets.pure rfl

/-- Reading a line is honest. -/
theorem honest_readText (name : String) : Entry.Honest ⟨⟨name, .string, []⟩, readText⟩ := by
  intro args hn hkinds w
  exact Meets.bind (readLine_sound _ w) fun _ _ _ => Meets.pure rfl

/-- The length of an array is honest. -/
theorem honest_lengthOf (name : String) :
    Entry.Honest ⟨⟨name, .int, [.array]⟩, lengthOf⟩ := by
  intro args hn hkinds w
  obtain ⟨v, rfl, hv⟩ := one_of_length hn hkinds
  obtain ⟨a, rfl⟩ := array_of_accepts hv
  exact Meets.bind Meets.get fun _ _ _ => Meets.pure rfl

/-- Reading the clock is honest: it reports a clock before its epoch. -/
theorem honest_now (name : String) : Entry.Honest ⟨⟨name, .int, []⟩, now⟩ := by
  intro args hn hkinds w
  refine Meets.bind Meets.lift fun reading _ _ => ?_
  cases reading with
  | ofNat n => exact Meets.pure rfl
  | negSucc n => exact Meets.throw rfl

/-! ## The catalogue -/

/-- Every standard implementation keeps the declaration under its name. -/
theorem exists_honest : ∀ p ∈ primitives,
    ∃ d ∈ signatures, d.name = p.1 ∧ Entry.Honest ⟨d, p.2⟩ := by
  simp only [primitives, List.forall_mem_cons]
  refine ⟨⟨_, ?_, rfl, honest_arithmetic _ _ _⟩, ⟨_, ?_, rfl, honest_arithmetic _ _ _⟩,
    ⟨_, ?_, rfl, honest_arithmetic _ _ _⟩, ⟨_, ?_, rfl, honest_division _ _ _⟩,
    ⟨_, ?_, rfl, honest_division _ _ _⟩, ⟨_, ?_, rfl, honest_equality _ _ _⟩,
    ⟨_, ?_, rfl, honest_equality _ _ _⟩, ⟨_, ?_, rfl, honest_comparison _ _ _⟩,
    ⟨_, ?_, rfl, honest_comparison _ _ _⟩, ⟨_, ?_, rfl, honest_comparison _ _ _⟩,
    ⟨_, ?_, rfl, honest_comparison _ _ _⟩, ⟨_, ?_, rfl, honest_comparison _ _ _⟩,
    ⟨_, ?_, rfl, honest_comparison _ _ _⟩, ⟨_, ?_, rfl, honest_concatenate _⟩,
    ⟨_, ?_, rfl, honest_textToInt _⟩, ⟨_, ?_, rfl, honest_isIntText _⟩,
    ⟨_, ?_, rfl, honest_intToText _⟩, ⟨_, ?_, rfl, honest_printValue _⟩,
    ⟨_, ?_, rfl, honest_readText _⟩, ⟨_, ?_, rfl, honest_lengthOf _⟩,
    ⟨_, ?_, rfl, honest_now _⟩, fun p hp => absurd hp List.not_mem_nil⟩ <;> decide

/-- No two standard operations have one name. -/
theorem signature_names_nodup : (signatures.map (·.name)).Nodup := by decide

/-- **Every standard operation keeps its declaration**: a name has one
declaration, so it is the one the implementation keeps. -/
theorem honest_of_mem {d : Signature} {run : Primitive} (hd : d ∈ signatures)
    (hrun : (d.name, run) ∈ primitives) : Entry.Honest ⟨d, run⟩ := by
  obtain ⟨e, he, hname, honest⟩ := exists_honest _ hrun
  have heq : e = d := List.inj_on_of_nodup_map signature_names_nodup he hd hname
  rw [heq] at honest
  exact honest

end Builtin

namespace Registry

/-! ## The standard table -/

/-- Declarations under new, different names all succeed. -/
theorem apply_declareAll : ∀ (ds : List Signature) (r : Registry),
    (r.signatures.map (·.name) ++ ds.map (·.name)).Nodup →
    (declareAll ds).apply r = (.ok (), { r with signatures := r.signatures ++ ds }) := by
  intro ds
  induction ds with
  | nil =>
    intro r _
    rw [List.append_nil]
    rfl
  | cons d rest ih =>
    intro r hnodup
    have hnew : r.signatures.any (fun t => t.name == d.name) = false := by
      rw [List.any_eq_false]
      intro t ht hname
      rw [List.map_cons] at hnodup
      exact List.disjoint_of_nodup_append hnodup (List.mem_map_of_mem ht)
        (by rw [beq_iff_eq.mp hname]; exact List.mem_cons_self)
    have hdeclare : (declare d).apply r =
        (.ok (), { r with signatures := r.signatures ++ [d] }) := by
      unfold declare
      rw [Transform.apply_bind_ok (Transform.apply_get r), hnew]
      rfl
    have hrest := ih { r with signatures := r.signatures ++ [d] } (by
      simpa [List.append_assoc] using hnodup)
    rw [List.append_assoc] at hrest
    exact (Transform.apply_bind_ok hdeclare).trans hrest

/-- Implement operations in order. -/
def implementAll (ps : List (String × Primitive)) : StateM Registry Unit :=
  ps.forM fun p => implement p.1 p.2

/-- Implementing operations declares none, makes every name among them
implemented, and brings in no implementation but theirs. -/
theorem run_implementAll : ∀ (ps : List (String × Primitive)) (r : Registry),
    ((implementAll ps).run r).2.signatures = r.signatures ∧
    (∀ p ∈ ((implementAll ps).run r).2.primitives, p ∈ ps ∨ p ∈ r.primitives) ∧
    ∀ name, name ∈ ps.map (·.1) ∨ name ∈ r.primitives.map (·.1) →
      name ∈ ((implementAll ps).run r).2.primitives.map (·.1) := by
  intro ps
  induction ps with
  | nil =>
    intro r
    exact ⟨rfl, fun p hp => .inr hp, fun name h => h.resolve_left List.not_mem_nil⟩
  | cons p rest ih =>
    intro r
    obtain ⟨hsig, hfrom, hall⟩ := ih ((implement p.1 p.2).run r).2
    refine ⟨hsig, fun q hq => ?_, fun name hname => ?_⟩
    · rcases hfrom q hq with hq | hq
      · exact .inl (List.mem_cons_of_mem _ hq)
      · rcases List.mem_cons.mp hq with rfl | hq
        · exact .inl List.mem_cons_self
        · exact .inr (List.mem_filter.mp hq).1
    · refine hall name ?_
      -- an implementation replaces an earlier one of its name, and none of another
      by_cases hp : name = p.1
      · exact .inr (by rw [hp]; exact List.mem_cons_self)
      · rcases hname with hname | hname
        · exact .inl ((List.mem_cons.mp hname).resolve_left hp)
        · obtain ⟨q, hq, rfl⟩ := List.mem_map.mp hname
          refine .inr (List.mem_map_of_mem (List.mem_cons_of_mem _ (List.mem_filter.mpr ⟨hq, ?_⟩)))
          simpa using hp

/-- An implementation is found under each of the names. -/
theorem primitive?_isSome {r : Registry} {name : String} (h : name ∈ r.primitives.map (·.1)) :
    (r.primitive? name).isSome = true := by
  obtain ⟨p, hp, rfl⟩ := List.mem_map.mp h
  cases hnone : r.primitive? p.1 with
  | some run => rfl
  | none =>
    exact absurd (List.lookup_eq_none_iff.mp hnone p hp) (by simp)

/-- What is found is one of the implementations. -/
theorem mem_of_primitive? {r : Registry} {name : String} {run : Primitive}
    (h : r.primitive? name = some run) : (name, run) ∈ r.primitives := by
  obtain ⟨before, after, hsplit, -⟩ := List.lookup_eq_some_iff.mp h
  rw [hsplit]
  simp

end Registry

/-- The registry that the standard table is linked from. -/
def Registry.standard : Registry :=
  (Registry.addStandard.apply {}).2

namespace Registry

/-- The standard declarations succeed, and the implementations follow. -/
theorem apply_addStandard :
    addStandard.apply {} =
      (.ok (), ((implementAll Builtin.primitives).run { signatures := Builtin.signatures }).2) :=
  Transform.apply_bind_ok
    (apply_declareAll Builtin.signatures {} Builtin.signature_names_nodup)

/-- The standard registry is that of the signatures with all implementations. -/
theorem standard_eq :
    standard = ((implementAll Builtin.primitives).run { signatures := Builtin.signatures }).2 := by
  rw [standard, apply_addStandard]

/-- The standard registry has the standard signatures. -/
theorem signatures_standard : standard.signatures = Builtin.signatures := by
  rw [standard_eq]
  exact (run_implementAll Builtin.primitives _).1

/-- The standard registry has no other implementations than the standard ones. -/
theorem mem_primitives_standard {p : String × Primitive} (h : p ∈ standard.primitives) :
    p ∈ Builtin.primitives := by
  rw [standard_eq] at h
  exact ((run_implementAll Builtin.primitives _).2.1 p h).resolve_right List.not_mem_nil

/-- The standard registry has every standard implementation. -/
theorem primitive?_standard {name : String} (h : name ∈ Builtin.primitives.map (·.1)) :
    (standard.primitive? name).isSome = true := by
  rw [standard_eq]
  exact primitive?_isSome ((run_implementAll Builtin.primitives _).2.2 name (.inl h))

/-- **No standard operation lacks its implementation.** -/
theorem missing_standard : standard.missing = [] := by
  have hnames : ∀ d ∈ Builtin.signatures, d.name ∈ Builtin.primitives.map (·.1) := by decide
  rw [missing, signatures_standard, List.map_eq_nil_iff, List.filter_eq_nil_iff]
  intro d hd hnone
  have := primitive?_standard (hnames d hd)
  rw [Option.isNone_iff_eq_none.mp hnone] at this
  cases this

/-- **No standard implementation lacks its signature.** -/
theorem undeclared_standard : standard.undeclared = [] := by
  rw [undeclared, signatures_standard, List.filter_eq_nil_iff]
  intro name hname
  obtain ⟨p, hp, rfl⟩ := List.mem_map.mp hname
  obtain ⟨d, hd, heq, -⟩ := Builtin.exists_honest p (mem_primitives_standard hp)
  have hany : Builtin.signatures.any (fun s => s.name == p.1) = true :=
    List.any_eq_true.mpr ⟨d, hd, beq_iff_eq.mpr heq⟩
  simp [hany]

end Registry

/-- The standard table has one entry for each standard declaration. -/
theorem Table.standard_eq : Table.standard = .ok ⟨Builtin.signatures.filterMap fun d =>
    (Registry.standard.primitive? d.name).map fun run => ⟨d, run⟩⟩ := by
  unfold Table.standard
  rw [Registry.apply_addStandard, ← Registry.standard_eq]
  simp only [Registry.link, Registry.missing_standard, Registry.undeclared_standard,
    List.isEmpty_nil, Bool.and_self, if_true, Registry.signatures_standard]

/-- An entry of the standard table joins a standard declaration and the standard
implementation under its name. -/
theorem Table.mem_standard {t : Table} {e : Entry} (ht : Table.standard = .ok t)
    (he : e ∈ t.entries) :
    e.signature ∈ Builtin.signatures ∧ (e.signature.name, e.run) ∈ Builtin.primitives := by
  rw [Table.standard_eq] at ht
  cases ht
  obtain ⟨d, hd, hentry⟩ := List.mem_filterMap.mp he
  obtain ⟨run, hrun, rfl⟩ := Option.map_eq_some_iff.mp hentry
  exact ⟨hd, Registry.mem_primitives_standard (Registry.mem_of_primitive? hrun)⟩

/-- **The standard table is there, and all its operations are honest.** -/
theorem Table.exists_standard :
    ∃ t, Table.standard = .ok t ∧ ∀ e ∈ t.entries, e.Honest := by
  refine ⟨_, Table.standard_eq, fun e he => ?_⟩
  obtain ⟨hd, hrun⟩ := Table.mem_standard Table.standard_eq he
  exact Builtin.honest_of_mem hd hrun

end BlockIR
