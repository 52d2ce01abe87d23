import BlockIR.Proofs.Builtin.Standard
import Mathlib.Data.List.Induction
import Mathlib.Data.List.Nodup
import Mathlib.Data.String.Basic
/-!
# What a history of a registry links to

A registry has two tables that change on their own: of declarations the first
under a name counts, of implementations the last. A history is the acts on a
registry in order, whether they succeed or fail. Two readings of a history are
made without the registry: what an act declares, given the names that are taken
(`Act.declares`), and its last word on the implementation under a name
(`lastWord`). Linking succeeds when the names of the two readings are the same,
and otherwise reports the whole difference, in both directions.
-/

namespace BlockIR

namespace Registry

/-- **An act on a registry.** -/
inductive Act where
  | declare (s : Signature)
  | declareAll (signatures : List Signature)
  | implement (name : String) (run : Primitive)
  | implementStandard
  | withdraw (name : String)

/-- The registry that an act leaves behind, also when it fails. -/
def Act.leave : Act → Registry → Registry
  | .declare s, r => ((Registry.declare s).apply r).2
  | .declareAll signatures, r => ((Registry.declareAll signatures).apply r).2
  | .implement name run, r => ((Registry.implement name run).run r).2
  | .implementStandard, r => (Registry.implementStandard.run r).2
  | .withdraw name, r => ((Registry.withdraw name).run r).2

/-- **The registry after a history**, of which the earliest act comes first. -/
def after (history : List Act) : Registry :=
  history.foldl (fun r act => act.leave r) {}

/-- The declared names, in declaration order. -/
def names (r : Registry) : List String :=
  r.signatures.map (·.name)

/-! ## Readings of a history -/

/-- The declarations of a batch up to the first whose name is taken. -/
def untaken (taken : List String) : List Signature → List Signature
  | [] => []
  | s :: rest => if s.name ∈ taken then [] else s :: untaken (taken ++ [s.name]) rest

/-- **What an act declares**, given the names that are taken. -/
def Act.declares (taken : List String) : Act → List Signature
  | .declare s => untaken taken [s]
  | .declareAll signatures => untaken taken signatures
  | .implement _ _ | .implementStandard | .withdraw _ => []

/-- What an act says about the implementation under a name: nothing, or which
there is from then on, if any. -/
def Act.word? (name : String) : Act → Option (Option Primitive)
  | .implement name' run => if name = name' then some (some run) else none
  | .withdraw name' => if name = name' then some none else none
  | .implementStandard => (Builtin.primitives.lookup name).map some
  | .declare _ | .declareAll _ => none

/-- **The last word of a history** on the implementation under a name. There is
none if the name was never implemented, or was withdrawn after it was. -/
def lastWord (history : List Act) (name : String) : Option Primitive :=
  (history.reverse.findSome? (Act.word? name)).join

variable {r : Registry} {name : String} {run : Primitive} {history : List Act}

/-- One act more is carried out last. -/
theorem after_concat (history : List Act) (act : Act) :
    after (history ++ [act]) = act.leave (after history) := by
  rw [after, List.foldl_append]
  rfl

/-- One act more has the last word on the names that it speaks of. -/
theorem lastWord_concat (history : List Act) (act : Act) (name : String) :
    lastWord (history ++ [act]) name = (act.word? name).getD (lastWord history name) := by
  rw [lastWord, List.reverse_concat, List.findSome?_cons]
  cases act.word? name with
  | none => rfl
  | some word => rfl

/-! ## Declarations -/

/-- A signature is declared unless there is one of its name. -/
theorem apply_declare (s : Signature) (r : Registry) :
    (declare s).apply r =
      if s.name ∈ r.names then (.error (.duplicateDeclaration s.name), r)
      else (.ok (), { r with signatures := r.signatures ++ [s] }) := by
  have htaken : r.signatures.any (fun t => t.name == s.name) = decide (s.name ∈ r.names) := by
    rw [Bool.eq_iff_iff]
    simp [names]
  unfold declare
  rw [Transform.apply_bind_ok (Transform.apply_get r), htaken]
  by_cases h : s.name ∈ r.names
  · simp only [h, decide_true, if_true]
    rfl
  · simp only [h, decide_false, Bool.false_eq_true, if_false]
    rfl

/-- A batch is declared up to the first name that is taken, by an earlier
declaration or in the batch itself. -/
theorem leave_declareAll (signatures : List Signature) (r : Registry) :
    (Act.declareAll signatures).leave r =
      { r with signatures := r.signatures ++ untaken r.names signatures } := by
  induction signatures generalizing r with
  | nil =>
    rw [untaken, List.append_nil]
    rfl
  | cons s rest ih =>
    rw [Act.leave, declareAll, List.forM_eq_forM, List.forM_cons, Transform.apply_bind,
      apply_declare, untaken]
    by_cases h : s.name ∈ r.names
    · simp only [h, if_true, List.append_nil]
    · simp only [h, if_false]
      refine (ih { r with signatures := r.signatures ++ [s] }).trans ?_
      simp [names]

/-- Declaring one signature is declaring a list of one. -/
theorem leave_declare (s : Signature) (r : Registry) :
    (Act.declare s).leave r = (Act.declareAll [s]).leave r := by
  rw [Act.leave, Act.leave, declareAll, List.forM_eq_forM, List.forM_cons, Transform.apply_bind]
  rcases (declare s).apply r with ⟨e | _, r'⟩
  · rfl
  · rfl

/-- **An act adds what it declares to the declarations**, and changes no other. -/
theorem signatures_leave (act : Act) (r : Registry) :
    (act.leave r).signatures = r.signatures ++ act.declares r.names := by
  cases act with
  | declare s => rw [leave_declare, leave_declareAll, Act.declares]
  | declareAll signatures => rw [leave_declareAll, Act.declares]
  | implement name run => exact (List.append_nil _).symm
  | implementStandard =>
    exact (run_implementAll Builtin.primitives r).1.trans (List.append_nil _).symm
  | withdraw name => exact (List.append_nil _).symm

/-- Names declared in a batch are new, and differ from each other. -/
theorem nodup_append_untaken {taken : List String} (h : taken.Nodup)
    (signatures : List Signature) :
    (taken ++ (untaken taken signatures).map (·.name)).Nodup := by
  induction signatures generalizing taken with
  | nil => simpa [untaken] using h
  | cons s rest ih =>
    rw [untaken]
    split
    · simpa using h
    · rename_i hnew
      have htaken : (taken ++ [s.name]).Nodup := by
        rw [← List.concat_eq_append]
        exact h.concat hnew
      simpa using ih htaken

/-- An act declares no name twice. -/
theorem nodup_names_leave (act : Act) (h : r.names.Nodup) : (act.leave r).names.Nodup := by
  rw [names, signatures_leave, List.map_append]
  cases act with
  | declare s => exact nodup_append_untaken h [s]
  | declareAll signatures => exact nodup_append_untaken h signatures
  | implement name run => rwa [Act.declares, List.map_nil, List.append_nil]
  | implementStandard => rwa [Act.declares, List.map_nil, List.append_nil]
  | withdraw name => rwa [Act.declares, List.map_nil, List.append_nil]

/-- **No name is ever declared twice.** -/
theorem nodup_names_after (history : List Act) : (after history).names.Nodup := by
  induction history using List.reverseRecOn with
  | nil => exact List.nodup_nil
  | append_singleton earlier act ih =>
    rw [after_concat]
    exact nodup_names_leave act ih

/-- **A declaration stays where it was made.** What was declared before an act,
and what the act declares, begins the list of declarations ever after. -/
theorem declares_isPrefix_after (earlier : List Act) (act : Act) (later : List Act) :
    (after earlier).signatures ++ act.declares (after earlier).names <+:
      (after (earlier ++ act :: later)).signatures := by
  induction later using List.reverseRecOn with
  | nil =>
    have hsame : (after (earlier ++ [act])).signatures =
        (after earlier).signatures ++ act.declares (after earlier).names := by
      rw [after_concat, signatures_leave]
    exact hsame ▸ List.prefix_rfl
  | append_singleton later last ih =>
    have hsnoc : earlier ++ act :: (later ++ [last]) = (earlier ++ act :: later) ++ [last] := by
      simp
    rw [hsnoc, after_concat, signatures_leave]
    exact ih.trans (List.prefix_append _ _)

/-! ## Implementations -/

/-- What is filtered out is not found, and the rest is. -/
theorem lookup_filter_ne (name name' : String) (ps : List (String × Primitive)) :
    (ps.filter fun p => p.1 != name').lookup name =
      if name = name' then none else ps.lookup name := by
  induction ps with
  | nil => simp
  | cons p rest ih =>
    by_cases hp : p.1 = name'
    · rw [List.filter_cons_of_neg (by simpa using hp), ih, List.lookup_cons]
      by_cases hname : name = name'
      · simp [hname]
      · have hne : (name == p.1) = false := by simpa [hp] using hname
        simp [hname, hne]
    · rw [List.filter_cons_of_pos (by simpa using hp), List.lookup_cons, List.lookup_cons, ih]
      by_cases hname : name = p.1
      · have hne : name ≠ name' := fun h => hp (hname ▸ h)
        simp [hname, hp]
      · have hne : (name == p.1) = false := by simpa using hname
        simp [hne]

/-- An implementation is found under its name from then on. -/
theorem primitive?_implement (name name' : String) (run : Primitive) (r : Registry) :
    ((implement name' run).run r).2.primitive? name =
      if name = name' then some run else r.primitive? name := by
  have hcons : ((implement name' run).run r).2.primitive? name =
      ((name', run) :: r.primitives.filter fun p => p.1 != name').lookup name := rfl
  rw [hcons, List.lookup_cons, lookup_filter_ne, primitive?]
  by_cases hname : name = name'
  · simp [hname]
  · have hne : (name == name') = false := by simpa using hname
    simp [hname, hne]

/-- An implementation that is withdrawn is not found any more. -/
theorem primitive?_withdraw (name name' : String) (r : Registry) :
    ((withdraw name').run r).2.primitive? name =
      if name = name' then none else r.primitive? name :=
  lookup_filter_ne name name' r.primitives

/-- Several implementations are found under their names. -/
theorem primitive?_implementAll {ps : List (String × Primitive)} (hnodup : (ps.map (·.1)).Nodup)
    (name : String) (r : Registry) :
    ((implementAll ps).run r).2.primitive? name = (ps.lookup name).or (r.primitive? name) := by
  induction ps generalizing r with
  | nil => rfl
  | cons p rest ih =>
    rw [List.map_cons, List.nodup_cons] at hnodup
    refine (ih hnodup.2 ((implement p.1 p.2).run r).2).trans ?_
    rw [primitive?_implement, List.lookup_cons]
    by_cases hname : name = p.1
    · -- no later operation of the list has this name
      have hlater : rest.lookup name = none := by
        rw [List.lookup_eq_none_iff]
        intro q hq
        have hne : q.1 ≠ p.1 := fun h => hnodup.1 (h ▸ List.mem_map_of_mem hq)
        simpa [hname] using hne.symm
      rw [hlater, if_pos hname, Option.none_or, beq_iff_eq.mpr hname]
      rfl
    · have hne : (name == p.1) = false := by simpa using hname
      simp [hname, hne]

/-- No two standard implementations have one name. -/
theorem primitive_names_nodup : (Builtin.primitives.map (·.1)).Nodup := by decide

/-- What an act says of the implementation under a name is so after it, and
what it does not speak of stays. -/
theorem primitive?_leave (act : Act) (name : String) (r : Registry) :
    (act.leave r).primitive? name = (act.word? name).getD (r.primitive? name) := by
  cases act with
  | declare s => rw [leave_declare, leave_declareAll]; rfl
  | declareAll signatures => rw [leave_declareAll]; rfl
  | implement name' run =>
    rw [Act.leave, primitive?_implement, Act.word?]
    split <;> rfl
  | implementStandard =>
    refine (primitive?_implementAll primitive_names_nodup name r).trans ?_
    rw [Act.word?]
    cases Builtin.primitives.lookup name with
    | none => rfl
    | some run => rfl
  | withdraw name' =>
    rw [Act.leave, primitive?_withdraw, Act.word?]
    split <;> rfl

/-- **The last word counts.** -/
theorem primitive?_after (history : List Act) (name : String) :
    (after history).primitive? name = lastWord history name := by
  induction history using List.reverseRecOn with
  | nil => rfl
  | append_singleton earlier act ih => rw [after_concat, primitive?_leave, lastWord_concat, ih]

/-- Every name has at most one implementation. -/
def SinglyImplemented (r : Registry) : Prop :=
  (r.primitives.map (·.1)).Nodup

/-- One more implementation keeps names single. -/
theorem SinglyImplemented.implement (h : r.SinglyImplemented) (name : String) (run : Primitive) :
    ((implement name run).run r).2.SinglyImplemented := by
  have hrest : ((r.primitives.filter fun p => p.1 != name).map (·.1)).Nodup :=
    h.sublist (List.filter_sublist.map _)
  refine List.nodup_cons.mpr ⟨?_, hrest⟩
  simp

/-- More implementations keep names single. -/
theorem SinglyImplemented.implementAll (h : r.SinglyImplemented)
    (ps : List (String × Primitive)) : ((implementAll ps).run r).2.SinglyImplemented := by
  induction ps generalizing r with
  | nil => exact h
  | cons p rest ih => exact ih (h.implement p.1 p.2)

/-- Every act keeps names single. -/
theorem SinglyImplemented.leave (h : r.SinglyImplemented) (act : Act) :
    (act.leave r).SinglyImplemented := by
  cases act with
  | declare s => rw [leave_declare, leave_declareAll]; exact h
  | declareAll signatures => rw [leave_declareAll]; exact h
  | implement name run => exact h.implement name run
  | implementStandard => exact h.implementAll Builtin.primitives
  | withdraw name => exact List.Nodup.sublist (List.filter_sublist.map _) h

/-- No name ever has two implementations. -/
theorem singlyImplemented_after (history : List Act) : (after history).SinglyImplemented := by
  induction history using List.reverseRecOn with
  | nil => exact List.nodup_nil
  | append_singleton earlier act ih =>
    rw [after_concat]
    exact ih.leave act

/-! ## Linking -/

/-- What is missing is declared and has no implementation. -/
theorem mem_missing : name ∈ r.missing ↔ name ∈ r.names ∧ r.primitive? name = none := by
  simp only [missing, names, List.mem_map, List.mem_filter, Option.isNone_iff_eq_none]
  constructor
  · rintro ⟨s, ⟨hs, hnone⟩, rfl⟩
    exact ⟨⟨s, hs, rfl⟩, hnone⟩
  · rintro ⟨⟨s, hs, rfl⟩, hnone⟩
    exact ⟨s, ⟨hs, hnone⟩, rfl⟩

/-- What is undeclared has an implementation and no signature. -/
theorem mem_undeclared :
    name ∈ r.undeclared ↔ (r.primitive? name).isSome ∧ name ∉ r.names := by
  have himplemented : name ∈ r.primitives.map (·.1) ↔ (r.primitive? name).isSome := by
    refine ⟨primitive?_isSome, fun h => ?_⟩
    obtain ⟨run, hrun⟩ := Option.isSome_iff_exists.mp h
    exact List.mem_map_of_mem (mem_of_primitive? hrun)
  rw [undeclared, List.mem_filter, himplemented]
  simp [names]

/-- What is missing is listed in the order of declaration. -/
theorem missing_eq_filter : r.missing = r.names.filter fun name => (r.primitive? name).isNone := by
  rw [missing, names, List.filter_map]
  rfl

/-- No gap on either side: the declared names are the implemented ones. -/
theorem noGap_iff :
    (r.missing = [] ∧ r.undeclared = []) ↔
      ∀ name, name ∈ r.names ↔ (r.primitive? name).isSome := by
  simp only [List.eq_nil_iff_forall_not_mem, mem_missing, mem_undeclared]
  constructor
  · rintro ⟨hmissing, hundeclared⟩ name
    constructor
    · intro hname
      exact Option.isSome_iff_ne_none.mpr fun hnone => hmissing name ⟨hname, hnone⟩
    · intro hsome
      by_contra hname
      exact hundeclared name ⟨hsome, hname⟩
  · intro hsame
    refine ⟨fun name h => ?_, fun name h => h.2 ((hsame name).mpr h.1)⟩
    simpa [h.2] using (hsame name).mp h.1

/-- **Linking succeeds when nothing is missing and nothing undeclared.** -/
theorem link_eq (r : Registry) : r.link =
    if r.missing = [] ∧ r.undeclared = [] then
      .ok ⟨r.signatures.filterMap fun s => (r.primitive? s.name).map fun run => ⟨s, run⟩⟩
    else .error (.incomplete r.missing (ascending r.undeclared)) := by
  rw [link]
  simp only [Bool.and_eq_true, List.isEmpty_iff]

/-- With no declaration left out, the entries follow the declarations. -/
theorem signature_filterMap (h : r.missing = []) :
    (r.signatures.filterMap fun s => (r.primitive? s.name).map fun run => Entry.mk s run).map
      (·.signature) = r.signatures := by
  have hall : ∀ s ∈ r.signatures, r.primitive? s.name ≠ none := by
    intro s hs hnone
    have hmem : s.name ∈ r.missing := mem_missing.mpr ⟨List.mem_map_of_mem hs, hnone⟩
    rw [h] at hmem
    exact List.not_mem_nil hmem
  rw [List.map_filterMap]
  refine (List.filterMap_congr fun s hs => ?_).trans List.filterMap_some
  obtain ⟨run, hrun⟩ := Option.ne_none_iff_exists'.mp (hall s hs)
  rw [hrun]
  rfl

/-- Distinct names in ascending order ascend strictly. -/
theorem pairwise_lt_ascending {ns : List String} (h : ns.Nodup) :
    (ascending ns).Pairwise (· < ·) := by
  have hsorted : (ascending ns).Pairwise (· ≤ ·) := by
    refine (List.pairwise_mergeSort ?_ ?_ ns).imp fun hle => of_decide_eq_true hle
    · intro a b c hab hbc
      exact decide_eq_true (le_trans (of_decide_eq_true hab) (of_decide_eq_true hbc))
    · intro a b
      simpa using le_total a b
  have hdistinct : (ascending ns).Pairwise (· ≠ ·) := (List.mergeSort_perm ns _).nodup_iff.mpr h
  exact (hsorted.and hdistinct).imp fun h => lt_of_le_of_ne h.1 h.2

/-- **Linking is complete and reports every gap.** After any history no name is
declared twice, and every declaration stays as it was first made. The registry
links exactly when the declared names are those whose last word is an
implementation: then the table has one entry for each declaration, which holds
it and the last word under its name. Otherwise the error lists the declared
names without implementation, in declaration order, and the implemented names
without declaration, in ascending order and each once. -/
theorem link_reports_every_gap (history : List Act) :
    (after history).names.Nodup ∧
    (∀ earlier act later, history = earlier ++ act :: later →
      (after earlier).signatures ++ act.declares (after earlier).names <+:
        (after history).signatures) ∧
    ((∃ t, (after history).link = .ok t) ↔
      ∀ name, name ∈ (after history).names ↔ (lastWord history name).isSome) ∧
    (∀ t, (after history).link = .ok t →
      t.entries.map (·.signature) = (after history).signatures ∧
      ∀ e ∈ t.entries, lastWord history e.signature.name = some e.run) ∧
    ∀ e, (after history).link = .error e → ∃ undeclared,
      e = .incomplete ((after history).names.filter fun name => (lastWord history name).isNone)
        undeclared ∧
      undeclared.Pairwise (· < ·) ∧
      ∀ name, name ∈ undeclared ↔
        (lastWord history name).isSome ∧ name ∉ (after history).names := by
  simp only [← primitive?_after]
  refine ⟨nodup_names_after history, ?_, ?_, ?_, ?_⟩
  · rintro earlier act later rfl
    exact declares_isPrefix_after earlier act later
  · rw [← noGap_iff, link_eq]
    split
    · rename_i h
      exact ⟨fun _ => h, fun _ => ⟨_, rfl⟩⟩
    · rename_i h
      refine ⟨?_, fun hnone => absurd hnone h⟩
      rintro ⟨_, ⟨⟩⟩
  · intro t ht
    rw [link_eq] at ht
    split at ht <;> cases ht
    rename_i hgap
    refine ⟨signature_filterMap hgap.1, fun e he => ?_⟩
    obtain ⟨s, -, hs⟩ := List.mem_filterMap.mp he
    obtain ⟨run, hrun, rfl⟩ := Option.map_eq_some_iff.mp hs
    exact hrun
  · intro e he
    rw [link_eq] at he
    split at he <;> cases he
    refine ⟨ascending (after history).undeclared, ?_, ?_, fun name => ?_⟩
    · rw [missing_eq_filter]
    · exact pairwise_lt_ascending ((singlyImplemented_after history).filter _)
    · rw [← mem_undeclared]
      exact (List.mergeSort_perm _ _).mem_iff

/-- A batch that stops at a name declared before, an implementation that is
taken back and one that no declaration asks for. -/
def gappyHistory : List Act :=
  [.declare ⟨"put", .any, [.any]⟩,
    .declareAll [⟨"get", .any, []⟩, ⟨"put", .int, []⟩, ⟨"cut", .any, []⟩],
    .implement "put" Builtin.concatenate, .implement "trim" Builtin.isIntText,
    .implement "get" Builtin.textToInt, .withdraw "get"]

/-- A history that declares one name without implementation, and implements one
without signature. -/
theorem link_reports_every_gap_gappy :
    (after gappyHistory).signatures = [⟨"put", .any, [.any]⟩, ⟨"get", .any, []⟩] ∧
    ∃ undeclared, (after gappyHistory).link = .error (.incomplete ["get"] undeclared) ∧
      undeclared.Pairwise (· < ·) ∧ "trim" ∈ undeclared := by
  obtain ⟨-, -, hlinks, -, hgaps⟩ := link_reports_every_gap gappyHistory
  have hnone : ¬ ∃ t, (after gappyHistory).link = .ok t := fun h =>
    absurd ((hlinks.mp h "get").mp (by decide)) (by decide)
  refine ⟨by decide, ?_⟩
  cases hlink : (after gappyHistory).link with
  | ok t => exact absurd ⟨t, hlink⟩ hnone
  | error e =>
    obtain ⟨undeclared, rfl, hascending, hmem⟩ := hgaps e hlink
    exact ⟨undeclared, rfl, hascending, (hmem "trim").mpr ⟨by decide, by decide⟩⟩

end Registry

end BlockIR
