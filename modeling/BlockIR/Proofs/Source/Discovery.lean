import BlockIR.Proofs.Source.Reachable
/-!
# The walk over imports, up to repetition

The walk meets an id as often as it is imported, and only the first time counts.
So of the pending ids it is enough to know those that are `awaited`: not listed
yet, each once, in the order in which they are met. `Walk` is the walk on awaited
ids, and what it comes to is determined by what the needed modules import, up to
repetition.
-/

namespace BlockIR

namespace Source

/-! ## First occurrences -/

/-- First occurrences are found one after the other: that of the first id, then
those of the rest without it. -/
theorem firsts_induction {motive : List String → Prop} (nil : motive [])
    (cons : ∀ id rest, motive (rest.filter fun x => !x == id) → motive (id :: rest)) :
    ∀ ids, motive ids
  | [] => nil
  | id :: rest => cons id rest (firsts_induction nil cons (rest.filter fun x => !x == id))
termination_by ids => ids.length
decreasing_by
  have hle := List.length_filter_le (fun x => !x == id) rest
  rw [List.length_cons]
  omega

/-- Filtering and erasing duplicates commute. -/
theorem eraseDups_filter (f : String → Bool) (ids : List String) :
    (ids.filter f).eraseDups = ids.eraseDups.filter f := by
  induction ids using firsts_induction with
  | nil => rfl
  | cons id rest ih =>
    rw [List.eraseDups_cons, List.filter_cons, List.filter_cons, ← ih, List.filter_filter]
    by_cases hf : f id = true
    · rw [if_pos hf, if_pos hf, List.eraseDups_cons, List.filter_filter]
      congr 3
      funext x
      exact Bool.and_comm _ _
    · rw [if_neg hf, if_neg hf]
      congr 1
      refine List.filter_congr fun x _ => ?_
      by_cases hx : x = id
      · rw [hx, Bool.eq_false_iff.mpr hf, Bool.false_and]
      · rw [beq_false_of_ne hx, Bool.not_false, Bool.and_true]

/-- Duplicates are erased once. -/
theorem eraseDups_eraseDups (ids : List String) : ids.eraseDups.eraseDups = ids.eraseDups := by
  induction ids using firsts_induction with
  | nil => rfl
  | cons id rest ih =>
    rw [List.eraseDups_cons, List.eraseDups_cons, eraseDups_filter, ih, ← eraseDups_filter,
      List.filter_filter]
    congr 3
    funext x
    exact Bool.and_self _

/-- Of a second list only what is new stays. -/
theorem eraseDups_append_eq (ids ids' : List String) :
    (ids ++ ids').eraseDups = ids.eraseDups ++ ids'.eraseDups.filter fun id => decide (id ∉ ids) := by
  rw [List.eraseDups_append, List.removeAll, ← eraseDups_filter]
  congr 3
  funext id
  simp

/-- **The ids still to be listed**, in the order in which they are met first. -/
def awaited (pending seen : List String) : List String :=
  pending.eraseDups.filter fun id => decide (id ∉ seen)

section Awaited

variable {id : String} {pending seen ids ids' : List String}

/-- What is awaited is pending and not seen. -/
theorem mem_awaited : id ∈ awaited pending seen ↔ id ∈ pending ∧ id ∉ seen := by
  simp [awaited]

/-- What was seen is not awaited again. -/
theorem awaited_cons_of_mem (hid : id ∈ seen) :
    awaited (id :: pending) seen = awaited pending seen := by
  rw [awaited, List.eraseDups_cons, List.filter_cons_of_neg (by simpa using hid),
    eraseDups_filter, List.filter_filter, awaited]
  refine List.filter_congr fun x _ => ?_
  by_cases hx : x = id
  · simp [hx, hid]
  · simp [hx]

/-- What was not seen is awaited first. -/
theorem awaited_cons (hid : id ∉ seen) :
    awaited (id :: pending) seen = id :: awaited pending (seen ++ [id]) := by
  rw [awaited, List.eraseDups_cons, List.filter_cons_of_pos (by simpa using hid),
    eraseDups_filter, List.filter_filter, awaited]
  congr 1
  refine List.filter_congr fun x _ => ?_
  by_cases hx : x = id
  · simp [hx]
  · simp [hx]

/-- What is pending twice is awaited where it comes first. -/
theorem awaited_append (ids pending seen : List String) :
    awaited (ids ++ pending) seen =
      awaited ids seen ++ (awaited pending seen).filter fun id => decide (id ∉ ids) := by
  rw [awaited, eraseDups_append_eq, List.filter_append, List.filter_filter, awaited, awaited,
    List.filter_filter]
  congr 2
  funext id
  exact Bool.and_comm _ _

/-- What is pending beyond the awaited ids makes no difference. -/
theorem awaited_append_awaited (ids pending seen : List String) :
    awaited (ids ++ awaited pending seen) seen = awaited (ids ++ pending) seen := by
  have htwice : awaited (awaited pending seen) seen = awaited pending seen := by
    rw [awaited, awaited, eraseDups_filter, eraseDups_eraseDups, List.filter_filter]
    congr 1
    funext id
    exact Bool.and_self _
  rw [awaited_append, htwice, awaited_append]

/-- Neither does how often an id is imported. -/
theorem awaited_append_congr (h : ids.eraseDups = ids'.eraseDups) (pending seen : List String) :
    awaited (ids ++ pending) seen = awaited (ids' ++ pending) seen := by
  have hmem : ∀ id, id ∈ ids ↔ id ∈ ids' := fun id => by
    rw [← List.mem_eraseDups, h, List.mem_eraseDups]
  rw [awaited_append, awaited_append, awaited, h]
  simp only [hmem, awaited]

end Awaited

/-! ## The walk on awaited ids -/

namespace Program

variable {p q : Program} {id : String} {m : Module} {ids pending : List String}
variable {listed : List (String × Module)}
variable {r r' : Except LoweringError (List (String × Module))}

/-- **The walk over imports**, from the awaited ids and the modules listed so far
to what it comes to. -/
inductive Walk (p : Program) : List String → List (String × Module) →
    Except LoweringError (List (String × Module)) → Prop
  | done {listed : List (String × Module)} : Walk p [] listed (.ok listed)
  | missing {id : String} {ids : List String} {listed : List (String × Module)} :
      p.module? id = none → Walk p (id :: ids) listed (.error (.unknownModule id))
  | list {id : String} {ids : List String} {listed : List (String × Module)} {m : Module}
      {r : Except LoweringError (List (String × Module))} : p.module? id = some m →
      Walk p (awaited (m.imports ++ ids) (listed.map Prod.fst ++ [id])) (listed ++ [(id, m)]) r →
      Walk p (id :: ids) listed r

namespace Walk

/-- A walk comes to one thing. -/
theorem unique (h : p.Walk ids listed r) (h' : p.Walk ids listed r') : r = r' := by
  induction h with
  | done =>
    cases h'
    rfl
  | missing hm =>
    cases h' with
    | missing _ => rfl
    | list hm' _ =>
      rw [hm] at hm'
      cases hm'
  | list hm _ ih =>
    cases h' with
    | missing hm' =>
      rw [hm] at hm'
      cases hm'
    | list hm' hrest =>
      obtain rfl := Option.some.inj (hm.symm.trans hm')
      exact ih hrest

end Walk

/-- A walk over pending ids is one over the awaited ids among them: an id met
before is passed over, which the awaited ids do not notice. -/
theorem Visits.walk (h : p.Visits pending listed r) :
    p.Walk (awaited pending (listed.map Prod.fst)) listed r := by
  induction h with
  | done => exact .done
  | again hid _ ih =>
    rw [awaited_cons_of_mem hid]
    exact ih
  | missing hid hm =>
    rw [awaited_cons hid]
    exact .missing hm
  | list hid hm _ ih =>
    rw [List.map_append] at ih
    rw [awaited_cons hid]
    refine .list hm ?_
    rw [awaited_append_awaited]
    exact ih

/-- **The modules of a program are what the walk from its root comes to.** -/
theorem walk_reachable (p : Program) : p.Walk [p.root] [] p.reachable := by
  have hstart : awaited [p.root] (([] : List (String × Module)).map Prod.fst) = [p.root] :=
    awaited_cons List.not_mem_nil
  have hwalk := p.visits_reachable.walk
  rw [hstart] at hwalk
  exact hwalk

/-! ## Walks over other modules -/

/-- An entry of a program tree with its module revised. -/
def revised (g : String → Module → Module) (entry : String × Module) : String × Module :=
  (entry.1, g entry.1 entry.2)

/-- Revising modules leaves their ids. -/
theorem map_fst_revised (g : String → Module → Module) (listed : List (String × Module)) :
    (listed.map (revised g)).map Prod.fst = listed.map Prod.fst := by
  rw [List.map_map]
  rfl

/-- **A walk meets the same ids in another program** whose needed modules are
revisions of the ones it meets, importing the same up to repetition. -/
theorem Walk.revise {g : String → Module → Module}
    (hg : ∀ id m, (g id m).imports.eraseDups = m.imports.eraseDups)
    (hmodules : ∀ id, p.Needs id → q.module? id = (p.module? id).map (g id))
    (h : p.Walk ids listed r) (hneeds : ∀ id ∈ ids, p.Needs id) :
    q.Walk ids (listed.map (revised g)) (List.map (revised g) <$> r) := by
  induction h with
  | done => exact .done
  | missing hm =>
    refine .missing ?_
    rw [hmodules _ (hneeds _ List.mem_cons_self), hm]
    rfl
  | @list id ids listed m r hm _ ih =>
    have hid : p.Needs id := hneeds id List.mem_cons_self
    have hnext : ∀ i ∈ awaited (m.imports ++ ids) (listed.map Prod.fst ++ [id]), p.Needs i := by
      intro i hi
      rcases List.mem_append.mp (mem_awaited.mp hi).1 with hi | hi
      · exact .imported hid hm hi
      · exact hneeds i (List.mem_cons_of_mem _ hi)
    have hm' : q.module? id = some (g id m) := by
      rw [hmodules id hid, hm]
      rfl
    refine .list hm' ?_
    rw [awaited_append_congr (hg id m), map_fst_revised]
    have hrest := ih hnext
    rw [List.map_append] at hrest
    exact hrest

/-- **Discovery depends only on the needed modules**, and on their imports only
up to repetition. -/
theorem reachable_of_revised {g : String → Module → Module} (hroot : q.root = p.root)
    (hg : ∀ id m, (g id m).imports.eraseDups = m.imports.eraseDups)
    (hmodules : ∀ id, p.Needs id → q.module? id = (p.module? id).map (g id)) :
    q.reachable = List.map (revised g) <$> p.reachable := by
  have hstart : ∀ id ∈ [p.root], p.Needs id := by
    intro id hid
    rw [List.mem_singleton.mp hid]
    exact .root
  have hwalk := p.walk_reachable.revise hg hmodules hstart
  rw [← hroot] at hwalk
  exact q.walk_reachable.unique hwalk

end Program

end Source

end BlockIR
