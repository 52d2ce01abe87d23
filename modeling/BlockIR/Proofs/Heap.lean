import BlockIR.Heap.Basic
/-!
# What becomes of the arrays of a heap

A heap changes in two ways. It gains an array of nulls (`Adds`), or an element of
an array that is there is replaced (`Sets`). Either way the arrays it had keep
their addresses and their lengths (`KeepsLengths`).
-/

namespace BlockIR

namespace Heap

variable {h h' h'' : Heap} {a b : Address} {i : Int64} {v : Value} {k n : Nat}

/-- **The arrays that a heap had are there**, each with the length it had. -/
def KeepsLengths (h h' : Heap) : Prop :=
  ∀ a < h.arrays.size, a < h'.arrays.size ∧ h'.length a = h.length a

/-- **A heap gains an array of nulls**, and the others stay as they are. -/
def Adds (h h' : Heap) (n : Nat) : Prop :=
  h'.arrays = h.arrays.push (Array.replicate n .null)

/-- **An element of an array is replaced**, and nothing else. Whoever knows the
array by its address loads the new value. -/
structure Sets (h h' : Heap) (a : Address) (i : Int64) (v : Value) : Prop where
  nonneg : 0 ≤ i.toInt
  lt : i.toInt < h.length a
  size : h'.arrays.size = h.arrays.size
  load : h'.load a i = .ok v
  others : ∀ (b : Address) (k : Nat), b ≠ a ∨ (k : Int) ≠ i.toInt →
    (h'.elements b)[k]? = (h.elements b)[k]?
  length : ∀ b, h'.length b = h.length b

/-- Nothing changes without a change. -/
theorem KeepsLengths.refl (h : Heap) : h.KeepsLengths h := fun _ ha => ⟨ha, rfl⟩

/-- Lengths that are kept twice are kept. -/
theorem KeepsLengths.trans (hfirst : h.KeepsLengths h') (hsecond : h'.KeepsLengths h'') :
    h.KeepsLengths h'' := by
  intro a ha
  obtain ⟨ha', hlength⟩ := hfirst a ha
  obtain ⟨ha'', hlength'⟩ := hsecond a ha'
  exact ⟨ha'', hlength'.trans hlength⟩

/-- A new array leaves the others their lengths. -/
theorem Adds.keepsLengths (hadds : h.Adds h' n) : h.KeepsLengths h' := by
  intro a ha
  unfold Adds at hadds
  unfold length elements
  rw [hadds]
  refine ⟨?_, ?_⟩
  · rw [Array.size_push]
    omega
  · rw [Array.getD_eq_getD_getElem?, Array.getD_eq_getD_getElem?, Array.getElem?_push_lt ha,
      Array.getElem?_eq_getElem ha]

/-- A new element leaves all arrays their lengths. -/
theorem Sets.keepsLengths (hsets : h.Sets h' a i v) : h.KeepsLengths h' :=
  fun b hb => ⟨hsets.size.symm ▸ hb, hsets.length b⟩

/-- Allocating nulls adds an array of them. -/
theorem adds_allocateNulls (h : Heap) (n : Nat) : h.Adds (h.allocateNulls n).2 n := rfl

/-! ## Stores -/

/-- An index in range is a position. -/
theorem position?_eq_some {length : Nat} (hnonneg : 0 ≤ i.toInt) (hlt : i.toInt < length) :
    position? length i = some i.toInt.toNat :=
  if_pos ⟨hnonneg, hlt⟩

/-- An index out of range is none. -/
theorem position?_eq_none {length : Nat} (hout : ¬ (0 ≤ i.toInt ∧ i.toInt < length)) :
    position? length i = none :=
  if_neg hout

/-- A change of one array is seen at its address, and nowhere else. -/
theorem elements_modify (g : Array Value → Array Value) (h : Heap) (a b : Address) :
    (h.modify g a).elements b =
      if b = a ∧ a < h.arrays.size then g (h.elements b) else h.elements b := by
  simp only [elements, modify, Array.getD_eq_getD_getElem?, Array.getElem?_modify]
  by_cases hb : a = b
  · subst hb
    by_cases ha : a < h.arrays.size
    · simp [ha]
    · simp [ha]
  · simp [hb, Ne.symm hb]

/-- Only an array that is there has an element. -/
theorem lt_size_of_length_pos (hpos : 0 < h.length a) : a < h.arrays.size := by
  rcases Nat.lt_or_ge a h.arrays.size with ha | hout
  · exact ha
  · rw [length, elements, Array.getD_eq_getD_getElem?, Array.getElem?_eq_none hout] at hpos
    exact absurd hpos (Nat.lt_irrefl 0)

/-- **A store in range succeeds** and sets the element. -/
theorem store_eq_ok (hnonneg : 0 ≤ i.toInt) (hlt : i.toInt < h.length a) (v : Value) :
    h.store a i v = (.ok (), h.modify (·.setIfInBounds i.toInt.toNat v) a) := by
  simp only [store, position?_eq_some hnonneg hlt]

/-- A store out of range fails and leaves the heap. -/
theorem store_eq_error (hout : ¬ (0 ≤ i.toInt ∧ i.toInt < h.length a)) (v : Value) :
    h.store a i v = (.error (.indexOutOfBounds i (h.length a)), h) := by
  simp only [store, position?_eq_none hout]

/-- A load out of range fails. -/
theorem load_eq_error (hout : ¬ (0 ≤ i.toInt ∧ i.toInt < h.length a)) :
    h.load a i = .error (.indexOutOfBounds i (h.length a)) := by
  have hnone : position? (h.elements a).size i = none := position?_eq_none hout
  simp only [load, hnone]
  rfl

/-- A load in range gives the element. -/
theorem load_eq_ok (hnonneg : 0 ≤ i.toInt) (hlt : i.toInt < h.length a)
    (hv : (h.elements a)[i.toInt.toNat]? = some v) : h.load a i = .ok v := by
  have hsome : position? (h.elements a).size i = some i.toInt.toNat :=
    position?_eq_some hnonneg hlt
  simp only [load, hsome, Option.bind_some, hv]

/-- **A store in range replaces one element.** -/
theorem sets_store (hnonneg : 0 ≤ i.toInt) (hlt : i.toInt < h.length a) (v : Value) :
    h.Sets (h.store a i v).2 a i v := by
  -- an index in range is one of an array that is there
  have ha : a < h.arrays.size := lt_size_of_length_pos (by omega)
  have hrange : i.toInt.toNat < (h.elements a).size := by
    change i.toInt < (h.elements a).size at hlt
    omega
  have hlength : ∀ b, (h.modify (·.setIfInBounds i.toInt.toNat v) a).length b = h.length b := by
    intro b
    rw [length, elements_modify, length]
    split
    · exact Array.size_setIfInBounds
    · rfl
  rw [store_eq_ok hnonneg hlt]
  refine ⟨hnonneg, hlt, Array.size_modify, ?_, fun b k hother => ?_, hlength⟩
  · refine load_eq_ok hnonneg (by rwa [hlength]) ?_
    rw [elements_modify, if_pos ⟨rfl, ha⟩]
    exact Array.getElem?_setIfInBounds_self_of_lt hrange
  · rw [elements_modify]
    split
    · rename_i hb
      refine Array.getElem?_setIfInBounds_ne ?_
      have hk : (k : Int) ≠ i.toInt := hother.resolve_left (absurd hb.1)
      omega
    · rfl

/-! ## The newest array -/

/-- A new array has the elements that it was made with. -/
theorem elements_allocate (h : Heap) (e : Array Value) :
    (h.allocate e).2.elements (h.allocate e).1 = e := by
  simp [elements, allocate, Array.getD_eq_getD_getElem?]

/-- A change of a new array might as well have been made before. -/
theorem modify_allocate (h : Heap) (g : Array Value → Array Value) (e : Array Value) :
    (h.allocate e).2.modify g (h.allocate e).1 = (h.allocate (g e)).2 := by
  obtain ⟨arrays⟩ := h
  have hpush : (arrays.push e).modify arrays.size g = arrays.push (g e) := by
    refine Array.ext_getElem? fun i => ?_
    rw [Array.getElem?_modify, Array.getElem?_push, Array.getElem?_push]
    by_cases hi : arrays.size = i
    · simp [hi]
    · simp [hi, Ne.symm hi]
  exact congrArg Heap.mk hpush

/-- A store into the newest array is in its elements. -/
theorem store_allocate (h : Heap) {e : Array Value} (hnonneg : 0 ≤ i.toInt)
    (hlt : i.toInt < e.size) (v : Value) :
    (h.allocate e).2.store (h.allocate e).1 i v =
      (.ok (), (h.allocate (e.setIfInBounds i.toInt.toNat v)).2) := by
  have hrange : i.toInt < (h.allocate e).2.length (h.allocate e).1 := by
    rwa [length, elements_allocate]
  rw [store_eq_ok hnonneg hrange, modify_allocate]

/-- A load from a new array gives an element that it was made with. -/
theorem load_allocate (h : Heap) {e : Array Value} (hnonneg : 0 ≤ i.toInt)
    (hv : e[i.toInt.toNat]? = some v) : (h.allocate e).2.load (h.allocate e).1 i = .ok v := by
  obtain ⟨hlt, -⟩ := Array.getElem?_eq_some_iff.mp hv
  refine load_eq_ok hnonneg ?_ ?_
  · rw [length, elements_allocate]
    omega
  · rwa [elements_allocate]

end Heap

end BlockIR
