import BlockIR.Heap.Text
import BlockIR.Proofs.Heap
import BlockIR.Proofs.Traversal
/-!
# The short text of a value

The short text of a value is the text of a `Layout`, a finite tree of words,
lists and cuts. Three readings of a heap say which layout it is. `Depicts` is
the rendering itself, with the arrays that are open and no bound on the depth,
so a derivation is a rendering that ends. `Plain` is the rendering that keeps no
account of open arrays. `Faithful` looks at the places of a layout one by one:
`occurrence?` finds in the heap what stands in a place and which arrays it
stands in, and an array is cut exactly where it stands in itself.

That a rendering ends is a count of the arrays that are not open. That it is
plain where there is no cycle rests on an invariant of the open arrays: each of
them leads to the value that is rendered.
-/

namespace BlockIR

/-- **The layout of a text**: a word, a list of layouts, or a list cut short. -/
inductive Layout where
  | word (text : String)
  | cut
  | list (parts : List Layout)

namespace Layout

mutual

/-- The text of a layout. -/
def text : Layout → String
  | .word s => s
  | .cut => "[...]"
  | .list parts => "[" ++ ", ".intercalate (texts parts) ++ "]"

/-- The texts of layouts in order. -/
def texts : List Layout → List String
  | [] => []
  | part :: rest => part.text :: texts rest

end

/-- The texts of parts are the texts of each. -/
theorem texts_eq_map (parts : List Layout) : texts parts = parts.map text := by
  induction parts with
  | nil => rw [texts, List.map_nil]
  | cons part rest ih => rw [texts, List.map_cons, ih]

/-- The part of a layout in a place, given by the indices that lead to it. -/
def at? : Layout → List Nat → Option Layout
  | layout, [] => some layout
  | .list parts, k :: place => parts[k]?.bind fun part => part.at? place
  | .word _, _ :: _ => none
  | .cut, _ :: _ => none

end Layout

namespace Heap

variable {h : Heap} {path path' : List Address} {v w : Value} {layout layout' : Layout}
variable {a b : Address}

/-! ## Readings of a heap -/

/-- **A layout depicts a value** inside the arrays on a path: an array on the
path is cut, and another is on the path of its elements. -/
inductive Depicts (h : Heap) : List Address → Value → Layout → Prop
  | int {path : List Address} {i : Int64} : Depicts h path (.int i) (.word (Decimal.ofInt64 i))
  | str {path : List Address} {s : String} : Depicts h path (.str s) (.word s)
  | null {path : List Address} : Depicts h path .null (.word "null")
  | cut {path : List Address} {a : Address} : a ∈ path → Depicts h path (.array a) .cut
  | list {path : List Address} {a : Address} {parts : List Layout} : a ∉ path →
      parts.length = h.length a →
      (∀ (k : Nat) (v : Value) (part : Layout), (h.elements a)[k]? = some v →
        parts[k]? = some part → Depicts h (a :: path) v part) →
      Depicts h path (.array a) (.list parts)

/-- **A layout depicts a value plainly**, every array by all its elements. -/
inductive Plain (h : Heap) : Value → Layout → Prop
  | int {i : Int64} : Plain h (.int i) (.word (Decimal.ofInt64 i))
  | str {s : String} : Plain h (.str s) (.word s)
  | null : Plain h .null (.word "null")
  | list {a : Address} {parts : List Layout} : parts.length = h.length a →
      (∀ (k : Nat) (v : Value) (part : Layout), (h.elements a)[k]? = some v →
        parts[k]? = some part → Plain h v part) →
      Plain h (.array a) (.list parts)

/-- One array holds another. -/
def Holds (h : Heap) (a b : Address) : Prop :=
  ∃ k : Nat, (h.elements a)[k]? = some (Value.array b)

/-- **No cycle is reachable from a value**: no array in it holds itself, directly
or through others. -/
def Acyclic (h : Heap) (v : Value) : Prop :=
  ∀ root a, v = .array root → Relation.ReflTransGen h.Holds root a →
    ¬ Relation.TransGen h.Holds a a

/-- **What stands in a place** of a value inside the arrays on a path, with the
arrays that it stands in, the innermost first. -/
def occurrence? (h : Heap) : List Address → Value → List Nat → Option (List Address × Value)
  | path, v, [] => some (path, v)
  | path, .array a, k :: place => (h.elements a)[k]?.bind fun w => h.occurrence? (a :: path) w place
  | _, _, _ :: _ => none

/-- What is shown of a value that stands in some arrays. -/
def Shows (h : Heap) (path : List Address) : Value → Layout → Prop
  | .int i, part => part = .word (Decimal.ofInt64 i)
  | .str s, part => part = .word s
  | .null, part => part = .word "null"
  | .array a, part => (part = .cut ↔ a ∈ path) ∧
      (a ∉ path → ∃ parts, part = .list parts ∧ parts.length = h.length a)

/-- **A layout is faithful** to a value inside the arrays on a path: it shows what
stands in each place, as long as no array stands in itself on the way there,
and has no other places. -/
def Faithful (h : Heap) (path : List Address) (v : Value) (layout : Layout) : Prop :=
  ∀ place,
    (h.occurrence? path v place = none → layout.at? place = none) ∧
    ∀ inside w, h.occurrence? path v place = some (inside, w) →
      (inside.Nodup → ∃ part, layout.at? place = some part ∧ h.Shows inside w part) ∧
      (¬ inside.Nodup → layout.at? place = none)

/-! ## Renderings end -/

/-- The layout of a value inside the arrays on a path, up to a depth. -/
def layoutWithin (h : Heap) : Nat → List Address → Value → Layout
  | _, _, .int i => .word (Decimal.ofInt64 i)
  | _, _, .str s => .word s
  | _, _, .null => .word "null"
  | 0, _, .array _ => .cut
  | n + 1, path, .array a =>
    if a ∈ path then .cut else .list ((h.elements a).toList.map (h.layoutWithin n (a :: path)))

/-- A layout within a depth has the text within it. -/
theorem text_layoutWithin (h : Heap) (n : Nat) (path : List Address) (v : Value) :
    (h.layoutWithin n path v).text = h.textWithin n path v := by
  induction n generalizing path v with
  | zero => cases v <;> rw [layoutWithin, textWithin, Layout.text]
  | succ n ih =>
    cases v with
    | int i => rw [layoutWithin, textWithin, Layout.text]
    | str s => rw [layoutWithin, textWithin, Layout.text]
    | null => rw [layoutWithin, textWithin, Layout.text]
    | array a =>
      rw [layoutWithin, textWithin]
      split
      · rw [Layout.text]
      · rw [Layout.text, Layout.texts_eq_map, List.map_map]
        congr 4
        funext w
        exact ih (a :: path) w

/-- Only an array of the heap has elements. -/
theorem lt_size_of_getElem? {k : Nat} (hk : (h.elements a)[k]? = some v) : a < h.arrays.size := by
  obtain ⟨hlt, -⟩ := Array.getElem?_eq_some_iff.mp hk
  exact lt_size_of_length_pos (Nat.zero_lt_of_lt hlt)

/-- **The bound on the depth is never used up**: an array that is entered is on
the path of its elements, so fewer are left to enter. -/
theorem depicts_layoutWithin (n : Nat) (path : List Address) (v : Value)
    (hn : Traverses.unmet (List.range h.arrays.size) path < n) :
    h.Depicts path v (h.layoutWithin n path v) := by
  induction n generalizing path v with
  | zero => omega
  | succ n ih =>
    cases v with
    | int i => exact .int
    | str s => exact .str
    | null => exact .null
    | array a =>
      rw [layoutWithin]
      split
      · rename_i hopen
        exact .cut hopen
      · rename_i hnew
        refine .list hnew (by rw [List.length_map, Array.length_toList, length]) ?_
        intro k w part hw hpart
        -- an array with an element is one of the heap, and it was not open
        have hless : Traverses.unmet (List.range h.arrays.size) (a :: path) <
            Traverses.unmet (List.range h.arrays.size) path :=
          Traverses.unmet_lt (List.mem_range.mpr (lt_size_of_getElem? hw)) hnew List.mem_cons_self
            (List.subset_cons_self a path)
        obtain rfl : h.layoutWithin n (a :: path) w = part := by
          simpa [hw] using hpart
        exact ih (a :: path) w (by omega)

/-! ## One layout -/

/-- Lists of layouts for the elements of an array agree when they do element by
element. -/
theorem parts_unique {parts parts' : List Layout} (hlength : parts.length = h.length a)
    (hlength' : parts'.length = h.length a)
    (heq : ∀ (k : Nat) (v : Value) (part part' : Layout), (h.elements a)[k]? = some v →
      parts[k]? = some part → parts'[k]? = some part' → part = part') : parts = parts' := by
  refine List.ext_getElem (hlength.trans hlength'.symm) fun k hk hk' => ?_
  have hlt : k < (h.elements a).size := by
    rw [hlength] at hk
    exact hk
  exact heq k _ _ _ (Array.getElem?_eq_getElem hlt) (List.getElem?_eq_getElem hk)
    (List.getElem?_eq_getElem hk')

/-- There is a part for every element. -/
theorem exists_part {parts : List Layout} {k : Nat} (hlength : parts.length = h.length a)
    (hv : (h.elements a)[k]? = some v) : ∃ part, parts[k]? = some part := by
  obtain ⟨hlt, -⟩ := Array.getElem?_eq_some_iff.mp hv
  have hk : k < parts.length := by
    rw [hlength]
    exact hlt
  exact ⟨_, List.getElem?_eq_getElem hk⟩

/-- **A value has one layout.** -/
theorem Depicts.unique (hone : h.Depicts path v layout) (htwo : h.Depicts path v layout') :
    layout = layout' := by
  induction hone generalizing layout' with
  | int =>
    cases htwo
    rfl
  | str =>
    cases htwo
    rfl
  | null =>
    cases htwo
    rfl
  | cut hopen =>
    cases htwo with
    | cut _ => rfl
    | list hnew _ _ => exact absurd hopen hnew
  | list hnew hlength _ ih =>
    cases htwo with
    | cut hopen => exact absurd hopen hnew
    | list _ hlength' hparts' =>
      refine congrArg Layout.list (parts_unique hlength hlength' ?_)
      intro k w part part' hw hpart hpart'
      exact ih k w part hw hpart (hparts' k w part' hw hpart')

/-- A value has one plain layout. -/
theorem Plain.unique (hone : h.Plain v layout) (htwo : h.Plain v layout') : layout = layout' := by
  induction hone generalizing layout' with
  | int =>
    cases htwo
    rfl
  | str =>
    cases htwo
    rfl
  | null =>
    cases htwo
    rfl
  | list hlength _ ih =>
    cases htwo with
    | list hlength' hparts' =>
      refine congrArg Layout.list (parts_unique hlength hlength' ?_)
      intro k w part part' hw hpart hpart'
      exact ih k w part hw hpart (hparts' k w part' hw hpart')

/-! ## Without cycles -/

/-- An element of an acyclic value is acyclic. -/
theorem Acyclic.element (hacyclic : h.Acyclic (.array a)) {k : Nat}
    (hv : (h.elements a)[k]? = some v) : h.Acyclic v := by
  intro root b hroot hpath
  have hholds : h.Holds a root := ⟨k, by rw [hv, hroot]⟩
  exact hacyclic a b rfl (.head hholds hpath)

/-- **Where no cycle is reachable the rendering is plain.** Every open array leads
to the value that is rendered, so an array that is open leads to itself. -/
theorem Depicts.plain (hdepicts : h.Depicts path v layout) (hacyclic : h.Acyclic v)
    (hopen : ∀ p ∈ path, ∀ a, v = .array a → Relation.TransGen h.Holds p a) :
    h.Plain v layout := by
  induction hdepicts with
  | int => exact .int
  | str => exact .str
  | null => exact .null
  | @cut path a hmem =>
    -- the array is open and is met again
    exact absurd (hopen a hmem a rfl) (hacyclic a a rfl .refl)
  | @list path a parts hnew hlength _ ih =>
    refine .list hlength fun k w part hw hpart => ?_
    refine ih k w part hw hpart (hacyclic.element hw) fun p hp b hb => ?_
    have hholds : h.Holds a b := ⟨k, by rw [hw, hb]⟩
    rcases List.mem_cons.mp hp with rfl | hp
    · exact .single hholds
    · exact (hopen p hp a rfl).tail hholds

/-- From an array that leads only to older ones no cycle is reachable. -/
theorem acyclic_of_older (holder : ∀ b ≤ a, ∀ c, h.Holds b c → c < b) : h.Acyclic (.array a) := by
  have hreach : ∀ b, Relation.ReflTransGen h.Holds a b → b ≤ a := by
    intro b hpath
    induction hpath with
    | refl => exact Nat.le_refl a
    | tail _ hholds ih => exact Nat.le_trans (Nat.le_of_lt (holder _ ih _ hholds)) ih
  have hbelow : ∀ b ≤ a, ∀ c, Relation.TransGen h.Holds b c → c < b := by
    intro b hb c hpath
    induction hpath with
    | single hholds => exact holder b hb _ hholds
    | tail _ hholds ih =>
      have hle := Nat.le_trans (Nat.le_of_lt ih) hb
      exact Nat.lt_trans (holder _ hle _ hholds) ih
  intro root b hroot hpath hcycle
  cases hroot
  exact Nat.lt_irrefl b (hbelow b (hreach b hpath) b hcycle)

/-! ## Place by place -/

/-- What stands deeper stands in more arrays. -/
theorem suffix_of_occurrence? {place : List Nat} {inside : List Address}
    (hfound : h.occurrence? path v place = some (inside, w)) : path <:+ inside := by
  induction place generalizing path v with
  | nil =>
    rw [occurrence?] at hfound
    cases hfound
    exact List.suffix_refl _
  | cons k place ih =>
    cases v with
    | int i => cases hfound
    | str s => cases hfound
    | null => cases hfound
    | array a =>
      rw [occurrence?] at hfound
      obtain ⟨u, -, hrest⟩ := Option.bind_eq_some_iff.mp hfound
      exact (List.suffix_cons a path).trans (ih hrest)

/-- What a layout depicts it shows. -/
theorem Depicts.shows (hdepicts : h.Depicts path v layout) : h.Shows path v layout := by
  cases hdepicts with
  | int => exact rfl
  | str => exact rfl
  | null => exact rfl
  | cut hopen => exact ⟨iff_of_true rfl hopen, fun hnew => absurd hopen hnew⟩
  | list hnew hlength _ =>
    exact ⟨iff_of_false (fun h => by cases h) hnew, fun _ => ⟨_, rfl, hlength⟩⟩

/-- What stands inside an array that is cut stands in it twice. -/
theorem not_nodup_of_cut {place : List Nat} {inside : List Address} {k : Nat} (hopen : a ∈ path)
    (hfound : h.occurrence? path (.array a) (k :: place) = some (inside, w)) : ¬ inside.Nodup := by
  rw [occurrence?] at hfound
  obtain ⟨u, -, hrest⟩ := Option.bind_eq_some_iff.mp hfound
  intro hnodup
  have hcons : (a :: path).Nodup := hnodup.sublist (suffix_of_occurrence? hrest).sublist
  exact (List.nodup_cons.mp hcons).1 hopen

/-- **A layout that depicts a value is faithful to it.** -/
theorem Depicts.faithful (hdepicts : h.Depicts path v layout) (hnodup : path.Nodup) :
    h.Faithful path v layout := by
  intro place
  induction place generalizing path v layout with
  | nil =>
    constructor
    · intro hnone
      cases hnone
    · intro inside w hfound
      rw [occurrence?] at hfound
      cases hfound
      exact ⟨fun _ => ⟨layout, rfl, hdepicts.shows⟩, fun hdup => absurd hnodup hdup⟩
  | cons k place ih =>
    cases hdepicts with
    | int => exact ⟨fun _ => rfl, fun inside w hfound => by cases hfound⟩
    | str => exact ⟨fun _ => rfl, fun inside w hfound => by cases hfound⟩
    | null => exact ⟨fun _ => rfl, fun inside w hfound => by cases hfound⟩
    | @cut _ a hopen =>
      -- the layout has no place here, and the heap has some only in an array that
      -- stands in itself
      refine ⟨fun _ => rfl, fun inside w hfound => ⟨fun hnodup' => ?_, fun _ => rfl⟩⟩
      exact absurd hnodup' (not_nodup_of_cut hopen hfound)
    | @list _ a parts hnew hlength hparts =>
      rw [occurrence?, Layout.at?]
      cases hw : (h.elements a)[k]? with
      | none =>
        have hsize : (h.elements a).size ≤ k := Array.getElem?_eq_none_iff.mp hw
        have hpart : parts[k]? = none := List.getElem?_eq_none_iff.mpr (hlength ▸ hsize)
        rw [hpart]
        exact ⟨fun _ => rfl, fun inside w hfound => by cases hfound⟩
      | some w =>
        obtain ⟨part, hpart⟩ := exists_part hlength hw
        rw [hpart]
        exact ih (hparts k w part hw hpart) (List.nodup_cons.mpr ⟨hnew, hnodup⟩)

/-- **The short text of a value ends and is faithful.** It is the text of the one
layout that depicts the value; where no cycle is reachable that is the one plain
layout; and in every place it shows what stands there, an array being cut
exactly where it stands in itself. -/
theorem text_faithful (h : Heap) (v : Value) :
    ∃ layout, h.text v = layout.text ∧
      (h.Depicts [] v layout ∧ ∀ layout', h.Depicts [] v layout' → layout' = layout) ∧
      (h.Acyclic v →
        h.Plain v layout ∧ ∀ layout', h.Plain v layout' → layout' = layout) ∧
      h.Faithful [] v layout := by
  have hbound : Traverses.unmet (List.range h.arrays.size) [] < h.arrays.size + 1 := by
    have hle : Traverses.unmet (List.range h.arrays.size) [] ≤ (List.range h.arrays.size).length :=
      List.length_filter_le _ _
    rw [List.length_range] at hle
    omega
  have hdepicts := depicts_layoutWithin (h.arrays.size + 1) [] v hbound
  refine ⟨_, (text_layoutWithin h _ [] v).symm, ⟨hdepicts, fun _ hother => hother.unique hdepicts⟩,
    fun hacyclic => ?_, hdepicts.faithful List.nodup_nil⟩
  have hplain := hdepicts.plain hacyclic fun p hp => absurd hp List.not_mem_nil
  exact ⟨hplain, fun _ hother => hother.unique hplain⟩

/-- An array that stands twice in another, and a third that holds itself and
that one. -/
def entwined : Heap :=
  ⟨#[#[.str "knot"], #[.array 0, .array 0, .int 7], #[.array 2, .array 1]]⟩

example : entwined.text (.array 2) = "[[...], [[knot], [knot], 7]]" := by decide +kernel

/-- An array that holds another twice, and a number. -/
theorem text_faithful_entwined : entwined.Acyclic (.array 1) ∧ ∃ layout,
    layout.text = "[[knot], [knot], 7]" ∧ entwined.Plain (.array 1) layout ∧
      entwined.Faithful [] (.array 1) layout := by
  have hacyclic : entwined.Acyclic (.array 1) := by
    refine acyclic_of_older fun b hb c hholds => ?_
    obtain ⟨k, hk⟩ := hholds
    have hmem := Array.mem_of_getElem? hk
    rcases Nat.le_one_iff_eq_zero_or_eq_one.mp hb with rfl | rfl
    · simp [entwined, elements] at hmem
    · obtain rfl : c = 0 := by simpa [entwined, elements] using hmem
      exact Nat.zero_lt_one
  obtain ⟨layout, htext, -, hplain, hfaithful⟩ := text_faithful entwined (.array 1)
  refine ⟨hacyclic, layout, htext.symm.trans ?_, (hplain hacyclic).1, hfaithful⟩
  decide +kernel

end Heap

end BlockIR
