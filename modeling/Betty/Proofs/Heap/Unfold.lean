import Mathlib.Data.Finset.Card
import Mathlib.Data.Finset.Range
import Mathlib.Logic.Relation
import Betty.Proofs.Heap.Policy

/-!
# The unfolding of a value

A list holds references to the lists nested in it. To follow them all gives the unfolding of
a value: a tree that does not show any more which of its lists are one list. The unfolding of
a list that contains itself does not end, so unfoldings are cut off at some depth, and two
values unfold alike if their unfoldings are the same at every depth.

If no list contains itself, a value is nested at most as deep as there are lists, and from
there on its unfolding stays the same. The text of a value is read off its unfolding.

## Main definitions

* `Unfolding`, `Heap.unfoldWithin`: the unfolding of a value down to some depth.
* `Heap.listsWithin`: the lists that it passes, once for every place.
* `Heap.Nested`, `Heap.Acyclic`: the lists nested in a value, when all of them exist and none
  of them contains itself.
* `Heap.Bounded`: the value is nested at most so deep.

## Main results

* `Heap.Acyclic.bounded`: without cycles, nesting is bounded by the number of lists.
* `Heap.within_congr`: the unfolding depends on the lists that it passes.
* `Heap.display_eq_text`: the text of a value is that of its unfolding.
-/

namespace Betty

/-! ### Unfoldings -/

/-- A value with its lists spelled out, down to some depth. -/
inductive Unfolding where
  | leaf (value : Value)
  | list (elements : List Unfolding)
  /-- A list that is nested too deep to be shown. -/
  | deeper

/-- The text of an unfolding. -/
def Unfolding.text : Unfolding → String
  | leaf value => Heap.empty.display value
  | list elements => "[" ++ ", ".intercalate (elements.map text) ++ "]"
  | deeper => "[...]"

namespace Heap

/-- The unfolding of a value down to the given depth. -/
def unfoldWithin (heap : Heap) : Nat → Value → Unfolding
  | 0, .list _ => .deeper
  | depth + 1, .list ref => .list ((heap.items ref).toList.map (unfoldWithin heap depth))
  | _, value => .leaf value

/-- The lists that the unfolding of a value passes, once for every place where it does. -/
def listsWithin (heap : Heap) : Nat → Value → List ListRef
  | depth + 1, .list ref => ref :: (heap.items ref).toList.flatMap (listsWithin heap depth)
  | _, _ => []

/-- The unfolding of a value depends on the lists that it passes, and so does which ones these
are. -/
theorem within_congr {before after : Heap} (depth : Nat) {value : Value}
    (h : ∀ ref ∈ before.listsWithin depth value, after.items ref = before.items ref) :
    after.unfoldWithin depth value = before.unfoldWithin depth value ∧
      after.listsWithin depth value = before.listsWithin depth value := by
  induction depth generalizing value with
  | zero => cases value <;> exact ⟨rfl, rfl⟩
  | succ depth ih =>
    cases value with
    | list ref =>
      have hsame : after.items ref = before.items ref := h ref List.mem_cons_self
      have hitems : ∀ item ∈ (before.items ref).toList,
          after.unfoldWithin depth item = before.unfoldWithin depth item ∧
            after.listsWithin depth item = before.listsWithin depth item := by
        intro item hitem
        refine ih fun other hother => h other (List.mem_cons_of_mem _ ?_)
        exact List.mem_flatMap.2 ⟨item, hitem, hother⟩
      simp only [unfoldWithin, listsWithin, hsame]
      exact ⟨congrArg Unfolding.list (List.map_congr_left fun item hitem => (hitems item hitem).1),
        congrArg (List.cons ref) (List.flatMap_congr fun item hitem => (hitems item hitem).2)⟩
    | _ => exact ⟨rfl, rfl⟩

/-- The text of a value is that of its unfolding. -/
theorem displayWithin_eq_text (heap : Heap) (depth : Nat) (value : Value) :
    heap.displayWithin depth value = (heap.unfoldWithin depth value).text := by
  induction depth generalizing value with
  | zero => cases value <;> simp [displayWithin, unfoldWithin, Unfolding.text, display]
  | succ depth ih =>
    have helement : heap.displayWithin depth = fun item => (heap.unfoldWithin depth item).text :=
      funext ih
    cases value <;>
      simp [displayWithin, unfoldWithin, Unfolding.text, display, Function.comp_def, helement]

theorem display_eq_text (heap : Heap) (value : Value) :
    heap.display value = (heap.unfoldWithin heap.cells.size value).text :=
  heap.displayWithin_eq_text _ value

/-! ### Nested lists -/

/-- The second list is an element of the first one. -/
def Contains (heap : Heap) (outer inner : ListRef) : Prop :=
  Value.list inner ∈ heap.items outer

/-- The list is the value or is nested in it. -/
def Nested (heap : Heap) (value : Value) (ref : ListRef) : Prop :=
  ∃ root, value = .list root ∧ Relation.ReflTransGen heap.Contains root ref

/-- The lists nested in a value exist, and none of them contains itself, however deep. -/
structure Acyclic (heap : Heap) (value : Value) : Prop where
  exist : ∀ ref, heap.Nested value ref → ref < heap.cells.size
  acyclic : ∀ ref, heap.Nested value ref → ¬ Relation.TransGen heap.Contains ref ref

/-- The lists of a value exist and are nested at most this deep. -/
def Bounded (heap : Heap) : Nat → Value → Prop
  | 0, .list _ => False
  | depth + 1, .list ref =>
    ref < heap.cells.size ∧ ∀ item ∈ heap.items ref, Bounded heap depth item
  | _, _ => True

theorem Nested.element {heap : Heap} {root ref : ListRef} {item : Value}
    (h : heap.Nested item ref) (hitem : item ∈ heap.items root) :
    heap.Nested (.list root) ref := by
  obtain ⟨inner, rfl, hpath⟩ := h
  exact ⟨root, rfl, hpath.head hitem⟩

theorem Acyclic.element {heap : Heap} {root : ListRef} {item : Value}
    (h : heap.Acyclic (.list root)) (hitem : item ∈ heap.items root) : heap.Acyclic item :=
  ⟨fun ref href => h.exist ref (href.element hitem),
    fun ref href => h.acyclic ref (href.element hitem)⟩

/-- There are no cycles if every list contains older lists only. -/
theorem acyclic_of_older {heap : Heap}
    (h : ∀ outer inner, heap.Contains outer inner → inner < outer) {root : ListRef}
    (hroot : root < heap.cells.size) : heap.Acyclic (.list root) where
  exist ref hnested := by
    obtain ⟨_, ⟨⟩, hpath⟩ := hnested
    induction hpath with
    | refl => exact hroot
    | tail _ hcontains ih => exact Nat.lt_trans (h _ _ hcontains) ih
  acyclic ref _ hcycle := by
    have hless : ∀ inner, Relation.TransGen heap.Contains ref inner → inner < ref := by
      intro inner hpath
      induction hpath with
      | single hcontains => exact h _ _ hcontains
      | tail _ hcontains ih => exact Nat.lt_trans (h _ _ hcontains) ih
    exact Nat.lt_irrefl ref (hless ref hcycle)

/-- Lists that contain a list without cycles are others than this one. -/
theorem Acyclic.insert_around {heap : Heap} {root : ListRef} (h : heap.Acyclic (.list root))
    {around : Finset ListRef} (hexist : ∀ ref ∈ around, ref < heap.cells.size)
    (haround : ∀ ref ∈ around, Relation.TransGen heap.Contains ref root) :
    root ∉ around ∧ ∀ ref ∈ insert root around, ref < heap.cells.size := by
  have hroot : heap.Nested (.list root) root := ⟨root, rfl, .refl⟩
  refine ⟨fun hmem => h.acyclic root hroot (haround root hmem), fun ref href => ?_⟩
  rcases Finset.mem_insert.1 href with rfl | href
  · exact h.exist ref hroot
  · exact hexist ref href

/-- The more lists there are around a value, the fewer are left to be nested in it. -/
theorem Acyclic.bounded_of_around {heap : Heap} {value : Value} (h : heap.Acyclic value)
    (depth : Nat) (around : Finset ListRef) (hexist : ∀ ref ∈ around, ref < heap.cells.size)
    (haround : ∀ root, value = .list root → ∀ ref ∈ around,
      Relation.TransGen heap.Contains ref root)
    (hdepth : heap.cells.size ≤ depth + around.card) : heap.Bounded depth value := by
  -- Each step inwards uses up one unit of depth and adds one list to those around.
  induction depth generalizing value around with
  | zero =>
    cases value with
    | list root =>
      obtain ⟨hnew, hexist⟩ := h.insert_around hexist (haround root rfl)
      -- with `root` there would be more lists than there are
      have hcard : (insert root around).card ≤ (Finset.range heap.cells.size).card :=
        Finset.card_le_card fun ref href => Finset.mem_range.2 (hexist ref href)
      rw [Finset.card_insert_of_notMem hnew, Finset.card_range] at hcard
      omega
    | _ => trivial
  | succ depth ih =>
    cases value with
    | list root =>
      obtain ⟨hnew, hexist⟩ := h.insert_around hexist (haround root rfl)
      refine ⟨hexist root (Finset.mem_insert_self root around), fun item hitem => ?_⟩
      refine ih (h.element hitem) (insert root around) hexist ?_ ?_
      · rintro inner rfl ref href
        rcases Finset.mem_insert.1 href with rfl | href
        · exact .single hitem
        · exact (haround root rfl ref href).tail hitem
      · rw [Finset.card_insert_of_notMem hnew]
        omega
    | _ => trivial

/-- Without cycles, lists are nested at most as deep as there are lists. -/
theorem Acyclic.bounded {heap : Heap} {value : Value} (h : heap.Acyclic value) :
    heap.Bounded heap.cells.size value :=
  h.bounded_of_around _ ∅ (by simp) (by simp) (by simp)

namespace Bounded

variable {heap : Heap} {depth : Nat} {value : Value}

/-- Every unfolding of a bounded value passes existing lists only. -/
theorem exist (h : heap.Bounded depth value) (deep : Nat) :
    ∀ ref ∈ heap.listsWithin deep value, ref < heap.cells.size := by
  induction deep generalizing depth value with
  | zero => simp [listsWithin]
  | succ deep ih =>
    cases value with
    | list root =>
      cases depth with
      | zero => exact h.elim
      | succ depth =>
        intro ref href
        rcases List.mem_cons.1 href with rfl | href
        · exact h.1
        · obtain ⟨item, hitem, href⟩ := List.mem_flatMap.1 href
          exact ih (h.2 item (Array.mem_toList_iff.1 hitem)) ref href
    | _ => simp [listsWithin]

/-- Below its bound a value unfolds no further. -/
theorem unfoldWithin_eq (h : heap.Bounded depth value) {deep : Nat} (hdeep : depth ≤ deep) :
    heap.unfoldWithin deep value = heap.unfoldWithin depth value := by
  induction depth generalizing deep value with
  | zero =>
    cases value with
    | list root => exact h.elim
    | _ => simp [unfoldWithin]
  | succ depth ih =>
    obtain ⟨deep, rfl⟩ := Nat.exists_eq_add_of_le' (Nat.le_trans (Nat.le_add_left 1 depth) hdeep)
    cases value with
    | list root =>
      refine congrArg Unfolding.list (List.map_congr_left fun item hitem => ?_)
      exact ih (h.2 item (Array.mem_toList_iff.1 hitem)) (Nat.le_of_succ_le_succ hdeep)
    | _ => rfl

/-- A value stays bounded while its lists stay the same and further ones are made. -/
theorem mono (h : heap.Bounded depth value) {after : Heap}
    (hsize : heap.cells.size ≤ after.cells.size)
    (hkept : ∀ ref < heap.cells.size, after.items ref = heap.items ref) :
    after.Bounded depth value := by
  induction depth generalizing value with
  | zero =>
    cases value with
    | list root => exact h.elim
    | _ => trivial
  | succ depth ih =>
    cases value with
    | list root =>
      refine ⟨Nat.lt_of_lt_of_le h.1 hsize, fun item hitem => ih (h.2 item ?_)⟩
      rwa [hkept root h.1] at hitem
    | _ => trivial

end Bounded

end Heap

end Betty
