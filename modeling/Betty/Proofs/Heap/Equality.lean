import Betty.Proofs.Heap.Unfold
import Betty.Proofs.Number.Equality
import Betty.Proofs.Reach
import Betty.Proofs.Scope

/-!
# The laws of equality and order

Equality is made of several parts: numbers and characters are compared as numbers, texts by
their numbers in the pool, lists are equal if they are the same list or have equal elements, and
all else is compared by what it is. The parts fit together: equality is symmetric and
transitive, and it is reflexive except on a value that is not a number. The order of texts goes
by what they say, and it fits to equality because the pool has every text once.

## Main definitions

* `Heap.AlikeWithin`: equality of values whose lists are nested at most so deep, as a relation.
* `Heap.Holds`, `Heap.Fails`: a comparison yields `true` or `false`.

## Main results

* `Heap.sameWithin_iff`: the relation is what is computed.
* `Heap.Acyclic.same_list_iff`: without cycles, the limit to the depth is not met.
* `equality_and_order_coherent`: the laws of equality and of the order of texts.
-/

namespace Betty

/-- Functions are the same if they are written at the same place. -/
theorem Declaration.same_iff {a b : Declaration} :
    a.same b = true ↔ a.source = b.source ∧ a.position = b.position := by
  simp [Declaration.same]

namespace Heap

/-! ### Equality up to a depth -/

/-- Equality of values whose lists are nested at most `depth` deep. -/
inductive AlikeWithin (heap : Heap) : Nat → Value → Value → Prop
  | number {depth : Nat} {a b : Float} (h : a == b) :
    AlikeWithin heap depth (.number a) (.number b)
  | text {depth : Nat} {a b : Interned} (h : a.id = b.id) :
    AlikeWithin heap depth (.text a) (.text b)
  | boolean (depth : Nat) (value : Bool) :
    AlikeWithin heap depth (.boolean value) (.boolean value)
  | character (depth : Nat) (value : Char) :
    AlikeWithin heap depth (.character value) (.character value)
  | function {depth : Nat} {a b : Closure} (hsource : a.declaration.source = b.declaration.source)
    (hposition : a.declaration.position = b.declaration.position) :
    AlikeWithin heap depth (.function a) (.function b)
  | none (depth : Nat) : AlikeWithin heap depth .none .none
  | list (depth : Nat) (ref : ListRef) : AlikeWithin heap depth (.list ref) (.list ref)
  | elements {depth : Nat} {a b : ListRef} (hsize : (heap.items a).size = (heap.items b).size)
    (h : ∀ (i : Nat) (ha : i < (heap.items a).size) (hb : i < (heap.items b).size),
      AlikeWithin heap depth (heap.items a)[i] (heap.items b)[i]) :
    AlikeWithin heap (depth + 1) (.list a) (.list b)

variable {heap : Heap} {depth : Nat} {left middle right value : Value}

theorem all_zip_iff {test : Value → Value → Bool} {xs ys : Array Value} (h : xs.size = ys.size) :
    ((xs.toList.zip ys.toList).all fun pair => test pair.1 pair.2) = true ↔
      ∀ (i : Nat) (hx : i < xs.size) (hy : i < ys.size), test xs[i] ys[i] = true := by
  rw [List.all_eq_true, List.forall_mem_iff_getElem]
  simp [h]

theorem sameWithin_list_iff {a b : ListRef} :
    heap.sameWithin (depth + 1) (.list a) (.list b) = true ↔
      a = b ∨ (heap.items a).size = (heap.items b).size ∧
        ∀ (i : Nat) (ha : i < (heap.items a).size) (hb : i < (heap.items b).size),
          heap.sameWithin depth (heap.items a)[i] (heap.items b)[i] = true := by
  rw [sameWithin, Bool.or_eq_true, Bool.and_eq_true, beq_iff_eq, beq_iff_eq]
  exact or_congr_right (and_congr_right all_zip_iff)

/-- The relation is what is computed. -/
theorem sameWithin_iff :
    heap.sameWithin depth left right = true ↔ heap.AlikeWithin depth left right := by
  constructor
  · intro h
    fun_induction heap.sameWithin depth left right with
    | case1 depth a b => exact .number h
    | case2 depth a b => exact .text (eq_of_beq h)
    | case3 depth a b => exact eq_of_beq h ▸ .boolean depth a
    | case4 depth a b => exact eq_of_beq h ▸ .character depth a
    | case5 depth a b =>
      obtain ⟨hsource, hposition⟩ := Declaration.same_iff.1 h
      exact .function hsource hposition
    | case6 depth => exact .none depth
    | case7 a b => exact eq_of_beq h ▸ .list 0 a
    | case8 depth a b ih =>
      rcases sameWithin_list_iff.1 h with rfl | ⟨hsize, helements⟩
      · exact .list _ a
      · exact .elements hsize fun i ha hb => ih (_, _) (helements i ha hb)
    | case9 => cases h
  · intro h
    induction h with
    | number h => simpa [sameWithin] using h
    | text h => simpa [sameWithin] using h
    | function hsource hposition =>
      simpa [sameWithin] using Declaration.same_iff.2 ⟨hsource, hposition⟩
    | list depth ref => cases depth <;> simp [sameWithin]
    | elements hsize _ ih => exact sameWithin_list_iff.2 (.inr ⟨hsize, ih⟩)
    | _ => simp [sameWithin]

namespace AlikeWithin

theorem symm (h : heap.AlikeWithin depth left right) : heap.AlikeWithin depth right left := by
  induction h with
  | number h => exact .number (Number.beq_symm h)
  | text h => exact .text h.symm
  | boolean depth value => exact .boolean depth value
  | character depth value => exact .character depth value
  | function hsource hposition => exact .function hsource.symm hposition.symm
  | none depth => exact .none depth
  | list depth ref => exact .list depth ref
  | elements hsize _ ih => exact .elements hsize.symm fun i hb ha => ih i ha hb

theorem trans (h : heap.AlikeWithin depth left middle) (h' : heap.AlikeWithin depth middle right) :
    heap.AlikeWithin depth left right := by
  induction h generalizing right with
  | number h =>
    cases h' with
    | number h' => exact .number (Number.beq_trans h h')
  | text h =>
    cases h' with
    | text h' => exact .text (h.trans h')
  | function hsource hposition =>
    cases h' with
    | function hsource' hposition' =>
      exact .function (hsource.trans hsource') (hposition.trans hposition')
  | elements hsize helements ih =>
    cases h' with
    | list => exact .elements hsize helements
    | elements hsize' helements' =>
      refine .elements (hsize.trans hsize') fun i ha hc => ?_
      exact ih i ha (hsize ▸ ha) (helements' i (hsize ▸ ha) hc)
  | _ => exact h'

/-- Every value is equal to itself, unless it is a number that is none. -/
theorem self (h : ∀ x, value = .number x → x.isNaN = false) :
    heap.AlikeWithin depth value value := by
  cases value with
  | number x => exact .number (by rw [Number.beq_self, h x rfl]; rfl)
  | text value => exact .text rfl
  | boolean value => exact .boolean depth value
  | character value => exact .character depth value
  | list ref => exact .list depth ref
  | function closure => exact .function rfl rfl
  | none => exact .none depth

/-- How deep one may look does not matter, from the depth on that the lists of a value have. -/
theorem of_bounded (h : heap.AlikeWithin depth left right) {bound : Nat}
    (hbound : heap.Bounded bound left) : heap.AlikeWithin bound left right := by
  induction h generalizing bound with
  | number h => exact .number h
  | text h => exact .text h
  | boolean depth value => exact .boolean bound value
  | character depth value => exact .character bound value
  | function hsource hposition => exact .function hsource hposition
  | none depth => exact .none bound
  | list depth ref => exact .list bound ref
  | elements hsize _ ih =>
    cases bound with
    | zero => exact hbound.elim
    | succ bound =>
      exact .elements hsize fun i ha hb => ih i ha hb (hbound.2 _ (Array.getElem_mem ha))

end AlikeWithin

/-- Lists without cycles are equal if they are the same list or their elements are equal one
by one, however deep they are nested. -/
theorem Acyclic.same_list_iff {a b : ListRef} (h : heap.Acyclic (.list a)) :
    heap.same (.list a) (.list b) = true ↔
      a = b ∨ (heap.items a).size = (heap.items b).size ∧
        ∀ (i : Nat) (ha : i < (heap.items a).size) (hb : i < (heap.items b).size),
          heap.same (heap.items a)[i] (heap.items b)[i] = true := by
  have hbounded := h.bounded
  unfold same
  generalize hcount : heap.cells.size = count at hbounded
  cases count with
  | zero => exact hbounded.elim
  | succ count =>
    rw [sameWithin_list_iff]
    refine or_congr_right (and_congr_right fun _ => forall_congr' fun i => forall_congr' fun ha =>
      forall_congr' fun hb => ?_)
    -- The list compares its elements one level less deep, which is still deep enough for them.
    have hitem := Array.getElem_mem ha
    have hdeep : heap.Bounded (count + 1) (heap.items a)[i] := hcount ▸ (h.element hitem).bounded
    rw [sameWithin_iff, sameWithin_iff]
    exact ⟨fun h => h.of_bounded hdeep, fun h => h.of_bounded (hbounded.2 _ hitem)⟩

/-! ### Equality of the language -/

/-- Numbers and characters are compared as numbers, and other values as they are. -/
theorem equalValues_iff :
    equalValues heap left right = true ↔
      (∃ x y, left.number? = some x ∧ right.number? = some y ∧ x == y) ∨
        left.number? = none ∧ right.number? = none ∧ heap.same left right = true := by
  cases left <;> cases right <;>
    simp [equalValues, compareValues, compareNumbers, Value.number?, same, sameWithin]

theorem equalValues_symm (h : equalValues heap left right = true) :
    equalValues heap right left = true := by
  rw [equalValues_iff] at h ⊢
  rcases h with ⟨x, y, hx, hy, hsame⟩ | ⟨hleft, hright, hsame⟩
  · exact .inl ⟨y, x, hy, hx, Number.beq_symm hsame⟩
  · exact .inr ⟨hright, hleft, sameWithin_iff.2 (sameWithin_iff.1 hsame).symm⟩

theorem equalValues_trans (h : equalValues heap left middle = true)
    (h' : equalValues heap middle right = true) : equalValues heap left right = true := by
  rw [equalValues_iff] at h h' ⊢
  rcases h with ⟨x, y, hx, hy, hsame⟩ | ⟨hleft, hmiddle, hsame⟩
  · rcases h' with ⟨y', z, hy', hz, hsame'⟩ | ⟨hmiddle', -, -⟩
    · obtain rfl : y = y' := Option.some.inj (hy.symm.trans hy')
      exact .inl ⟨x, z, hx, hz, Number.beq_trans hsame hsame'⟩
    · simp [hy] at hmiddle'
  · rcases h' with ⟨y', z, hy', -, -⟩ | ⟨-, hright, hsame'⟩
    · simp [hmiddle] at hy'
    · exact .inr ⟨hleft, hright,
        sameWithin_iff.2 ((sameWithin_iff.1 hsame).trans (sameWithin_iff.1 hsame'))⟩

theorem equalValues_self_iff :
    equalValues heap value value = true ↔ ¬ ∃ x, value = .number x ∧ x.isNaN = true := by
  constructor
  · rintro h ⟨x, rfl, hnan⟩
    have hself : (x == x) = true := h
    rw [Number.beq_self, hnan] at hself
    cases hself
  · intro h
    have hnumber : ∀ x, value = .number x → x.isNaN = false :=
      fun x hx => Bool.eq_false_iff.2 fun hnan => h ⟨x, hx, hnan⟩
    cases value with
    | number x => exact (Number.beq_self x).trans (by rw [hnumber x rfl]; rfl)
    | character value => exact (Number.beq_self _).trans (by rw [Number.isNaN_toFloat]; rfl)
    | _ => exact equalValues_iff.2 (.inr ⟨rfl, rfl, sameWithin_iff.2 (.self hnumber)⟩)

/-- The comparison yields `true`. -/
def Holds (heap : Heap) (op : BinaryOp) (left right : Value) : Prop :=
  applyBinary op left right heap = .done (.boolean true) heap

/-- The comparison yields `false`. -/
def Fails (heap : Heap) (op : BinaryOp) (left right : Value) : Prop :=
  applyBinary op left right heap = .done (.boolean false) heap

theorem holds_iff {op : BinaryOp} {answer : Bool}
    (h : applyBinary op left right heap = .done (.boolean answer) heap) :
    heap.Holds op left right ↔ answer = true := by
  simp [Holds, h]

theorem fails_iff {op : BinaryOp} {answer : Bool}
    (h : applyBinary op left right heap = .done (.boolean answer) heap) :
    heap.Fails op left right ↔ answer = false := by
  simp [Fails, h]

theorem applyBinary_eq :
    applyBinary .eq left right heap = .done (.boolean (equalValues heap left right)) heap := by
  cases left <;> cases right <;> rfl

theorem applyBinary_ne :
    applyBinary .ne left right heap = .done (.boolean (!equalValues heap left right)) heap := by
  cases left <;> cases right <;> rfl

/-- `==` always has an answer, and `!=` has the opposite one. -/
theorem eq_answers (heap : Heap) (left right : Value) :
    (heap.Holds .eq left right ∨ heap.Fails .eq left right) ∧
      (heap.Holds .ne left right ↔ heap.Fails .eq left right) ∧
      (heap.Fails .ne left right ↔ heap.Holds .eq left right) := by
  rw [holds_iff applyBinary_eq, fails_iff applyBinary_eq, holds_iff applyBinary_ne,
    fails_iff applyBinary_ne]
  cases equalValues heap left right <;> decide

/-! ### The order of texts -/

section Texts

variable {op : BinaryOp} {a b : Interned} {answer : Bool}

theorem applyBinary_text (h : compareTexts? op a.text b.text = some answer) :
    applyBinary op (.text a) (.text b) heap = .done (.boolean answer) heap := by
  cases op with
  | lt | le | gt | ge => cases h; rfl
  | _ => cases h

/-- Texts of the pool are equal if they say the same. -/
theorem holds_eq_text_iff (ha : heap.texts.Has a) (hb : heap.texts.Has b) :
    heap.Holds .eq (.text a) (.text b) ↔ a.text = b.text := by
  rw [holds_iff applyBinary_eq, equalValues_iff, ← ha.id_eq_iff hb]
  simp [Value.number?, same, sameWithin]

theorem holds_lt_text_iff : heap.Holds .lt (.text a) (.text b) ↔ a.text < b.text := by
  rw [holds_iff (applyBinary_text rfl), decide_eq_true_iff]

theorem holds_gt_text_iff : heap.Holds .gt (.text a) (.text b) ↔ b.text < a.text := by
  rw [holds_iff (applyBinary_text rfl), decide_eq_true_iff]

theorem holds_le_text_iff :
    heap.Holds .le (.text a) (.text b) ↔ a.text < b.text ∨ a.text = b.text := by
  rw [holds_iff (applyBinary_text rfl), Bool.or_eq_true, decide_eq_true_iff, beq_iff_eq]

theorem holds_ge_text_iff :
    heap.Holds .ge (.text a) (.text b) ↔ b.text < a.text ∨ a.text = b.text := by
  rw [holds_iff (applyBinary_text rfl), Bool.or_eq_true, decide_eq_true_iff, beq_iff_eq]

/-- Every comparison of two texts has an answer. -/
theorem text_answers (heap : Heap) (a b : Interned) {op : BinaryOp}
    (h : op ∈ [BinaryOp.lt, .le, .gt, .ge]) :
    heap.Holds op (.text a) (.text b) ∨ heap.Fails op (.text a) (.text b) := by
  obtain ⟨answer, hanswer⟩ : ∃ answer, compareTexts? op a.text b.text = some answer := by
    simp only [List.mem_cons, List.not_mem_nil, or_false] at h
    rcases h with rfl | rfl | rfl | rfl <;> exact ⟨_, rfl⟩
  rw [holds_iff (applyBinary_text hanswer), fails_iff (applyBinary_text hanswer)]
  cases answer <;> decide

/-- One text is less than, equal to or greater than another one, and only one of these. -/
theorem text_trichotomy (ha : heap.texts.Has a) (hb : heap.texts.Has b) :
    ∃! op, op ∈ [BinaryOp.lt, .eq, .gt] ∧ heap.Holds op (.text a) (.text b) := by
  simp only [List.mem_cons, List.not_mem_nil, or_false]
  rcases Decidable.em (a.text < b.text) with hless | hless
  · refine ⟨.lt, ⟨.inl rfl, holds_lt_text_iff.2 hless⟩, ?_⟩
    rintro op ⟨rfl | rfl | rfl, h⟩
    · rfl
    · exact absurd ((holds_eq_text_iff ha hb).1 h) (String.ne_of_lt hless)
    · exact absurd (holds_gt_text_iff.1 h) (String.lt_asymm hless)
  · rcases Decidable.em (b.text < a.text) with hgreater | hgreater
    · refine ⟨.gt, ⟨.inr (.inr rfl), holds_gt_text_iff.2 hgreater⟩, ?_⟩
      rintro op ⟨rfl | rfl | rfl, h⟩
      · exact absurd (holds_lt_text_iff.1 h) hless
      · exact absurd ((holds_eq_text_iff ha hb).1 h).symm (String.ne_of_lt hgreater)
      · rfl
    · have hsame : a.text = b.text := String.le_antisymm hgreater hless
      refine ⟨.eq, ⟨.inr (.inl rfl), (holds_eq_text_iff ha hb).2 hsame⟩, ?_⟩
      rintro op ⟨rfl | rfl | rfl, h⟩
      · exact absurd (holds_lt_text_iff.1 h) hless
      · rfl
      · exact absurd (holds_gt_text_iff.1 h) hgreater

end Texts

end Heap

/-- A text that is created is in the pool. It is the text that was asked for, if that is among
the first 2³² texts of the pool. -/
theorem HeapAction.newText_eq (text : String) (heap : Heap) :
    ∃ value after, HeapAction.newText text heap = .done (.text value) after ∧
      heap.texts ≤ after.texts ∧ after.texts.Has value ∧
      (value.text = text ↔ text ∈ after.texts.texts.toList.take UInt32.size) :=
  ⟨_, _, rfl, heap.texts.le_intern text, heap.texts.has_intern text,
    heap.texts.text_intern_iff text⟩

/-- No request to a machine gives a text back, however it ends. -/
theorem Request.action_texts (fuel : Nat) (request : Request) (machine : Machine) :
    (request.action fuel machine).Meets (fun _ after => machine.heap.texts ≤ after.heap.texts)
      (fun _ after => machine.heap.texts ≤ after.heap.texts) True := by
  have hbind : ∀ {env} name, (Policy.within (Region.whole machine)).environment env →
      (Policy.within (Region.whole machine)).environment (env.bindGlobal name .none) :=
    fun name henv => Environment.Within.bindGlobal henv name trivial
  obtain ⟨_, hlawful⟩ := request.plan_lawful CodePolicy.any_allows
    (fun value => value.within_whole machine) hbind fuel
  rw [← request.run_plan fuel]
  exact (hlawful.keeps machine.holds_whole).imp (fun _ _ hdone => hdone.2.heap.texts)
    (fun _ _ hfailed => hfailed.2.heap.texts) id

theorem Machine.Serves.texts {start finish : Machine} {requests : List Request}
    (h : start.Serves requests finish) : start.heap.texts ≤ finish.heap.texts :=
  h.relates (fun before after => before.heap.texts ≤ after.heap.texts) (fun _ => Pool.le_refl _)
    Pool.le_trans Request.action_texts

/-- Two texts that are created, with anything else between, are equal if and only if they were
asked for as the same text, as long as there are not too many. -/
theorem Heap.holds_eq_created_iff {heap middle between after : Heap} {first second : String}
    {a b : Interned} (ha : HeapAction.newText first heap = .done (.text a) middle)
    (hbetween : middle.texts ≤ between.texts)
    (hb : HeapAction.newText second between = .done (.text b) after)
    (hsize : after.texts.texts.size ≤ UInt32.size) :
    after.Holds .eq (.text a) (.text b) ↔ first = second := by
  have hfirst : a = (heap.texts.intern first).1 ∧ middle.texts = (heap.texts.intern first).2 := by
    cases ha
    exact ⟨rfl, rfl⟩
  have hsecond :
      b = (between.texts.intern second).1 ∧ after.texts = (between.texts.intern second).2 := by
    cases hb
    exact ⟨rfl, rfl⟩
  have hlater : middle.texts ≤ after.texts := by
    rw [hsecond.2]
    exact Pool.le_trans hbetween (between.texts.le_intern second)
  have hhasa : after.texts.Has a := by
    rw [hfirst.2] at hlater
    rw [hfirst.1]
    exact (heap.texts.has_intern first).of_le hlater
  have hhasb : after.texts.Has b := by
    rw [hsecond.1, hsecond.2]
    exact between.texts.has_intern second
  have htexta : a.text = first := by
    rw [hfirst.2] at hlater
    rw [hfirst.1]
    exact Pool.text_intern (Nat.le_trans (List.IsPrefix.length_le hlater) hsize)
  have htextb : b.text = second := by
    rw [hsecond.2] at hsize
    rw [hsecond.1]
    exact Pool.text_intern hsize
  rw [holds_eq_text_iff hhasa hhasb, htexta, htextb]

/-- The laws of equality and order, whatever lists and texts there are. Both `==` and `!=` have
an answer for any two values, and never the same one; `switch` and the search in lists ask the
same. Equality is symmetric and transitive, and it is reflexive except on a value that is not a
number. A number and a character are equal if the code point is the number. Lists without
cycles are equal if they are the same list or their elements are equal one by one.

Texts are equal if they say the same. Of two texts, one is less than, equal to or greater than
the other, and the other comparisons agree with these. This is said of texts that the pool has.
The texts that are created are such texts, and they stay so whatever programs are run and
functions are called later. Two of them are equal if and only if they were asked for as the same
text, as long as there are no more than 2³² of them. -/
theorem equality_and_order_coherent (heap : Heap) :
    (∀ left right,
      (heap.Holds .eq left right ∨ heap.Fails .eq left right) ∧
      (heap.Holds .ne left right ↔ heap.Fails .eq left right) ∧
      (heap.Fails .ne left right ↔ heap.Holds .eq left right)) ∧
    (∀ left right, equalValues heap left right = true ↔ heap.Holds .eq left right) ∧
    (∀ left right, heap.Holds .eq left right → heap.Holds .eq right left) ∧
    (∀ left middle right, heap.Holds .eq left middle → heap.Holds .eq middle right →
      heap.Holds .eq left right) ∧
    (∀ value, heap.Holds .eq value value ↔ ¬ ∃ x, value = .number x ∧ x.isNaN = true) ∧
    (∀ left right x y, left.number? = some x → right.number? = some y →
      (heap.Holds .eq left right ↔ x == y)) ∧
    (∀ a b, heap.Acyclic (.list a) →
      (heap.Holds .eq (.list a) (.list b) ↔
        a = b ∨ (heap.items a).size = (heap.items b).size ∧
          ∀ (i : Nat) (ha : i < (heap.items a).size) (hb : i < (heap.items b).size),
            heap.same (heap.items a)[i] (heap.items b)[i] = true)) ∧
    (∀ a b, heap.texts.Has a → heap.texts.Has b →
      (heap.Holds .eq (.text a) (.text b) ↔ a.text = b.text)) ∧
    (∀ a b (op : BinaryOp), op ∈ [BinaryOp.lt, .le, .gt, .ge] →
      heap.Holds op (.text a) (.text b) ∨ heap.Fails op (.text a) (.text b)) ∧
    (∀ a b, heap.texts.Has a → heap.texts.Has b →
      ∃! op, op ∈ [BinaryOp.lt, .eq, .gt] ∧ heap.Holds op (.text a) (.text b)) ∧
    (∀ a b, heap.texts.Has a → heap.texts.Has b →
      (heap.Holds .le (.text a) (.text b) ↔
        heap.Holds .lt (.text a) (.text b) ∨ heap.Holds .eq (.text a) (.text b)) ∧
      (heap.Holds .ge (.text a) (.text b) ↔
        heap.Holds .gt (.text a) (.text b) ∨ heap.Holds .eq (.text a) (.text b))) ∧
    (∀ a b c, heap.Holds .lt (.text a) (.text b) → heap.Holds .lt (.text b) (.text c) →
      heap.Holds .lt (.text a) (.text c)) ∧
    (∀ text, ∃ value after, HeapAction.newText text heap = .done (.text value) after ∧
      heap.texts ≤ after.texts ∧ after.texts.Has value ∧
      (value.text = text ↔ text ∈ after.texts.texts.toList.take UInt32.size)) ∧
    (∀ (start finish : Machine) (requests : List Request), start.heap = heap →
      start.Serves requests finish → heap.texts ≤ finish.heap.texts) ∧
    (∀ value (later : Heap), heap.texts.Has value → heap.texts ≤ later.texts →
      later.texts.Has value) ∧
    ∀ first second a b (middle between after : Heap),
      HeapAction.newText first heap = .done (.text a) middle → middle.texts ≤ between.texts →
      HeapAction.newText second between = .done (.text b) after →
      after.texts.texts.size ≤ UInt32.size →
      (after.Holds .eq (.text a) (.text b) ↔ first = second) := by
  have heq : ∀ {left right}, heap.Holds .eq left right ↔ equalValues heap left right = true :=
    Heap.holds_iff Heap.applyBinary_eq
  refine ⟨heap.eq_answers, fun _ _ => heq.symm, ?_, ?_, ?_, ?_, ?_,
    fun _ _ => Heap.holds_eq_text_iff, fun a b op => heap.text_answers a b,
    fun _ _ => Heap.text_trichotomy, ?_, ?_, fun text => HeapAction.newText_eq text heap,
    fun _ _ _ hstart hserves => hstart ▸ hserves.texts, fun _ _ hvalue => hvalue.of_le,
    fun _ _ _ _ _ _ _ => Heap.holds_eq_created_iff⟩
  · exact fun left right h => heq.2 (Heap.equalValues_symm (heq.1 h))
  · exact fun left middle right h h' => heq.2 (Heap.equalValues_trans (heq.1 h) (heq.1 h'))
  · exact fun value => heq.trans Heap.equalValues_self_iff
  · intro left right x y hx hy
    rw [heq, Heap.equalValues_iff]
    simp [hx, hy]
  · intro a b hacyclic
    rw [heq, Heap.equalValues_iff, ← hacyclic.same_list_iff]
    simp [Value.number?]
  · intro a b ha hb
    rw [Heap.holds_le_text_iff, Heap.holds_ge_text_iff, Heap.holds_lt_text_iff,
      Heap.holds_gt_text_iff, Heap.holds_eq_text_iff ha hb]
    exact ⟨.rfl, .rfl⟩
  · intro a b c h h'
    rw [Heap.holds_lt_text_iff] at h h' ⊢
    exact String.lt_trans h h'

/-- Two pairs of lists, which share one of these, and three texts. -/
def Heap.overlapping : Heap where
  cells := #[#[.character 'a'], #[.list 0, .list 0], #[.character 'a'], #[.list 2, .list 0]]
  texts := ⟨#["b", "a", "ba"], by decide⟩
  functions := 0

theorem Heap.overlapping_acyclic : Heap.overlapping.Acyclic (.list 1) := by
  refine acyclic_of_older (fun outer inner hcontains => ?_) (by decide)
  match outer with
  | 0 | 2 => simp [Contains, overlapping, items] at hcontains
  | 1 =>
    have hinner : inner = 0 := by simpa [Contains, overlapping, items] using hcontains
    exact hinner ▸ Nat.zero_lt_one
  | 3 =>
    have hinner : inner = 2 ∨ inner = 0 := by
      simpa [Contains, overlapping, items] using hcontains
    rcases hinner with rfl | rfl <;> decide
  | outer + 4 => simp [Contains, overlapping, items] at hcontains

/-- The pairs are equal, since their elements are, both ways round. A character is equal to the
number of its code point. Texts are ordered by what they say and not by their numbers, and one
that is created a second time is equal to the first one. -/
theorem equality_and_order_coherent_overlapping :
    let heap := Heap.overlapping
    let b : Interned := ⟨0, "b"⟩
    let a : Interned := ⟨1, "a"⟩
    let ba : Interned := ⟨2, "ba"⟩
    heap.Acyclic (.list 1) ∧ heap.Holds .eq (.list 1) (.list 3) ∧
    heap.Holds .eq (.list 3) (.list 1) ∧ heap.Fails .ne (.list 3) (.list 1) ∧
    heap.Holds .eq (.character 'a') (.number 'a'.val.toFloat) ∧
    heap.texts.Has a ∧ heap.texts.Has b ∧ ¬ heap.Holds .eq (.text a) (.text b) ∧
    heap.Holds .lt (.text a) (.text b) ∧ heap.Holds .lt (.text b) (.text ba) ∧
    heap.Holds .lt (.text a) (.text ba) ∧
    HeapAction.newText "b" heap = .done (.text b) heap ∧
    heap.Holds .eq (.text b) (.text b) := by
  intro heap b a ba
  obtain ⟨hanswers, -, hsymm, -, -, hnumbers, hlists, htexts, -, -, -, hless, -, -, -, hcreated⟩ :=
    equality_and_order_coherent Heap.overlapping
  have hpairs : heap.Holds .eq (.list 1) (.list 3) := by
    refine (hlists 1 3 Heap.overlapping_acyclic).2 (.inr ⟨rfl, fun i ha _ => ?_⟩)
    match i with
    | 0 => rfl
    | 1 => rfl
  have hcode : heap.Holds .eq (.character 'a') (.number 'a'.val.toFloat) := by
    refine (hnumbers (.character 'a') (.number 'a'.val.toFloat) _ _ rfl rfl).2 ?_
    rw [Number.beq_self, Number.isNaN_toFloat]
    rfl
  have hhasa : heap.texts.Has a := rfl
  have hhasb : heap.texts.Has b := rfl
  have hdiffer : ¬ heap.Holds .eq (.text a) (.text b) := by
    rw [htexts a b hhasa hhasb]
    decide
  have hab : heap.Holds .lt (.text a) (.text b) := Heap.holds_lt_text_iff.2 (by decide)
  have hbba : heap.Holds .lt (.text b) (.text ba) := Heap.holds_lt_text_iff.2 (by decide)
  have hnew : HeapAction.newText "b" heap = .done (.text b) heap := by
    have hplace : heap.texts.texts[0]? = some "b" := rfl
    unfold HeapAction.newText
    dsimp only
    rw [Pool.intern_of_getElem? hplace]
    rfl
  exact ⟨Heap.overlapping_acyclic, hpairs, hsymm _ _ hpairs,
    ((hanswers _ _).2.2).2 (hsymm _ _ hpairs), hcode, hhasa, hhasb, hdiffer, hab, hbba,
    hless _ _ _ hab hbba, hnew,
    (hcreated "b" "b" b b heap heap heap hnew (Pool.le_refl _) hnew (by decide)).2 rfl⟩

end Betty
