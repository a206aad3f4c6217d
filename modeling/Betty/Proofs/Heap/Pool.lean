import Betty.Heap

/-!
# What the pool of texts promises

The pool only grows, and it has every text once. So the texts that have been created are equal
if and only if their numbers are, and this stays so whatever is created later. Numbers go round
after 2³² texts: a text that the pool has at a later place is taken for an earlier one, and is
that text from then on. Up to there, a text that is created is the text that was asked for.

## Main definitions

* `Pool.Has`: the pool has a text under its number.
* `pool ≤ later`: the later pool has what the pool has, at the same places.

## Main results

* `Pool.Has.id_eq_iff`: texts have the same number if and only if they are the same.
* `Pool.has_intern`, `Pool.le_intern`: a text that is created is in the pool, with all others.
* `Pool.text_intern_iff`: when a text that is created is the one that was asked for.
-/

namespace Betty

namespace Pool

variable {pool later : Pool} {value other : Interned} {text : String}

/-- The pool has the text under its number. -/
def Has (pool : Pool) (value : Interned) : Prop :=
  pool.texts[value.id.toNat]? = some value.text

/-- A pool comes before the pools that go on from it. -/
instance : LE Pool where
  le pool later := pool.texts.toList <+: later.texts.toList

theorem le_refl (pool : Pool) : pool ≤ pool :=
  List.prefix_rfl

theorem le_trans {last : Pool} (h : pool ≤ later) (h' : later ≤ last) : pool ≤ last :=
  List.IsPrefix.trans h h'

theorem Has.of_le (hvalue : pool.Has value) (h : pool ≤ later) : later.Has value := by
  unfold Has at hvalue ⊢
  rw [← Array.getElem?_toList] at hvalue ⊢
  obtain ⟨hplace, htext⟩ := List.getElem?_eq_some_iff.1 hvalue
  rw [List.prefix_iff_getElem?.1 h _ hplace, htext]

/-- Texts have the same number if and only if they are the same. -/
theorem Has.id_eq_iff (h : pool.Has value) (h' : pool.Has other) :
    value.id = other.id ↔ value.text = other.text := by
  unfold Has at h h'
  constructor
  · intro hid
    rw [hid, h'] at h
    exact (Option.some.inj h).symm
  · intro htext
    rw [← Array.getElem?_toList] at h h'
    rw [← htext] at h'
    obtain ⟨hplace, _⟩ := List.getElem?_eq_some_iff.1 h
    have hsame := (List.getElem?_inj hplace pool.distinct).1 (h.trans h'.symm)
    exact UInt32.toNat_inj.1 hsame

/-- The pool has what it has at any of its places. -/
theorem has_entry {place : Nat} (h : place < pool.texts.size) : pool.Has (pool.entry place) := by
  have hid : (pool.entry place).id.toNat = place % UInt32.size := rfl
  have hlt : (pool.entry place).id.toNat < pool.texts.size :=
    hid ▸ Nat.lt_of_le_of_lt (Nat.mod_le _ _) h
  have htext : (pool.entry place).text = pool.texts.getD (pool.entry place).id.toNat "" := rfl
  unfold Has
  rw [htext, Array.getD_eq_getD_getElem?, Array.getElem?_eq_getElem hlt]
  rfl

theorem getElem?_of_idxOf? {place : Nat} (h : pool.texts.idxOf? text = some place) :
    pool.texts[place]? = some text := by
  obtain ⟨index, hindex, rfl⟩ := Option.map_eq_some_iff.1 h
  exact Array.getElem?_eq_some_iff.2 ⟨index.isLt, (Array.finIdxOf?_eq_some_iff.1 hindex).1⟩

/-- The place at which the pool has a text that has just been created. -/
theorem exists_place (pool : Pool) (text : String) :
    ∃ place, (pool.intern text).2.texts[place]? = some text ∧
      (pool.intern text).1 = (pool.intern text).2.entry place := by
  unfold intern
  split
  · next place hplace => exact ⟨place, getElem?_of_idxOf? hplace, rfl⟩
  · exact ⟨pool.texts.size, Array.getElem?_push_size, rfl⟩

/-- A text that the pool has already is not created again. -/
theorem intern_of_getElem? {place : Nat} (h : pool.texts[place]? = some text) :
    pool.intern text = (pool.entry place, pool) := by
  unfold intern
  split
  · next found hidx =>
    have hfound := getElem?_of_idxOf? hidx
    obtain ⟨hlt, _⟩ := Array.getElem?_eq_some_iff.1 hfound
    have hsame : found = place := by
      refine (List.getElem?_inj hlt pool.distinct).1 ?_
      rw [Array.getElem?_toList, Array.getElem?_toList, h, hfound]
    rw [hsame]
  · next hnone =>
    exact absurd (Array.mem_of_getElem? h) (Array.idxOf?_eq_none_iff.1 hnone)

/-- A text that is created is in the pool. -/
theorem has_intern (pool : Pool) (text : String) :
    (pool.intern text).2.Has (pool.intern text).1 := by
  obtain ⟨place, hplace, hentry⟩ := pool.exists_place text
  rw [hentry]
  exact has_entry (Array.getElem?_eq_some_iff.1 hplace).1

/-- All other texts stay where they are. -/
theorem le_intern (pool : Pool) (text : String) : pool ≤ (pool.intern text).2 := by
  unfold intern
  split
  · exact le_refl pool
  · change pool.texts.toList <+: (pool.texts.push text).toList
    rw [Array.toList_push]
    exact List.prefix_append _ _

/-- At most one text is added. -/
theorem size_intern_le (pool : Pool) (text : String) :
    (pool.intern text).2.texts.size ≤ pool.texts.size + 1 := by
  unfold intern
  split
  · exact Nat.le_succ _
  · exact Nat.le_of_eq (Array.size_push _)

/-- A text that is created is the one that was asked for, if it is among the first 2³² texts of
the pool. Otherwise it is the text that has got its number before. -/
theorem text_intern_iff (pool : Pool) (text : String) :
    (pool.intern text).1.text = text ↔
      text ∈ (pool.intern text).2.texts.toList.take UInt32.size := by
  obtain ⟨place, hplace, hentry⟩ := pool.exists_place text
  have hhas := pool.has_intern text
  have hid : (pool.intern text).1.id.toNat = place % UInt32.size := by
    rw [hentry]
    rfl
  generalize (pool.intern text).2 = after at hplace hentry hhas ⊢
  unfold Has at hhas
  rw [← Array.getElem?_toList] at hplace hhas
  rw [hid] at hhas
  constructor
  · intro htext
    rw [htext] at hhas
    refine List.mem_iff_getElem?.2 ⟨place % UInt32.size, ?_⟩
    rw [List.getElem?_take_of_lt (Nat.mod_lt _ (by decide))]
    exact hhas
  · intro hmem
    obtain ⟨found, hfound⟩ := List.mem_iff_getElem?.1 hmem
    rw [List.getElem?_take] at hfound
    obtain ⟨hlt, hfound⟩ := Option.ite_none_right_eq_some.1 hfound
    obtain ⟨hplacelt, _⟩ := List.getElem?_eq_some_iff.1 hplace
    have hsame : place = found :=
      (List.getElem?_inj hplacelt after.distinct).1 (hplace.trans hfound.symm)
    rw [Nat.mod_eq_of_lt (hsame ▸ hlt), hplace] at hhas
    exact (Option.some.inj hhas).symm

theorem text_intern (h : (pool.intern text).2.texts.size ≤ UInt32.size) :
    (pool.intern text).1.text = text := by
  obtain ⟨place, hplace, _⟩ := pool.exists_place text
  rw [text_intern_iff, List.take_of_length_le h]
  exact Array.mem_toList_iff.2 (Array.mem_of_getElem? hplace)

end Pool

end Betty
