import Betty.Text.Blank
import Betty.Text.Letter
import Betty.Text.Numeral

/-!
# Classes of characters

Blanks, letters and numerals are given by tables of ranges. How the tables lie to each
other is decided from their entries.

## Main results

* `inRanges_disjoint`: no character lies in two tables whose ranges do not meet.
* `isBlank_apart`: blanks are neither letters nor numerals.
* `trimBlanks_eq_self`: a text without blanks is not trimmed.
-/

namespace Betty.Text

/-- No character lies in two tables whose ranges do not meet. -/
theorem inRanges_disjoint {ranges others : List (Nat × Nat)} {c : Char}
    (hapart : ranges.all fun r => others.all fun s => r.2 < s.1 || s.2 < r.1)
    (h : inRanges ranges c) : inRanges others c = false := by
  simp only [inRanges, List.any_eq_true, Bool.and_eq_true, decide_eq_true_eq] at h
  obtain ⟨r, hr, hlow, hhigh⟩ := h
  rw [Bool.eq_false_iff]
  intro hother
  simp only [inRanges, List.any_eq_true, Bool.and_eq_true, decide_eq_true_eq] at hother
  obtain ⟨s, hs, hlow', hhigh'⟩ := hother
  have hrs := List.all_eq_true.1 (List.all_eq_true.1 hapart r hr) s hs
  simp only [Bool.or_eq_true, decide_eq_true_eq] at hrs
  omega

theorem inRanges_mono {ranges others : List (Nat × Nat)} {c : Char}
    (hmem : ∀ r ∈ ranges, r ∈ others) (h : inRanges ranges c) : inRanges others c := by
  rw [inRanges, List.any_eq_true] at h ⊢
  obtain ⟨r, hr, hc⟩ := h
  exact ⟨r, hmem r hr, hc⟩

theorem isAlpha_iff {c : Char} : c.isAlpha ↔ inRanges [(0x41, 0x5a), (0x61, 0x7a)] c := by
  have halpha : c.isAlpha = (decide ('A'.val ≤ c.val ∧ c.val ≤ 'Z'.val) ||
      (decide ('a'.val ≤ c.val) && decide (c.val ≤ 'z'.val))) := rfl
  simp [halpha, inRanges, UInt32.le_iff_toNat_le]

theorem isDigit_iff {c : Char} : c.isDigit ↔ inRanges [(0x30, 0x39)] c := by
  have hdigit : c.isDigit = (decide ('0'.val ≤ c.val) && decide (c.val ≤ '9'.val)) := rfl
  simp [hdigit, inRanges, UInt32.le_iff_toNat_le]

theorem inRanges_of_isLetter {c : Char} (h : isLetter c) : inRanges letterRanges c := by
  unfold isLetter at h
  split at h
  · exact inRanges_mono (by decide) (isAlpha_iff.1 h)
  · exact h

theorem inRanges_of_isNumeral {c : Char} (h : isNumeral c) : inRanges numeralRanges c := by
  unfold isNumeral at h
  split at h
  · exact inRanges_mono (by decide) (isDigit_iff.1 h)
  · exact h

theorem isLetter_of_isAlpha {c : Char} (h : c.isAlpha) : isLetter c := by
  unfold isLetter
  split
  · exact h
  · exact inRanges_mono (by decide) (isAlpha_iff.1 h)

theorem isNumeral_of_isDigit {c : Char} (h : c.isDigit) : isNumeral c := by
  unfold isNumeral
  split
  · exact h
  · exact inRanges_mono (by decide) (isDigit_iff.1 h)

/-- The digits are no letters. -/
theorem isLetter_of_isDigit {c : Char} (h : c.isDigit) : isLetter c = false := by
  have hapart : inRanges letterRanges c = false :=
    inRanges_disjoint (by decide +kernel) (isDigit_iff.1 h)
  rw [Bool.eq_false_iff]
  intro hletter
  rw [inRanges_of_isLetter hletter] at hapart
  cases hapart

/-- Blanks are neither letters nor numerals. -/
theorem isBlank_apart {c : Char} (h : isBlank c) : isLetter c = false ∧ isNumeral c = false := by
  have hletter : inRanges letterRanges c = false := inRanges_disjoint (by decide +kernel) h
  have hnumeral : inRanges numeralRanges c = false := inRanges_disjoint (by decide +kernel) h
  refine ⟨Bool.eq_false_iff.2 fun h => ?_, Bool.eq_false_iff.2 fun h => ?_⟩
  · rw [inRanges_of_isLetter h] at hletter
    cases hletter
  · rw [inRanges_of_isNumeral h] at hnumeral
    cases hnumeral

theorem isBlank_of_isDigit {c : Char} (h : c.isDigit) : isBlank c = false := by
  rw [Bool.eq_false_iff]
  intro hblank
  have hapart := (isBlank_apart hblank).2
  rw [isNumeral_of_isDigit h] at hapart
  cases hapart

/-- A text without blanks is not trimmed. -/
theorem trimBlanks_eq_self {cs : List Char} (h : ∀ c ∈ cs, isBlank c = false) :
    trimBlanks cs = cs := by
  have hnone : ∀ {l : List Char}, (∀ c ∈ l, isBlank c = false) → l.dropWhile isBlank = l := by
    intro l hl
    cases l with
    | nil => rfl
    | cons c l => simp [hl c List.mem_cons_self]
  unfold trimBlanks
  rw [hnone h, hnone fun c hc => h c (List.mem_reverse.1 hc), List.reverse_reverse]

end Betty.Text
