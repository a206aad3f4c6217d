import Betty.Proofs.Token.Partition
import Betty.Proofs.Token.Written

/-!
# Numerals in a text

Where a number starts, reading takes the longest row of digits and points in which no point
stands before another point. So two points in a row are always left for the sign of a range,
whatever stands before them. A row with two or more points is an error; any other row is a
decimal numeral, so that there is no text that looks like a number and cannot be read as one.

## Main definitions

* `DecimalRun`: rows of digits and points without a point before another one.
* `LongestDecimalRun`: the longest of these rows at the front of a text.
* `spelledNumeral`: the numeral that a row stands for.

## Main results

* `numeralRun_longest`: the row that is read is the longest one.
* `decimalNumeral_spelledNumeral`: a row with one point at most stands for a decimal numeral.
* `lexemeOf_ne_invalidNumeral`: no lexeme is an invalid numeral.
* `numerals_scanned`: what is read where a number starts.
-/

namespace Betty

/-! ### Rows of digits and points -/

/-- A row of digits and points at the front of a text, none of whose points stands before
another point in the text. -/
structure DecimalRun (text run : List Char) : Prop where
  front : run <+: text
  chars : ∀ c ∈ run, c.isDigit ∨ c = '.'
  apart : ∀ i < run.length, text[i]? = some '.' → text[i + 1]? ≠ some '.'

/-- The longest such row. -/
structure LongestDecimalRun (text run : List Char) : Prop where
  decimal : DecimalRun text run
  longest : ∀ other, DecimalRun text other → other.length ≤ run.length

theorem decimalRun_nil (text : List Char) : DecimalRun text [] where
  front := List.nil_prefix
  chars := List.forall_mem_nil _
  apart i hi := absurd hi (Nat.not_lt_zero i)

/-- May this character belong to a row, when the text `rest` follows it? -/
def joinsRun (c : Char) (rest : List Char) : Prop :=
  c.isDigit ∨ c = '.' ∧ rest.head? ≠ some '.'

/-- A row goes on with its first character and a row after it. -/
theorem decimalRun_cons_iff {c : Char} {rest run : List Char} :
    DecimalRun (c :: rest) (c :: run) ↔ joinsRun c rest ∧ DecimalRun rest run := by
  constructor
  · rintro ⟨hfront, hchars, hapart⟩
    obtain ⟨hc, hrun⟩ := List.forall_mem_cons.1 hchars
    refine ⟨?_, (List.prefix_cons_inj c).1 hfront, hrun, fun i hi => ?_⟩
    · refine hc.imp_right fun hpoint => ⟨hpoint, ?_⟩
      rw [List.head?_eq_getElem?]
      exact hapart 0 (Nat.zero_lt_succ _) (congrArg some hpoint)
    · exact hapart (i + 1) (Nat.succ_lt_succ hi)
  · rintro ⟨hc, hfront, hchars, hapart⟩
    refine ⟨(List.prefix_cons_inj c).2 hfront,
      List.forall_mem_cons.2 ⟨hc.imp_right And.left, hchars⟩, ?_⟩
    rintro (_ | i) hi
    · intro hpoint
      obtain rfl : c = '.' := Option.some.inj hpoint
      rw [List.getElem?_cons_succ, ← List.head?_eq_getElem?]
      exact hc.resolve_left (by decide) |>.2
    · exact hapart i (Nat.lt_of_succ_lt_succ hi)

theorem numeralRun_cons_of_joins {c : Char} {rest : List Char} (h : joinsRun c rest) :
    numeralRun (c :: rest) = c :: numeralRun rest := by
  rw [numeralRun]
  rcases h with hdigit | ⟨rfl, hnext⟩
  · rw [if_pos hdigit]
  · rw [if_neg (by decide), if_pos (by simpa using hnext)]

theorem numeralRun_cons_of_not_joins {c : Char} {rest : List Char} (h : ¬ joinsRun c rest) :
    numeralRun (c :: rest) = [] := by
  obtain ⟨hdigit, hpoint⟩ := not_or.1 h
  rw [numeralRun, if_neg hdigit, if_neg (by simpa using hpoint)]

/-- The row that is read is the longest one: every row takes a character only if this one
does, and goes on in the same way. -/
theorem numeralRun_longest (text : List Char) : LongestDecimalRun text (numeralRun text) := by
  induction text with
  | nil =>
    refine ⟨decimalRun_nil [], fun other hother => ?_⟩
    rw [List.prefix_nil.1 hother.front]
    exact Nat.le_refl _
  | cons c rest ih =>
    by_cases hc : joinsRun c rest
    · rw [numeralRun_cons_of_joins hc]
      refine ⟨decimalRun_cons_iff.2 ⟨hc, ih.decimal⟩, ?_⟩
      rintro (_ | ⟨d, other⟩) hother
      · exact Nat.zero_le _
      · obtain ⟨rfl, -⟩ := List.cons_prefix_cons.1 hother.front
        exact Nat.succ_le_succ (ih.longest other (decimalRun_cons_iff.1 hother).2)
    · rw [numeralRun_cons_of_not_joins hc]
      refine ⟨decimalRun_nil _, ?_⟩
      rintro (_ | ⟨d, other⟩) hother
      · exact Nat.le_refl _
      · obtain ⟨rfl, -⟩ := List.cons_prefix_cons.1 hother.front
        exact absurd (decimalRun_cons_iff.1 hother).1 hc

/-! ### Numerals -/

/-- The numeral that a row stands for: a leading point reads as if a zero stood before it. -/
def spelledNumeral (run : List Char) : List Char :=
  if run.head? = some '.' then '0' :: run else run

theorem numeralLexeme_eq (run : List Char) :
    numeralLexeme run =
      if 2 ≤ run.count '.' then .error .multipleDots
      else
        match Number.ofChars? (spelledNumeral run) with
        | some value => .number value
        | none => .error (.invalidNumeral (String.ofList (spelledNumeral run))) := by
  simp only [← malformed_iff_count]
  rfl

/-- Digits, or digits with a point among them or at their end. -/
def DecimalNumeral (numeral : List Char) : Prop :=
  ∃ whole fraction, whole ≠ [] ∧ (∀ c ∈ whole, c.isDigit) ∧ (∀ c ∈ fraction, c.isDigit) ∧
    (numeral = whole ∨ numeral = whole ++ '.' :: fraction)

/-- Every decimal numeral is read as a number. -/
theorem DecimalNumeral.exists_ofChars? {numeral : List Char} (h : DecimalNumeral numeral) :
    ∃ value, Number.ofChars? numeral = some value := by
  obtain ⟨whole, fraction, hne, hwhole, hfraction, hform⟩ := h
  obtain ⟨first, more, rfl⟩ := List.exists_cons_of_ne_nil hne
  have hfirst := hwhole first List.mem_cons_self
  rcases hform with rfl | rfl
  · rw [Number.ofChars?_of_isDigit hfirst, Number.ofChars?_whole hne hwhole]
    exact ⟨_, rfl⟩
  · rw [List.cons_append, Number.ofChars?_of_isDigit hfirst, ← List.cons_append,
      Number.ofChars?_point hne hwhole hfraction]
    exact ⟨_, rfl⟩

theorem isDigit_of_count_point {run : List Char} (hchars : ∀ c ∈ run, c.isDigit ∨ c = '.')
    (hcount : run.count '.' = 0) : ∀ c ∈ run, c.isDigit := by
  intro c hc
  refine (hchars c hc).resolve_right ?_
  rintro rfl
  exact List.count_eq_zero.1 hcount hc

/-- Digits and one point at most are digits, or digits before and after a point. -/
theorem exists_parts_of_count_point {run : List Char} (hchars : ∀ c ∈ run, c.isDigit ∨ c = '.')
    (hcount : run.count '.' < 2) :
    ∃ whole fraction, (∀ c ∈ whole, c.isDigit) ∧ (∀ c ∈ fraction, c.isDigit) ∧
      (run = whole ∨ run = whole ++ '.' :: fraction) := by
  by_cases hpoint : '.' ∈ run
  · obtain ⟨whole, fraction, rfl⟩ := List.append_of_mem hpoint
    rw [List.count_append, List.count_cons_self] at hcount
    refine ⟨whole, fraction, isDigit_of_count_point (fun c hc => ?_) (by omega),
      isDigit_of_count_point (fun c hc => ?_) (by omega), .inr rfl⟩
    · exact hchars c (List.mem_append_left _ hc)
    · exact hchars c (List.mem_append_right _ (List.mem_cons_of_mem _ hc))
  · exact ⟨run, [], isDigit_of_count_point hchars (List.count_eq_zero.2 hpoint),
      List.forall_mem_nil _, .inl rfl⟩

/-- A row with one point at most stands for a decimal numeral. -/
theorem decimalNumeral_spelledNumeral {run : List Char} (hne : run ≠ [])
    (hchars : ∀ c ∈ run, c.isDigit ∨ c = '.') (hcount : run.count '.' < 2) :
    DecimalNumeral (spelledNumeral run) := by
  obtain ⟨whole, fraction, hwhole, hfraction, hform⟩ := exists_parts_of_count_point hchars hcount
  unfold spelledNumeral
  cases whole with
  | nil =>
    -- only a point can stand before the digits
    obtain rfl : run = '.' :: fraction := hform.resolve_left hne
    rw [List.head?_cons, if_pos rfl]
    exact ⟨['0'], fraction, List.cons_ne_nil _ _, List.forall_mem_singleton.2 rfl, hfraction,
      .inr rfl⟩
  | cons first more =>
    have hhead : run.head? = some first := by rcases hform with rfl | rfl <;> rfl
    have hfirst : first ≠ '.' := by
      rintro rfl
      exact absurd (hwhole '.' List.mem_cons_self) (by decide)
    rw [hhead, if_neg fun h => hfirst (Option.some.inj h)]
    exact ⟨first :: more, fraction, List.cons_ne_nil _ _, hwhole, hfraction, hform⟩

/-- What a row is read as. -/
theorem numeralLexeme_cases {run : List Char} (hne : run ≠ [])
    (hchars : ∀ c ∈ run, c.isDigit ∨ c = '.') :
    2 ≤ run.count '.' ∧ numeralLexeme run = .error .multipleDots ∨
      run.count '.' < 2 ∧ DecimalNumeral (spelledNumeral run) ∧
        ∃ value, Number.ofChars? (spelledNumeral run) = some value ∧
          numeralLexeme run = .number value := by
  rw [numeralLexeme_eq]
  by_cases hcount : 2 ≤ run.count '.'
  · exact .inl ⟨hcount, if_pos hcount⟩
  · have hnumeral := decimalNumeral_spelledNumeral hne hchars (Nat.lt_of_not_le hcount)
    obtain ⟨value, hvalue⟩ := hnumeral.exists_ofChars?
    refine .inr ⟨Nat.lt_of_not_le hcount, hnumeral, value, hvalue, ?_⟩
    rw [if_neg hcount, hvalue]

/-! ### Lexemes -/

/-- A number starts with a character of the row that is read. -/
theorem joinsRun_of_startsNumeral {c : Char} {rest : List Char} (h : startsNumeral c rest) :
    joinsRun c rest := by
  simp only [startsNumeral, Bool.or_eq_true, Bool.and_eq_true, decide_eq_true_eq] at h
  rcases h with hdigit | ⟨hpoint, hdigit⟩
  · exact .inl hdigit
  · refine .inr ⟨hpoint, fun hnext => ?_⟩
    rw [hnext] at hdigit
    cases hdigit

theorem startsName_of_startsNumeral {c : Char} {rest : List Char} (h : startsNumeral c rest) :
    startsName c = false := by
  rcases joinsRun_of_startsNumeral h with hdigit | ⟨rfl, -⟩
  · exact startsName_of_isDigit hdigit
  · rfl

theorem lexemeOf_of_startsNumeral {c : Char} {rest : List Char} (h : startsNumeral c rest) :
    lexemeOf (c :: rest) =
      (numeralLexeme (numeralRun (c :: rest)), (numeralRun (c :: rest)).length) := by
  rw [lexemeOf, startsName_of_startsNumeral h, if_neg Bool.false_ne_true, if_pos h]

theorem numeralLexeme_ne_invalidNumeral {c : Char} {rest : List Char} (h : startsNumeral c rest)
    (spelled : String) :
    numeralLexeme (numeralRun (c :: rest)) ≠ .error (.invalidNumeral spelled) := by
  rcases numeralLexeme_cases (numeralRun_ne_nil h) (numeralRun_longest _).decimal.chars with
    ⟨-, hlexeme⟩ | ⟨-, -, value, -, hlexeme⟩
  · rw [hlexeme]
    simp
  · rw [hlexeme]
    simp

theorem stringLexeme_ne_invalidNumeral (read : List Char) (length : Nat) (bad : Option Char)
    (rest : List Char) (spelled : String) :
    (stringLexeme read length bad rest).1 ≠ .error (.invalidNumeral spelled) := by
  fun_induction stringLexeme read length bad rest <;> simp_all

theorem closeCharacter_ne_invalidNumeral (value : Char) (length : Nat) (rest : List Char)
    (spelled : String) :
    (closeCharacter value length rest).1 ≠ .error (.invalidNumeral spelled) := by
  unfold closeCharacter
  split <;> simp

theorem characterLexeme_ne_invalidNumeral (rest : List Char) (spelled : String) :
    (characterLexeme rest).1 ≠ .error (.invalidNumeral spelled) := by
  unfold characterLexeme
  split
  · simp
  · simp
  · simp
  · split
    · exact closeCharacter_ne_invalidNumeral _ _ _ _
    · simp
  · exact closeCharacter_ne_invalidNumeral _ _ _ _

/-- No text has an invalid numeral at its front. -/
theorem lexemeOf_ne_invalidNumeral (text : List Char) (spelled : String) :
    (lexemeOf text).1 ≠ .error (.invalidNumeral spelled) := by
  cases text with
  | nil => simp [lexemeOf]
  | cons c rest =>
    unfold lexemeOf
    dsimp only
    split
    · unfold nameLexeme
      split <;> simp
    · split
      · next hstarts => exact numeralLexeme_ne_invalidNumeral hstarts spelled
      · split
        · exact stringLexeme_ne_invalidNumeral _ _ _ _ _
        · split
          · exact characterLexeme_ne_invalidNumeral _ _
          · split <;> simp

/-- Two points in a row are the sign of a range. -/
theorem lexemeOf_dotDot (rest : List Char) :
    lexemeOf ('.' :: '.' :: rest) = (.symbol .dotDot, 2) := by
  cases rest <;> rfl

theorem Cursor.next_dotDot {cursor : Cursor} {tail : List Char}
    (h : cursor.rest = '.' :: '.' :: tail) :
    cursor.next =
      (⟨.symbol .dotDot, cursor.position⟩, ⟨tail, cursor.position.afterAll ['.', '.']⟩) := by
  obtain ⟨text, place⟩ := cursor
  obtain rfl : text = '.' :: '.' :: tail := h
  have htrivia : (Cursor.mk ('.' :: '.' :: tail) place).skipTrivia =
      ⟨'.' :: '.' :: tail, place⟩ := rfl
  rw [Cursor.next, htrivia, lexemeOf_dotDot]
  rfl

/-- What is read where a number starts.

* The characters that are taken are the longest row of digits and points in which no point
  stands before another one. If two points follow, they are read as the sign of a range.
* If there are two or more points in the row, and only then, it is an error.
* Otherwise the row is digits, or digits with a point among them or at their end, once a zero
  is put before a leading point; and this is read as a number.

So there are no invalid numerals, in any text. -/
theorem numerals_scanned :
    (∀ (cursor : Cursor) (c : Char) (rest : List Char),
      cursor.skipTrivia.rest = c :: rest → startsNumeral c rest →
      ∃ run, LongestDecimalRun (c :: rest) run ∧
        cursor.next.2 = cursor.skipTrivia.advance run.length ∧
        (∀ tail, cursor.next.2.rest = '.' :: '.' :: tail →
          cursor.next.2.next.1.lexeme = .symbol .dotDot ∧ cursor.next.2.next.2.rest = tail) ∧
        (cursor.next.1.lexeme = .error .multipleDots ↔ 2 ≤ run.count '.') ∧
        (run.count '.' < 2 → DecimalNumeral (spelledNumeral run) ∧
          ∃ value, Number.ofChars? (spelledNumeral run) = some value ∧
            cursor.next.1.lexeme = .number value)) ∧
    ∀ (cursor : Cursor) (spelled : String),
      cursor.next.1.lexeme ≠ .error (.invalidNumeral spelled) := by
  refine ⟨fun cursor c rest hrest hstarts => ?_, fun cursor spelled =>
    lexemeOf_ne_invalidNumeral _ spelled⟩
  have hlongest := numeralRun_longest (c :: rest)
  have hlexeme := lexemeOf_of_startsNumeral hstarts
  have hne := numeralRun_ne_nil hstarts
  generalize numeralRun (c :: rest) = run at hlongest hlexeme hne
  have hnext : cursor.next = (⟨numeralLexeme run, cursor.skipTrivia.position⟩,
      cursor.skipTrivia.advance run.length) := by
    rw [Cursor.next, hrest, hlexeme]
  refine ⟨run, hlongest, congrArg Prod.snd hnext, fun tail htail => ?_, ?_⟩
  · rw [Cursor.next_dotDot htail]
    exact ⟨rfl, rfl⟩
  · rw [hnext]
    rcases numeralLexeme_cases hne hlongest.decimal.chars with
      ⟨hcount, herror⟩ | ⟨hcount, hnumeral, value, hvalue, hnumber⟩
    · refine ⟨iff_of_true herror hcount, fun hless => absurd hcount (Nat.not_le_of_gt hless)⟩
    · refine ⟨iff_of_false ?_ (Nat.not_le_of_gt hcount), fun _ =>
        ⟨hnumeral, value, hvalue, hnumber⟩⟩
      change numeralLexeme run ≠ _
      rw [hnumber]
      simp

/-- A row with too many points, and a range after it. -/
theorem numerals_scanned_beforeRange :
    (Cursor.ofText " 1.2.3..4").skipTrivia.rest = '1' :: ['.', '2', '.', '3', '.', '.', '4'] ∧
    startsNumeral '1' ['.', '2', '.', '3', '.', '.', '4'] ∧
    (∃ run, LongestDecimalRun ['1', '.', '2', '.', '3', '.', '.', '4'] run ∧
      ((Cursor.ofText " 1.2.3..4").next.1.lexeme = .error .multipleDots ↔ 2 ≤ run.count '.')) ∧
    (Cursor.ofText " 1.2.3..4").next.2.next.1.lexeme = .symbol .dotDot := by
  refine ⟨rfl, rfl, ?_⟩
  obtain ⟨run, hlongest, -, hrange, herror, -⟩ :=
    numerals_scanned.1 (Cursor.ofText " 1.2.3..4") '1' ['.', '2', '.', '3', '.', '.', '4'] rfl rfl
  exact ⟨⟨run, hlongest, herror⟩, (hrange ['4'] rfl).1⟩

end Betty
