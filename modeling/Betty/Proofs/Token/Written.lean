import Betty.Proofs.Token.Spelling

/-!
# Reading what has been written

A row of words, each of them a spelling of a lexeme, is read as the lexemes that were
written, whichever spellings have been chosen and whatever blanks and comments stand
between the words. A numeral is a spelling of the number nearest to its decimal value.

## Main definitions

* `Number.nearest`: the number nearest to a decimal fraction.
* `Word`: a spelling of a lexeme, and the blanks and comments after it.

## Main results

* `spells_whole`, `spells_point`, `spells_fraction`: every numeral spells a number.
* `lexing_undoes_spelling`: the words of a text are read as their lexemes.
-/

namespace Betty

/-! ### Numerals -/

namespace Number

/-- The number nearest to the decimal fraction with these digits before and after its
point. -/
def nearest (whole fraction : List Char) : Float :=
  (Decimal.mk (digitsValue (whole ++ fraction)) (-fraction.length)).toFloat

/-- Digits end where something else starts. -/
theorem takeWhile_digits {digits : List Char} (h : ∀ c ∈ digits, c.isDigit) (rest : List Char)
    (hrest : ∀ c ∈ rest.head?, c.isDigit = false) :
    (digits ++ rest).takeWhile Char.isDigit = digits ∧
      (digits ++ rest).dropWhile Char.isDigit = rest := by
  have hstop : rest.takeWhile Char.isDigit = [] ∧ rest.dropWhile Char.isDigit = rest := by
    cases rest with
    | nil => exact ⟨rfl, rfl⟩
    | cons c rest =>
      have hc := hrest c rfl
      simp [hc]
  rw [List.takeWhile_append_of_pos h, List.dropWhile_append_of_pos h, hstop.1, hstop.2,
    List.append_nil]
  exact ⟨rfl, rfl⟩

/-- Digits alone are a numeral. -/
theorem ofChars?_whole {whole : List Char} (hne : whole ≠ []) (h : ∀ c ∈ whole, c.isDigit) :
    Decimal.ofChars? whole = some ⟨digitsValue whole, 0⟩ := by
  obtain ⟨htake, hdrop⟩ := takeWhile_digits h [] (by simp)
  rw [List.append_nil] at htake hdrop
  simp [Decimal.ofChars?, htake, hdrop, hne, Decimal.scale?]

/-- Digits with a point among them, or at their end, are a numeral. -/
theorem ofChars?_point {whole fraction : List Char} (hne : whole ≠ [])
    (h : ∀ c ∈ whole, c.isDigit) (h' : ∀ c ∈ fraction, c.isDigit) :
    Decimal.ofChars? (whole ++ '.' :: fraction) =
      some ⟨digitsValue (whole ++ fraction), -fraction.length⟩ := by
  obtain ⟨htake, hdrop⟩ := takeWhile_digits h ('.' :: fraction) (by simp)
  obtain ⟨htake', hdrop'⟩ := takeWhile_digits h' [] (by simp)
  rw [List.append_nil] at htake' hdrop'
  simp [Decimal.ofChars?, htake, hdrop, htake', hdrop', hne, Decimal.scale?]

/-- What starts with a digit has no sign. -/
theorem ofChars?_eq_unsigned? {c : Char} {rest : List Char} (hc : c.isDigit) :
    ofChars? (c :: rest) = unsigned? (c :: rest) := by
  unfold ofChars?
  split
  · next heq =>
    cases heq
    cases hc
  · next heq =>
    cases heq
    cases hc
  · rfl

/-- What starts with a digit is neither signed nor a word, and can only be a numeral. -/
theorem ofChars?_of_isDigit {c : Char} {rest : List Char} (hc : c.isDigit) :
    ofChars? (c :: rest) = (Decimal.ofChars? (c :: rest)).map Decimal.toFloat := by
  have hlower : c.toLower = c := by
    have hupper : ¬ (c.val ≥ 'A'.val ∧ c.val ≤ 'Z'.val) := by
      rintro ⟨hlow, _⟩
      have hdigit := Text.isDigit_iff.1 hc
      simp only [Text.inRanges, List.any_cons, List.any_nil, Bool.or_false, Bool.and_eq_true,
        decide_eq_true_eq] at hdigit
      rw [ge_iff_le, UInt32.le_iff_toNat_le] at hlow
      exact absurd (Nat.le_trans hlow hdigit.2) (by decide)
    exact dif_neg hupper
  have hword : ∀ (first : Char) (more : List Char), first.isDigit = false →
      String.ofList ((c :: rest).map Char.toLower) ≠ String.ofList (first :: more) := by
    intro first more hfirst heq
    have hlist := congrArg String.toList heq
    rw [String.toList_ofList, String.toList_ofList, List.map_cons, hlower] at hlist
    rw [← (List.cons.inj hlist).1, hc] at hfirst
    cases hfirst
  have hinf := hword 'i' ['n', 'f'] rfl
  have hinfinity := hword 'i' ['n', 'f', 'i', 'n', 'i', 't', 'y'] rfl
  have hnan := hword 'n' ['a', 'n'] rfl
  rw [ofChars?_eq_unsigned? hc, unsigned?]
  rw [if_neg, if_neg hnan]
  rw [Bool.or_eq_true, decide_eq_true_eq, decide_eq_true_eq, not_or]
  exact ⟨hinf, hinfinity⟩

end Number

theorem spells_whole {whole : List Char} (hne : whole ≠ []) (h : ∀ c ∈ whole, c.isDigit) :
    Spells (.number (Number.nearest whole [])) whole := by
  obtain ⟨htake, hdrop⟩ := Number.takeWhile_digits h [] (by simp)
  rw [List.append_nil] at htake hdrop
  have hvalue := Number.ofChars?_whole hne h
  refine .number (by simp [isNumeral, htake, hdrop, hne]) ?_
  obtain ⟨c, whole, rfl⟩ := List.exists_cons_of_ne_nil hne
  rw [Number.ofChars?_of_isDigit (h c List.mem_cons_self), hvalue, Number.nearest, List.append_nil]
  rfl

theorem spells_point {whole fraction : List Char} (hne : whole ≠ [])
    (h : ∀ c ∈ whole, c.isDigit) (h' : ∀ c ∈ fraction, c.isDigit) :
    Spells (.number (Number.nearest whole fraction)) (whole ++ '.' :: fraction) := by
  obtain ⟨htake, hdrop⟩ := Number.takeWhile_digits h ('.' :: fraction) (by simp)
  have hvalue := Number.ofChars?_point hne h h'
  refine .number (by simpa [isNumeral, htake, hdrop, hne] using h') ?_
  obtain ⟨c, whole, rfl⟩ := List.exists_cons_of_ne_nil hne
  rw [List.cons_append] at hvalue ⊢
  rw [Number.ofChars?_of_isDigit (h c List.mem_cons_self), hvalue]
  rfl

theorem spells_fraction {fraction : List Char} (hne : fraction ≠ [])
    (h : ∀ c ∈ fraction, c.isDigit) :
    Spells (.number (Number.nearest ['0'] fraction)) ('.' :: fraction) := by
  have hzero : ∀ c ∈ ['0'], c.isDigit := List.forall_mem_singleton.2 rfl
  have hvalue := Number.ofChars?_point (List.cons_ne_nil '0' []) hzero h
  refine .fraction hne (List.all_eq_true.2 h) ?_
  rw [List.singleton_append] at hvalue
  rw [Number.ofChars?_of_isDigit rfl, hvalue]
  rfl

/-! ### Words -/

/-- A lexeme as it is written in a text: one of its spellings, and the blanks and comments
that follow it. -/
structure Word where
  lexeme : Lexeme
  spelling : List Char
  gap : List Char

namespace Word

/-- The word is well written. -/
structure Legal (word : Word) : Prop where
  spelling : Spells word.lexeme word.spelling
  gap : Trivia word.gap

/-- Words with blanks and comments before the first of them. -/
def layoutAll (lead : List Char) (words : List Word) : List Char :=
  lead ++ words.flatMap fun word => word.spelling ++ word.gap

theorem layoutAll_cons (lead : List Char) (word : Word) (words : List Word) :
    layoutAll lead (word :: words) = lead ++ (word.spelling ++ layoutAll word.gap words) := by
  simp [layoutAll]

end Word

/-- A row of blanks and comments starts with something that may follow a lexeme. -/
theorem Trivia.parted {gap : List Char} (h : Trivia gap) (hne : gap ≠ []) (rest : List Char) :
    Parted (gap ++ rest) := by
  cases h with
  | nil => exact absurd rfl hne
  | blank hblank _ =>
    rintro c ⟨⟩
    rw [separates, hblank, Bool.true_or]
  | comment _ _ =>
    rintro c ⟨⟩
    rfl

/-- Well written words spell their lexemes, if something separates each two of them. -/
theorem spelled_words {lead : List Char} {words : List Word} (hlead : Trivia lead)
    (h : ∀ word ∈ words, word.Legal) (hgaps : ∀ word ∈ words.dropLast, word.gap ≠ []) :
    Spelled (words.map Word.lexeme) (Word.layoutAll lead words) := by
  induction words generalizing lead with
  | nil =>
    have hnil : Word.layoutAll lead [] = lead := List.append_nil lead
    rw [hnil]
    exact .nil hlead
  | cons word words ih =>
    obtain ⟨hword, hwords⟩ := List.forall_mem_cons.1 h
    rw [Word.layoutAll_cons]
    cases words with
    | nil =>
      refine .cons hlead hword.spelling ?_ (ih hword.gap hwords (by simp))
      -- The last word may stand at the very end of the text.
      by_cases hne : word.gap = []
      · rw [hne]
        exact fun c hc => nomatch hc
      · exact hword.gap.parted hne _
    | cons next words =>
      rw [List.dropLast_cons_cons] at hgaps
      obtain ⟨hgap, hgaps⟩ := List.forall_mem_cons.1 hgaps
      exact .cons hlead hword.spelling (hword.gap.parted hgap _) (ih hword.gap hwords hgaps)

/-- Reading a text gives back the lexemes that have been written in it.

* Words that are well written, and separated from each other, are read as their lexemes
  and the mark of the end.
* Digits, digits with a point among them or at either end, are well written numbers. The
  number is the one nearest to their decimal value. -/
theorem lexing_undoes_spelling :
    (∀ (lead : List Char) (words : List Word), Trivia lead → (∀ word ∈ words, word.Legal) →
      (∀ word ∈ words.dropLast, word.gap ≠ []) →
      (tokenize (String.ofList (Word.layoutAll lead words))).map Token.lexeme =
        words.map Word.lexeme ++ [.endOfInput]) ∧
    (∀ whole fraction : List Char, (∀ c ∈ whole, c.isDigit) → (∀ c ∈ fraction, c.isDigit) →
      (whole ≠ [] → Spells (.number (Number.nearest whole [])) whole ∧
        Spells (.number (Number.nearest whole fraction)) (whole ++ '.' :: fraction)) ∧
      (fraction ≠ [] → Spells (.number (Number.nearest ['0'] fraction)) ('.' :: fraction))) := by
  refine ⟨fun lead words hlead hlegal hgaps => ?_, fun whole fraction hwhole hfraction => ?_⟩
  · refine tokenize_spelled ?_
    rw [String.toList_ofList]
    exact spelled_words hlead hlegal hgaps
  · exact ⟨fun hne => ⟨spells_whole hne hwhole, spells_point hne hwhole hfraction⟩,
      fun hne => spells_fraction hne hfraction⟩

/-- A row of words: a reserved word in mixed case, a name, three numerals, quoted characters
with and without escapes, and signs. -/
def Word.sample : List Word :=
  [⟨.keyword .whileWord, ['W', 'h', 'i', 'L', 'e'], [' ']⟩,
    ⟨.identifier "_x1", ['_', 'x', '1'], ['\t', '\n']⟩,
    ⟨.number (Number.nearest ['1', '2'] []), ['1', '2'], [' ']⟩,
    ⟨.symbol .doubleSlashAssign, ['/', '/', '='], ['#', '"', '\n']⟩,
    ⟨.number (Number.nearest ['1'] []), ['1', '.'], [' ']⟩,
    ⟨.number (Number.nearest ['0'] ['5']), ['.', '5'], [' ']⟩,
    ⟨.text "a\n#", ['"', 'a', '\\', 'n', '#', '"'], [' ']⟩,
    ⟨.character '"', ['\'', '"', '\''], []⟩]

theorem lexing_undoes_spelling_sample :
    (tokenize (String.ofList (Word.layoutAll ['\n'] Word.sample))).map Token.lexeme =
      Word.sample.map Word.lexeme ++ [.endOfInput] := by
  have numerals := lexing_undoes_spelling.2
  have hcomment : Trivia ('#' :: (['"'] ++ ['\n'])) := .comment (by decide) .nil
  have htext : Spells (.text "a\n#") ('"' :: (['a', '\\', 'n', '#'] ++ ['"'])) :=
    .text (.cons (.plain (by decide) (by decide)) (.cons (.escaped rfl)
      (.cons (.plain (by decide) (by decide)) .nil)))
  have hcharacter : Spells (.character '"') ('\'' :: (['"'] ++ ['\''])) :=
    .character (.plain (by decide) (by decide))
  refine lexing_undoes_spelling.1 ['\n'] Word.sample (.blank rfl .nil) ?_ (by decide)
  simp only [Word.sample, List.forall_mem_cons]
  refine ⟨⟨.keyword rfl, .blank rfl .nil⟩, ⟨.identifier rfl, .blank rfl (.blank rfl .nil)⟩,
    ⟨?_, .blank rfl .nil⟩, ⟨.symbol _, hcomment⟩, ⟨?_, .blank rfl .nil⟩,
    ⟨?_, .blank rfl .nil⟩, ⟨htext, .blank rfl .nil⟩, ⟨hcharacter, .nil⟩, nofun⟩
  · exact ((numerals ['1', '2'] [] (List.all_eq_true.1 rfl) nofun).1 (List.cons_ne_nil _ _)).1
  · exact ((numerals ['1'] [] (List.all_eq_true.1 rfl) nofun).1 (List.cons_ne_nil _ _)).2
  · exact (numerals [] ['5'] nofun (List.all_eq_true.1 rfl)).2 (List.cons_ne_nil _ _)

end Betty
