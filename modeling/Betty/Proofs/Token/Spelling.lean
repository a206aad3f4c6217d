import Betty.Proofs.Text.Classes
import Betty.Proofs.Token.Stream

/-!
# Spelling lexemes

A lexeme can be spelled in several ways: reserved words in letters of either case, quoted
characters as they are or by their escapes. Between two lexemes there are blanks and
comments. A text of this kind is read as the lexemes that it spells.

## Main definitions

* `Spells`: a spelling of a lexeme.
* `Spelled`: a text that spells a row of lexemes, with blanks and comments between them.

## Main results

* `lexemeOf_spells`: a spelling is read as its lexeme, if a blank or a comment follows.
* `tokenize_spelled`: a text is read as the lexemes that it spells.
-/

namespace Betty

/-! ### Spellings -/

/-- Can this be the name of a variable or function? It is not a reserved word. -/
def isName (name : String) : Bool :=
  match name.toList with
  | [] => false
  | first :: rest =>
    startsName first && rest.all continuesName &&
      (Keyword.ofSpelling? (String.ofList (name.toList.map foldLetter))).isNone

/-- Is this a decimal numeral: digits, which a point and further digits may follow? -/
def isNumeral (numeral : List Char) : Bool :=
  !(numeral.takeWhile Char.isDigit).isEmpty &&
    match numeral.dropWhile Char.isDigit with
    | [] => true
    | c :: fraction => c = '.' && fraction.all Char.isDigit

/-- A spelling of a character between quotes of the given kind. -/
inductive SpellsQuoted (quote : Char) (c : Char) : List Char → Prop
  | plain (hquote : c ≠ quote) (hescape : c ≠ '\\') : SpellsQuoted quote c [c]
  | escaped {letter : Char} (h : escape? letter = some c) : SpellsQuoted quote c ['\\', letter]

/-- A spelling of a text without its quotes. -/
inductive SpellsText : List Char → List Char → Prop
  | nil : SpellsText [] []
  | cons {c : Char} {spelling cs spellings : List Char} (h : SpellsQuoted '"' c spelling)
    (hrest : SpellsText cs spellings) : SpellsText (c :: cs) (spelling ++ spellings)

/-- A spelling of a lexeme. -/
inductive Spells : Lexeme → List Char → Prop
  | symbol (sign : Symbol) : Spells (.symbol sign) sign.spelling.toList
  | keyword {word : Keyword} {spelling : List Char}
    (h : spelling.map Char.toLower = word.spelling.toList) : Spells (.keyword word) spelling
  | identifier {name : String} (h : isName name) : Spells (.identifier name) name.toList
  | number {value : Float} {numeral : List Char} (h : isNumeral numeral)
    (hvalue : Number.ofChars? numeral = some value) : Spells (.number value) numeral
  | fraction {value : Float} {digits : List Char} (hne : digits ≠ [])
    (h : digits.all Char.isDigit) (hvalue : Number.ofChars? ('0' :: '.' :: digits) = some value) :
    Spells (.number value) ('.' :: digits)
  | text {value : String} {spelling : List Char} (h : SpellsText value.toList spelling) :
    Spells (.text value) ('"' :: (spelling ++ ['"']))
  | character {value : Char} {spelling : List Char} (h : SpellsQuoted '\'' value spelling) :
    Spells (.character value) ('\'' :: (spelling ++ ['\'']))

/-- May this character follow a lexeme? -/
def separates (c : Char) : Bool :=
  Text.isBlank c || c = '#'

/-- Is there nothing, or a blank or comment at the front of a text? -/
def Parted (text : List Char) : Prop :=
  ∀ c ∈ text.head?, separates c

/-- Blanks and comments. -/
inductive Trivia : List Char → Prop
  | nil : Trivia []
  | blank {c : Char} {rest : List Char} (h : Text.isBlank c) (hrest : Trivia rest) :
    Trivia (c :: rest)
  | comment {body rest : List Char} (h : '\n' ∉ body) (hrest : Trivia rest) :
    Trivia ('#' :: (body ++ '\n' :: rest))

/-- A text that spells lexemes, one after another, with blanks and comments between
them. -/
inductive Spelled : List Lexeme → List Char → Prop
  | nil {gap : List Char} (hgap : Trivia gap) : Spelled [] gap
  | cons {lexeme : Lexeme} {lexemes : List Lexeme} {gap spelling rest : List Char}
    (hgap : Trivia gap) (h : Spells lexeme spelling) (hparted : Parted rest)
    (hrest : Spelled lexemes rest) : Spelled (lexeme :: lexemes) (gap ++ (spelling ++ rest))

/-! ### Signs -/

theorem startsName_continuesName {c : Char} (h : startsName c) : continuesName c := by
  simp only [startsName, Bool.or_eq_true] at h
  simp only [continuesName, Bool.or_eq_true]
  exact h.imp_left .inl

/-- No name goes on with a character that may follow it. -/
theorem separates_continuesName {c : Char} (h : separates c) : continuesName c = false := by
  simp only [separates, Bool.or_eq_true, decide_eq_true_eq] at h
  rcases h with hblank | rfl
  · obtain ⟨hletter, hnumeral⟩ := Text.isBlank_apart hblank
    have hline : c ≠ '_' := by
      rintro rfl
      cases hblank
    simp [continuesName, hletter, hnumeral, hline]
  · rfl

theorem startsName_separates {c : Char} (h : startsName c) : separates c = false := by
  rw [Bool.eq_false_iff]
  intro hseparates
  have hcontinues := startsName_continuesName h
  rw [separates_continuesName hseparates] at hcontinues
  cases hcontinues

theorem ofTwo?_separates (a : Char) {b : Char} (h : separates b) : Symbol.ofTwo? a b = none := by
  unfold Symbol.ofTwo?
  split
  case h_18 => rfl
  all_goals cases h

theorem ofThree?_separates (a : Char) {b c : Char} (h : separates b ∨ separates c) :
    Symbol.ofThree? a b c = none := by
  unfold Symbol.ofThree?
  split
  · rcases h with h | h <;> cases h
  · rfl

theorem longestSymbol?_one {a : Char} {sign : Symbol} {rest : List Char}
    (h : Symbol.ofOne? a = some sign) (hrest : Parted rest) :
    longestSymbol? (a :: rest) = some (sign, 1) := by
  match rest, hrest with
  | [], _ => simp [longestSymbol?, h]
  | [b], hrest => simp [longestSymbol?, h, ofTwo?_separates a (hrest b rfl)]
  | b :: c :: rest, hrest =>
    simp [longestSymbol?, h, ofTwo?_separates a (hrest b rfl),
      ofThree?_separates a (c := c) (.inl (hrest b rfl))]

theorem longestSymbol?_two {a b : Char} {sign : Symbol} {rest : List Char}
    (h : Symbol.ofTwo? a b = some sign) (hrest : Parted rest) :
    longestSymbol? (a :: b :: rest) = some (sign, 2) := by
  match rest, hrest with
  | [], _ => simp [longestSymbol?, h]
  | c :: rest, hrest =>
    simp [longestSymbol?, h, ofThree?_separates a (b := b) (.inr (hrest c rfl))]

theorem longestSymbol?_three {a b c : Char} {sign : Symbol} {rest : List Char}
    (h : Symbol.ofThree? a b c = some sign) :
    longestSymbol? (a :: b :: c :: rest) = some (sign, 3) := by
  simp [longestSymbol?, h]

/-- A text that starts with a sign, and with no other lexeme. -/
theorem lexemeOf_of_longestSymbol? {c : Char} {rest : List Char} {sign : Symbol} {length : Nat}
    (hname : startsName c = false) (hnumeral : startsNumeral c rest = false) (hquote : c ≠ '"')
    (hquote' : c ≠ '\'') (h : longestSymbol? (c :: rest) = some (sign, length)) :
    lexemeOf (c :: rest) = (.symbol sign, length) := by
  rw [lexemeOf, hname, hnumeral, if_neg Bool.false_ne_true, if_neg Bool.false_ne_true,
    if_neg hquote, if_neg hquote', h]

theorem lexemeOf_symbol (sign : Symbol) {rest : List Char} (hrest : Parted rest) :
    lexemeOf (sign.spelling.toList ++ rest) = (.symbol sign, sign.spelling.toList.length) := by
  cases sign with
  | doubleSlashAssign =>
    exact lexemeOf_of_longestSymbol? rfl rfl (by decide) (by decide) (longestSymbol?_three rfl)
  | plus | minus | star | slash | percent | caret | bang | assign | less | greater | question
  | colon | leftParen | rightParen | leftBrace | rightBrace | leftBracket | rightBracket | comma
  | semicolon =>
    exact lexemeOf_of_longestSymbol? rfl rfl (by decide) (by decide) (longestSymbol?_one rfl hrest)
  | _ =>
    exact lexemeOf_of_longestSymbol? rfl rfl (by decide) (by decide) (longestSymbol?_two rfl hrest)

/-! ### Names -/

theorem lexemeOf_name {c : Char} {more rest : List Char} (h : startsName c)
    (hmore : ∀ d ∈ more, continuesName d) (hrest : Parted rest) :
    lexemeOf (c :: (more ++ rest)) = (nameLexeme (c :: more), (c :: more).length) := by
  have hstop : rest.takeWhile continuesName = [] := by
    cases rest with
    | nil => rfl
    | cons d rest =>
      rw [List.takeWhile_cons, separates_continuesName (hrest d rfl), if_neg Bool.false_ne_true]
  have hname : (more ++ rest).takeWhile continuesName = more := by
    rw [List.takeWhile_append_of_pos hmore, hstop, List.append_nil]
  rw [lexemeOf, if_pos h, hname]

theorem ofSpelling?_spelling (word : Keyword) :
    Keyword.ofSpelling? word.spelling = some word := by
  cases word <;> rfl

/-- The letters of a reserved word, in either case, can stand at the start of a name. -/
theorem startsName_of_toLower {c : Char} {word : Keyword} (h : c.toLower ∈ word.spelling.toList) :
    startsName c := by
  have hlower : word.spelling.toList.all (fun d => d.isLower || d = '_') := by
    cases word <;> rfl
  have hc := List.all_eq_true.1 hlower c.toLower h
  have halpha : c.isAlpha = (c.isUpper || c.isLower) := rfl
  cases hupper : c.isUpper with
  | true =>
    have hletter : Text.isLetter c :=
      Text.isLetter_of_isAlpha (by rw [halpha, hupper, Bool.true_or])
    rw [startsName, hletter, Bool.true_or]
  | false =>
    have hsame : c.toLower = c := dif_neg (of_decide_eq_false hupper)
    rw [hsame, Bool.or_eq_true, decide_eq_true_eq] at hc
    rcases hc with hc | rfl
    · have hletter : Text.isLetter c :=
        Text.isLetter_of_isAlpha (by rw [halpha, hc, Bool.or_true])
      rw [startsName, hletter, Bool.true_or]
    · rfl

/-- In the letters of ASCII, which case a reserved word is in makes no difference. -/
theorem foldLetter_of_toLower {c : Char} {word : Keyword}
    (h : c.toLower ∈ word.spelling.toList) : foldLetter c = c.toLower := by
  unfold foldLetter
  rw [if_neg]
  rintro rfl
  revert h
  cases word <;> decide

theorem lexemeOf_keyword {word : Keyword} {spelling rest : List Char}
    (h : spelling.map Char.toLower = word.spelling.toList) (hrest : Parted rest) :
    lexemeOf (spelling ++ rest) = (.keyword word, spelling.length) := by
  have hmem : ∀ c ∈ spelling, c.toLower ∈ word.spelling.toList := by
    intro c hc
    rw [← h]
    exact List.mem_map_of_mem hc
  have hfold : spelling.map foldLetter = word.spelling.toList := by
    rw [← h]
    exact List.map_congr_left fun c hc => foldLetter_of_toLower (hmem c hc)
  have hlexeme : nameLexeme spelling = .keyword word := by
    rw [nameLexeme, hfold, String.ofList_toList, ofSpelling?_spelling]
  cases spelling with
  | nil => cases word <;> cases h
  | cons c more =>
    obtain ⟨hc, hmore⟩ := List.forall_mem_cons.1 hmem
    rw [List.cons_append, lexemeOf_name (startsName_of_toLower hc)
      (fun d hd => startsName_continuesName (startsName_of_toLower (hmore d hd))) hrest, hlexeme]

theorem lexemeOf_identifier {name : String} {rest : List Char} (h : isName name)
    (hrest : Parted rest) :
    lexemeOf (name.toList ++ rest) = (.identifier name, name.toList.length) := by
  unfold isName at h
  have hname : String.ofList name.toList = name := String.ofList_toList
  generalize name.toList = spelling at h hname
  cases spelling with
  | nil => cases h
  | cons c more =>
    simp only [Bool.and_eq_true, List.all_eq_true, Option.isNone_iff_eq_none] at h
    obtain ⟨⟨hc, hmore⟩, hfree⟩ := h
    rw [List.cons_append, lexemeOf_name hc hmore hrest, nameLexeme, hfree, hname]

/-! ### Numerals -/

theorem startsName_of_isDigit {c : Char} (h : c.isDigit) : startsName c = false := by
  have hline : c ≠ '_' := by
    rintro rfl
    cases h
  simp [startsName, Text.isLetter_of_isDigit h, hline]

theorem numeralRun_digits {digits : List Char} (h : ∀ c ∈ digits, c.isDigit) (rest : List Char) :
    numeralRun (digits ++ rest) = digits ++ numeralRun rest := by
  induction digits with
  | nil => rfl
  | cons c more ih =>
    obtain ⟨hc, hmore⟩ := List.forall_mem_cons.1 h
    rw [List.cons_append, numeralRun, if_pos hc, ih hmore, List.cons_append]

theorem separates_isDigit {c : Char} (h : separates c) : c.isDigit = false ∧ c ≠ '.' := by
  constructor
  · rw [Bool.eq_false_iff]
    intro hdigit
    have hcontinues := separates_continuesName h
    rw [continuesName, Text.isNumeral_of_isDigit hdigit, Bool.or_true, Bool.true_or] at hcontinues
    cases hcontinues
  · rintro rfl
    cases h

theorem numeralRun_parted {rest : List Char} (hrest : Parted rest) : numeralRun rest = [] := by
  cases rest with
  | nil => rfl
  | cons c rest =>
    obtain ⟨hdigit, hpoint⟩ := separates_isDigit (hrest c rfl)
    simp [numeralRun, hdigit, hpoint]

/-- A point that digits or nothing follows belongs to a numeral. -/
theorem numeralRun_point {digits rest : List Char} (h : ∀ c ∈ digits, c.isDigit)
    (hrest : Parted rest) : numeralRun ('.' :: (digits ++ rest)) = '.' :: digits := by
  have hnext : (digits ++ rest).head? ≠ some '.' := by
    cases digits with
    | nil => exact fun hhead => (separates_isDigit (hrest '.' hhead)).2 rfl
    | cons c more =>
      intro hhead
      cases hhead
      exact absurd (h '.' (.head _)) (by decide)
  have hpoint : (decide ('.' = '.') && decide ((digits ++ rest).head? ≠ some '.')) = true :=
    decide_eq_true hnext
  rw [numeralRun, if_neg (by decide), if_pos hpoint, numeralRun_digits h, numeralRun_parted hrest,
    List.append_nil]

/-- A numeral is made of digits, one at least, and a fraction that may be missing. -/
theorem isNumeral_parts {numeral : List Char} (h : isNumeral numeral) :
    ∃ c digits tail, numeral = c :: (digits ++ tail) ∧ c.isDigit ∧ (∀ d ∈ digits, d.isDigit) ∧
      (tail = [] ∨ ∃ fraction, tail = '.' :: fraction ∧ ∀ d ∈ fraction, d.isDigit) := by
  simp only [isNumeral, Bool.and_eq_true] at h
  obtain ⟨hdigits, hfraction⟩ := h
  have hall : ∀ c ∈ numeral.takeWhile Char.isDigit, c.isDigit := fun c hc =>
    List.all_eq_true.1 List.all_takeWhile c hc
  have hparts := List.takeWhile_append_dropWhile (p := Char.isDigit) (l := numeral)
  generalize numeral.takeWhile Char.isDigit = digits at hdigits hall hparts
  generalize numeral.dropWhile Char.isDigit = tail at hfraction hparts
  cases digits with
  | nil => cases hdigits
  | cons c digits =>
    obtain ⟨hc, hall⟩ := List.forall_mem_cons.1 hall
    refine ⟨c, digits, tail, hparts.symm, hc, hall, ?_⟩
    cases tail with
    | nil => exact .inl rfl
    | cons point fraction =>
      simp only [Bool.and_eq_true, decide_eq_true_eq, List.all_eq_true] at hfraction
      obtain ⟨rfl, hfraction⟩ := hfraction
      exact .inr ⟨fraction, rfl, hfraction⟩

theorem count_point_digits {digits : List Char} (h : ∀ c ∈ digits, c.isDigit) :
    digits.count '.' = 0 := by
  rw [List.count_eq_zero]
  intro hpoint
  exact absurd (h '.' hpoint) (by decide)

theorem malformed_foldl_note (run : List Char) (flags : PointFlags) :
    (run.foldl PointFlags.note flags).malformed ↔
      flags.malformed ∨ flags.seen ∧ 1 ≤ run.count '.' ∨ 2 ≤ run.count '.' := by
  induction run generalizing flags with
  | nil => simp
  | cons c rest ih =>
    rw [List.foldl_cons, ih, PointFlags.note]
    by_cases hc : c = '.'
    · subst hc
      rw [if_pos rfl, List.count_cons_self]
      generalize rest.count '.' = points
      rcases flags with ⟨_ | _, _ | _⟩ <;> simp <;> omega
    · rw [if_neg hc, List.count_cons_of_ne hc]

/-- The flags tell whether there is more than one point. -/
theorem malformed_iff_count (run : List Char) :
    (run.foldl PointFlags.note .initial).malformed ↔ 2 ≤ run.count '.' := by
  simp [malformed_foldl_note, PointFlags.initial]

/-- A text that starts with a numeral. -/
theorem lexemeOf_of_numeralRun {c : Char} {tail run : List Char} {value : Float}
    (hname : startsName c = false) (hstart : startsNumeral c tail)
    (hrun : numeralRun (c :: tail) = run) (hlexeme : numeralLexeme run = .number value) :
    lexemeOf (c :: tail) = (.number value, run.length) := by
  rw [lexemeOf, hname, if_neg Bool.false_ne_true, if_pos hstart, hrun, ← hlexeme]

theorem lexemeOf_number {value : Float} {numeral rest : List Char} (h : isNumeral numeral)
    (hvalue : Number.ofChars? numeral = some value) (hrest : Parted rest) :
    lexemeOf (numeral ++ rest) = (.number value, numeral.length) := by
  obtain ⟨c, digits, tail, rfl, hc, hdigits, htail⟩ := isNumeral_parts h
  have hstart : startsNumeral c (digits ++ tail ++ rest) := by rw [startsNumeral, hc, Bool.true_or]
  have hrun : numeralRun (c :: (digits ++ tail ++ rest)) = c :: (digits ++ tail) := by
    rw [numeralRun, if_pos hc, List.append_assoc, numeralRun_digits hdigits]
    rcases htail with rfl | ⟨fraction, rfl, hfraction⟩
    · rw [List.nil_append, numeralRun_parted hrest]
    · rw [List.cons_append, numeralRun_point hfraction hrest]
  -- One point at most, and none at the start: the run is not malformed.
  have hcount : (c :: (digits ++ tail)).count '.' < 2 := by
    have hc' := count_point_digits (List.forall_mem_cons.2 ⟨hc, hdigits⟩)
    rw [← List.cons_append, List.count_append, hc', Nat.zero_add]
    rcases htail with rfl | ⟨fraction, rfl, hfraction⟩
    · decide
    · rw [List.count_cons_self, count_point_digits hfraction]
      decide
  have hhead : (c :: (digits ++ tail)).head? ≠ some '.' := by
    intro hhead
    cases hhead
    cases hc
  refine lexemeOf_of_numeralRun (startsName_of_isDigit hc) hstart hrun ?_
  rw [numeralLexeme, if_neg (mt (malformed_iff_count _).1 (by omega)), if_neg hhead, hvalue]

theorem lexemeOf_fraction {value : Float} {digits rest : List Char} (hne : digits ≠ [])
    (h : digits.all Char.isDigit) (hvalue : Number.ofChars? ('0' :: '.' :: digits) = some value)
    (hrest : Parted rest) :
    lexemeOf ('.' :: (digits ++ rest)) = (.number value, ('.' :: digits).length) := by
  rw [List.all_eq_true] at h
  have hstart : startsNumeral '.' (digits ++ rest) := by
    cases digits with
    | nil => exact absurd rfl hne
    | cons c more => exact h c (.head _)
  have hcount : ('.' :: digits).count '.' < 2 := by
    rw [List.count_cons_self, count_point_digits h]
    decide
  refine lexemeOf_of_numeralRun rfl hstart (numeralRun_point h hrest) ?_
  rw [numeralLexeme, if_neg (mt (malformed_iff_count _).1 (by omega)), List.head?_cons, if_pos rfl,
    hvalue]

/-! ### Quoted text -/

theorem stringLexeme_quoted {c : Char} {spelling : List Char} (h : SpellsQuoted '"' c spelling)
    (read : List Char) (length : Nat) (rest : List Char) :
    stringLexeme read length none (spelling ++ rest) =
      stringLexeme (c :: read) (length + spelling.length) none rest := by
  cases h with
  | plain hquote hescape => simp [stringLexeme, hescape]
  | escaped h => simp [stringLexeme, h]

theorem stringLexeme_text {value spelling : List Char} (h : SpellsText value spelling)
    (read : List Char) (length : Nat) (rest : List Char) :
    stringLexeme read length none (spelling ++ '"' :: rest) =
      (.text (String.ofList (read.reverse ++ value)), length + spelling.length + 1) := by
  induction h generalizing read length with
  | nil => simp [stringLexeme]
  | cons h hrest ih =>
    rw [List.append_assoc, stringLexeme_quoted h, ih]
    simp [Nat.add_assoc]

theorem characterLexeme_quoted {c : Char} {spelling : List Char} (h : SpellsQuoted '\'' c spelling)
    (rest : List Char) :
    characterLexeme (spelling ++ '\'' :: rest) = (.character c, spelling.length + 1) := by
  cases h with
  | plain hquote hescape => simp [characterLexeme, closeCharacter, hescape]
  | escaped h => simp [characterLexeme, closeCharacter, h]

theorem lexemeOf_text (rest : List Char) :
    lexemeOf ('"' :: rest) = stringLexeme [] 1 none rest := rfl

theorem lexemeOf_character (rest : List Char) :
    lexemeOf ('\'' :: rest) = ((characterLexeme rest).1, (characterLexeme rest).2 + 1) := rfl

/-! ### Lexemes -/

/-- A spelling is read as its lexeme, if nothing but a blank or a comment follows it. -/
theorem lexemeOf_spells {lexeme : Lexeme} {spelling rest : List Char} (h : Spells lexeme spelling)
    (hrest : Parted rest) : lexemeOf (spelling ++ rest) = (lexeme, spelling.length) := by
  cases h with
  | symbol sign => exact lexemeOf_symbol sign hrest
  | keyword h => exact lexemeOf_keyword h hrest
  | identifier h => exact lexemeOf_identifier h hrest
  | number h hvalue => exact lexemeOf_number h hvalue hrest
  | fraction hne h hvalue => exact lexemeOf_fraction hne h hvalue hrest
  | @text value spelling h =>
    have hstring := stringLexeme_text h [] 1 rest
    rw [List.reverse_nil, List.nil_append, String.ofList_toList] at hstring
    rw [List.cons_append, List.append_assoc, List.singleton_append, lexemeOf_text, hstring]
    simp only [List.length_cons, List.length_append, List.length_nil]
    rw [Nat.add_comm 1]
  | @character value spelling h =>
    rw [List.cons_append, List.append_assoc, List.singleton_append, lexemeOf_character,
      characterLexeme_quoted h]
    simp only [List.length_cons, List.length_append, List.length_nil]

/-- The first character of a spelling belongs to no blank or comment. -/
theorem spells_head {lexeme : Lexeme} {spelling : List Char} (h : Spells lexeme spelling) :
    ∃ c more, spelling = c :: more ∧ separates c = false := by
  cases h with
  | symbol sign => cases sign <;> exact ⟨_, _, rfl, rfl⟩
  | keyword h =>
    rename_i word
    cases spelling with
    | nil => cases word <;> cases h
    | cons c more =>
      have hc : c.toLower ∈ word.spelling.toList := by
        rw [← h]
        exact .head _
      exact ⟨c, more, rfl, startsName_separates (startsName_of_toLower hc)⟩
  | identifier h =>
    rename_i name
    unfold isName at h
    generalize name.toList = spelling at h
    cases spelling with
    | nil => cases h
    | cons c more =>
      simp only [Bool.and_eq_true] at h
      exact ⟨c, more, rfl, startsName_separates h.1.1⟩
  | number h _ =>
    obtain ⟨c, digits, tail, rfl, hc, _⟩ := isNumeral_parts h
    refine ⟨c, _, rfl, Bool.eq_false_iff.2 fun hseparates => ?_⟩
    rw [(separates_isDigit hseparates).1] at hc
    cases hc
  | fraction | text | character => exact ⟨_, _, rfl, rfl⟩

/-! ### Texts -/

theorem triviaLength_comment {body : List Char} (h : '\n' ∉ body) (rest : List Char) :
    triviaLength true (body ++ '\n' :: rest) = body.length + 1 + triviaLength false rest := by
  induction body with
  | nil => simp [triviaLength, Nat.add_comm]
  | cons c body ih =>
    rw [List.mem_cons, not_or] at h
    have hc : decide (c ≠ '\n') = true := decide_eq_true (Ne.symm h.1)
    rw [List.cons_append, triviaLength, if_pos rfl, hc, ih h.2, List.length_cons]
    omega

/-- Blanks and comments are passed over. -/
theorem triviaLength_trivia {gap : List Char} (h : Trivia gap) (rest : List Char) :
    triviaLength false (gap ++ rest) = gap.length + triviaLength false rest := by
  induction h with
  | nil => simp
  | blank hc _ ih =>
    rw [List.cons_append, triviaLength, if_neg Bool.false_ne_true, if_pos hc, ih,
      List.length_cons]
    omega
  | comment hbody _ ih =>
    rw [List.cons_append, List.append_assoc, List.cons_append, triviaLength,
      if_neg Bool.false_ne_true, if_neg (by decide), if_pos rfl, triviaLength_comment hbody, ih]
    simp only [List.length_cons, List.length_append]
    omega

theorem triviaLength_spells {lexeme : Lexeme} {spelling : List Char} (h : Spells lexeme spelling)
    (rest : List Char) : triviaLength false (spelling ++ rest) = 0 := by
  obtain ⟨c, more, rfl, hc⟩ := spells_head h
  simp only [separates, Bool.or_eq_false_iff, decide_eq_false_iff_not] at hc
  rw [List.cons_append, triviaLength, if_neg Bool.false_ne_true, hc.1,
    if_neg Bool.false_ne_true, if_neg hc.2]

namespace Cursor

/-- The next token where only blanks and comments are left. -/
theorem next_trivia {gap : List Char} (h : Trivia gap) (place : Position) :
    (Cursor.mk gap place).next.1.lexeme = .endOfInput := by
  have hlength := triviaLength_trivia h []
  have hstart : (Cursor.mk gap place).skipTrivia.rest = [] := by
    rw [skipTrivia, advance]
    rw [List.append_nil] at hlength
    rw [hlength, triviaLength, Nat.add_zero, List.drop_length]
  rw [next, hstart, lexemeOf]

/-- The next token of a text that spells a lexeme after a gap. -/
theorem next_spells {lexeme : Lexeme} {gap spelling rest : List Char} (hgap : Trivia gap)
    (h : Spells lexeme spelling) (hrest : Parted rest) (place : Position) :
    (Cursor.mk (gap ++ (spelling ++ rest)) place).next.1.lexeme = lexeme ∧
      (Cursor.mk (gap ++ (spelling ++ rest)) place).next.2.rest = rest := by
  have hstart : (Cursor.mk (gap ++ (spelling ++ rest)) place).skipTrivia.rest =
      spelling ++ rest := by
    rw [skipTrivia, advance, triviaLength_trivia hgap, triviaLength_spells h, Nat.add_zero,
      List.drop_left]
  constructor
  · rw [next, hstart, lexemeOf_spells h hrest]
  · rw [next, hstart, lexemeOf_spells h hrest]
    change (skipTrivia _).rest.drop spelling.length = rest
    rw [hstart, List.drop_left]

theorem tokens_spelled {lexemes : List Lexeme} {text : List Char} (h : Spelled lexemes text)
    {fuel : Nat} (hfuel : text.length < fuel) (place : Position) :
    ((Cursor.mk text place).tokens fuel).map Token.lexeme = lexemes ++ [.endOfInput] := by
  induction h generalizing fuel place with
  | nil hgap =>
    obtain ⟨fuel, rfl⟩ := Nat.exists_eq_succ_of_ne_zero (Nat.ne_zero_of_lt hfuel)
    have hend := next_trivia hgap place
    rw [Nat.succ_eq_add_one, tokens_succ, if_pos (isEnd_iff.2 hend), List.map_singleton, hend,
      List.nil_append]
  | @cons lexeme lexemes gap spelling rest hgap hspells hparted _ ih =>
    obtain ⟨fuel, rfl⟩ := Nat.exists_eq_succ_of_ne_zero (Nat.ne_zero_of_lt hfuel)
    have hgoes : lexeme ≠ .endOfInput := by
      rintro rfl
      cases hspells
    have hshorter : rest.length < fuel := by
      obtain ⟨c, more, rfl, _⟩ := spells_head hspells
      simp only [List.length_append, List.length_cons] at hfuel
      omega
    obtain ⟨hlexeme, hrest⟩ := next_spells hgap hspells hparted place
    rw [Nat.succ_eq_add_one, tokens_succ, hlexeme,
      if_neg fun hend => hgoes (isEnd_iff.1 hend), List.map_cons, hlexeme]
    generalize (Cursor.mk (gap ++ (spelling ++ rest)) place).next.2 = after at hrest
    obtain ⟨text, place'⟩ := after
    obtain rfl : text = rest := hrest
    rw [ih hshorter, List.cons_append]

end Cursor

/-- A text is read as the lexemes that it spells. -/
theorem tokenize_spelled {lexemes : List Lexeme} {text : String}
    (h : Spelled lexemes text.toList) :
    (tokenize text).map Token.lexeme = lexemes ++ [.endOfInput] :=
  Cursor.tokens_spelled h (Nat.lt_succ_self _) .start

end Betty
