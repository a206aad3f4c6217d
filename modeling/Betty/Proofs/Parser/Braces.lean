import Betty.Proofs.Parser.Loops

/-!
# Braces in malformed text

However malformed a text is, the grammar takes a closing brace only for an opening one that
it has taken before, if the text is mild. There are three ways to take one too many:

* where a statement has to follow, as after the condition of an `if`, a closing brace is
  taken for a malformed statement;
* a switch without its opening brace ends at the closing brace of what it is part of;
* an expression can end with the brace of a function or of a switch, and then the closing
  brace after it stands where a statement has to follow.

A text is mild if each lexeme gets what it asks of those after it, and what they ask for
rules these ways out. Below it is said what is known of the braces ahead in a mild text, and
how it changes when a token is taken. That the rules of the grammar keep to this is part of
their specification.

## Main definitions

* `Body.surplus`: the closing braces less the opening ones.
* `Body.Fits`, `Body.Mild`: what a lexeme asks for, and texts whose lexemes get it.
* `Stance`, `Input.Closes`: what is known of the braces ahead in a mild text.
-/

namespace Betty

namespace Lexeme

/-- Does a statement have to follow this word, or what stands in parentheses after it? -/
def isControl : Lexeme → Bool
  | keyword .ifWord | keyword .elifWord | keyword .elseWord | keyword .forWord
  | keyword .foreachWord | keyword .whileWord | keyword .doWord => true
  | _ => false

/-- Does a statement end or a block start with this sign? -/
def endsPart : Lexeme → Bool
  | symbol .semicolon | symbol .leftBrace | symbol .rightBrace => true
  | _ => false

/-- What the lexeme adds to the number of closing braces less that of opening ones. -/
def weight : Lexeme → Int
  | symbol .rightBrace => 1
  | symbol .leftBrace => -1
  | _ => 0

/-- Can the brace after this lexeme be one of another part than the lexeme is in? Such a
lexeme is a closing brace itself, or it starts a case, a switch or a function. -/
def bars : Lexeme → Bool
  | symbol .rightBrace | keyword .caseWord | keyword .defaultWord | keyword .switchWord
  | keyword .funcWord => true
  | _ => false

theorem weight_of_endsPart {found : Lexeme} (h : found.endsPart = false) : found.weight = 0 := by
  unfold endsPart at h
  unfold weight
  split at h <;> simp_all

theorem weight_le {found : Lexeme} (h : found.isSymbol .rightBrace = false) :
    found.weight ≤ 0 := by
  unfold weight
  split
  · simp [isSymbol] at h
  · decide
  · decide

theorem not_closing {found : Lexeme} (h : found.bars = false) :
    found.isSymbol .rightBrace = false := by
  cases found with
  | symbol sign => cases sign <;> first | rfl | cases h
  | _ => rfl

end Lexeme

namespace Body

/-- The closing braces less the opening ones. -/
def surplus : List Lexeme → Int
  | [] => 0
  | found :: rest => found.weight + surplus rest

/-- Is the next brace an opening one, with nothing before it that bars? -/
def opensNext : List Lexeme → Bool
  | [] => false
  | found :: rest => found.isSymbol .leftBrace || (!found.bars && opensNext rest)

/-- What a lexeme asks of those after it. There are two kinds of texts: those with
`controls`, which are words that a statement has to follow, and those without. -/
structure Fits (controls : Bool) (found : Lexeme) (rest : List Lexeme) : Prop where
  isEnd : found.isEnd = false
  control : found.isControl = true → controls = true
  /-- Among controls there are no functions. -/
  func : found.isKeyword .funcWord = true → controls = false
  /-- No function starts after a closing brace, where it could be outside the others. -/
  closing : found.isSymbol .rightBrace = true →
    ∀ later ∈ rest, later.isKeyword .funcWord = false
  /-- Among controls, a closing brace comes after a semicolon or another brace. -/
  before : controls = true → (rest.headD .endOfInput).isSymbol .rightBrace = true →
    found.endsPart = true
  /-- A switch has its opening brace, and among controls it is no expression. -/
  switch : found.isKeyword .switchWord = true → opensNext rest = true ∧
    (controls = true → (rest.headD .endOfInput).isSymbol .leftParen = true)

/-- Each lexeme gets what it asks of those after it. -/
def Mild (controls : Bool) : List Lexeme → Prop
  | [] => True
  | found :: rest => Fits controls found rest ∧ Mild controls rest

variable {controls : Bool}

instance (found : Lexeme) (rest : List Lexeme) : Decidable (Fits controls found rest) :=
  decidable_of_iff
    (found.isEnd = false ∧ (found.isControl = true → controls = true) ∧
      (found.isKeyword .funcWord = true → controls = false) ∧
      (found.isSymbol .rightBrace = true →
        ∀ later ∈ rest, later.isKeyword .funcWord = false) ∧
      (controls = true → (rest.headD .endOfInput).isSymbol .rightBrace = true →
        found.endsPart = true) ∧
      (found.isKeyword .switchWord = true → opensNext rest = true ∧
        (controls = true → (rest.headD .endOfInput).isSymbol .leftParen = true)))
    ⟨fun ⟨h₁, h₂, h₃, h₄, h₅, h₆⟩ => ⟨h₁, h₂, h₃, h₄, h₅, h₆⟩,
      fun ⟨h₁, h₂, h₃, h₄, h₅, h₆⟩ => ⟨h₁, h₂, h₃, h₄, h₅, h₆⟩⟩

instance decidableMild : (lexemes : List Lexeme) → Decidable (Mild controls lexemes)
  | [] => inferInstanceAs (Decidable True)
  | found :: rest =>
    have := decidableMild rest
    inferInstanceAs (Decidable (Fits controls found rest ∧ Mild controls rest))

theorem surplus_append (lexemes rest : List Lexeme) :
    surplus (lexemes ++ rest) = surplus lexemes + surplus rest := by
  induction lexemes with
  | nil => simp [surplus]
  | cons found lexemes ih =>
    rw [List.cons_append, surplus, surplus, ih, Int.add_assoc]

end Body

/-! ### What is ahead -/

/-- What may be known of the braces ahead: at least `surplus` closing ones have no opening
one. If the text `opens`, then the next brace is an opening one. If it is `fresh`, then among
controls no closing brace is the next token. -/
structure Stance where
  surplus : Int
  opens : Bool
  fresh : Bool

/-- The stance where only the number of closing braces is known. -/
abbrev Stance.loose (n : Int) : Stance := ⟨n, false, false⟩

namespace Input

/-- The text ahead is mild, and its braces are as the stance says. -/
structure Closes (controls : Bool) (stance : Stance) (input : Input) : Prop where
  mild : Body.Mild controls input.lexemes
  surplus : stance.surplus ≤ Body.surplus input.lexemes
  opens : stance.opens = true → Body.opensNext input.lexemes = true
  fresh : stance.fresh = true → controls = true →
    input.current.lexeme.isSymbol .rightBrace = false

namespace Closes

variable {controls opens fresh : Bool} {n m : Int} {input : Input}

theorem weaken (h : input.Closes controls ⟨n, opens, fresh⟩) (hle : m ≤ n) :
    input.Closes controls (.loose m) :=
  ⟨h.mild, Int.le_trans hle h.surplus, nofun, nofun⟩

theorem unopened (h : input.Closes controls ⟨n, opens, fresh⟩) :
    input.Closes controls ⟨n, false, fresh⟩ :=
  ⟨h.mild, h.surplus, nofun, h.fresh⟩

theorem stale (h : input.Closes controls ⟨n, opens, fresh⟩) :
    input.Closes controls ⟨n, opens, false⟩ :=
  ⟨h.mild, h.surplus, h.opens, nofun⟩

theorem fresher (h : input.Closes controls ⟨n, opens, true⟩) :
    input.Closes controls ⟨n, opens, fresh⟩ :=
  ⟨h.mild, h.surplus, h.opens, fun _ => h.fresh rfl⟩

theorem uncontrolled (h : input.Closes false ⟨n, opens, fresh⟩) :
    input.Closes false ⟨n, opens, true⟩ :=
  ⟨h.mild, h.surplus, h.opens, nofun⟩

theorem report (h : input.Closes controls ⟨n, opens, fresh⟩) (error : SyntaxError) :
    (input.report error).Closes controls ⟨n, opens, fresh⟩ :=
  ⟨h.mild, h.surplus, h.opens, h.fresh⟩

/-! #### The current token -/

/-- What the current lexeme asks of those after it, unless it is the end. -/
theorem fits (h : input.Closes controls ⟨n, opens, fresh⟩) {found : Lexeme}
    (hcurrent : input.current.lexeme = found) (hend : found.isEnd = false) :
    Body.Fits controls found input.advance.lexemes := by
  have hmild := h.mild
  obtain ⟨hnil, _⟩ | hcons := input.lexemes_cases
  · rw [← hcurrent, current_of_nil hnil] at hend
    cases hend
  · rw [hcons, hcurrent] at hmild
    exact hmild.1

/-- Among controls there are no functions. -/
theorem uncontrolled_of_func (h : input.Closes controls ⟨n, opens, fresh⟩)
    (hcurrent : input.current.lexeme = .keyword .funcWord) : controls = false :=
  (h.fits hcurrent rfl).func rfl

/-- A word that a statement has to follow stands among controls. -/
theorem controlled (h : input.Closes controls ⟨n, opens, fresh⟩) {found : Lexeme}
    (hcurrent : input.current.lexeme = found) (hcontrol : found.isControl = true) :
    controls = true := by
  have hend : found.isEnd = false := by
    cases found <;> first | rfl | cases hcontrol
  exact (h.fits hcurrent hend).control hcontrol

/-- The current token is the next brace, or it comes before and bars nothing. -/
theorem opens_current (h : input.Closes controls ⟨n, true, fresh⟩) :
    input.current.lexeme = .symbol .leftBrace ∨
      (input.current.lexeme.bars = false ∧ Body.opensNext input.advance.lexemes = true) := by
  have hopens := h.opens rfl
  obtain ⟨_, hnil⟩ | hcons := input.lexemes_cases
  · rw [hnil] at hopens
    cases hopens
  · rw [hcons, Body.opensNext] at hopens
    obtain hbrace | hrest := Bool.or_eq_true_iff.1 hopens
    · exact .inl (Lexeme.isSymbol_iff.1 hbrace)
    · simp only [Bool.and_eq_true, Bool.not_eq_true'] at hrest
      exact .inr hrest

/-- A lexeme that bars does not stand before the next opening brace. -/
theorem opens_eq (h : input.Closes controls ⟨n, opens, fresh⟩) {found : Lexeme}
    (hcurrent : input.current.lexeme = found) (hbars : found.bars = true) : opens = false := by
  cases opens with
  | false => rfl
  | true =>
    subst hcurrent
    obtain hbrace | ⟨hbars', _⟩ := h.opens_current
    · rw [hbrace] at hbars
      cases hbars
    · rw [hbars'] at hbars
      cases hbars

/-- Before the next opening brace there is no closing one. -/
theorem opened (h : input.Closes controls ⟨n, true, fresh⟩) :
    input.Closes controls ⟨n, true, true⟩ := by
  refine ⟨h.mild, h.surplus, h.opens, fun _ _ => ?_⟩
  obtain hbrace | ⟨hbars, _⟩ := h.opens_current
  · rw [hbrace]
    rfl
  · exact Lexeme.not_closing hbars

/-- No block ends before the next opening brace. -/
theorem not_endsBlock (h : input.Closes controls ⟨n, true, fresh⟩) :
    ¬ Grammar.endsBlock input.current.lexeme = true := by
  intro hends
  obtain hclosing | hend := Bool.or_eq_true_iff.1 hends
  · cases h.opens_eq (Lexeme.isSymbol_iff.1 hclosing) rfl
  · have hmild := h.mild
    have hopens := h.opens rfl
    obtain ⟨_, hnil⟩ | hcons := input.lexemes_cases
    · rw [hnil] at hopens
      cases hopens
    · rw [hcons] at hmild
      rw [hmild.1.isEnd] at hend
      cases hend

/-! #### Taking a token -/

theorem advance (h : input.Closes controls ⟨n, opens, fresh⟩) :
    input.advance.Closes controls (.loose (n - input.current.lexeme.weight)) := by
  obtain ⟨hnil, _⟩ | hcons := input.lexemes_cases
  · rw [advance_of_nil hnil, current_of_nil hnil]
    exact h.weaken (by simp [Lexeme.weight])
  · have hmild := h.mild
    have hsurplus := h.surplus
    rw [hcons] at hmild hsurplus
    rw [Body.surplus] at hsurplus
    exact ⟨hmild.2, Int.sub_left_le_of_le_add hsurplus, nofun, nofun⟩

/-- After a token that is neither a brace nor a semicolon, no closing brace is next among
controls. -/
theorem advance_fresh (h : input.Closes controls ⟨n, opens, fresh⟩) {found : Lexeme}
    (hcurrent : input.current.lexeme = found) (hpart : found.endsPart = false) :
    input.advance.Closes controls ⟨n, opens, true⟩ := by
  subst hcurrent
  have hadvance := h.advance
  rw [Lexeme.weight_of_endsPart hpart, Int.sub_zero] at hadvance
  obtain ⟨hnil, _⟩ | hcons := input.lexemes_cases
  · rw [advance_of_nil hnil]
    refine ⟨h.mild, h.surplus, h.opens, fun _ _ => ?_⟩
    rw [current_of_nil hnil]
    rfl
  · refine ⟨hadvance.mild, hadvance.surplus, fun ho => ?_, fun _ hcontrols => ?_⟩
    · subst ho
      obtain hbrace | ⟨_, hopens⟩ := h.opens_current
      · rw [hbrace] at hpart
        cases hpart
      · exact hopens
    · have hmild := h.mild
      rw [hcons] at hmild
      rw [current_lexeme]
      refine Bool.eq_false_iff.2 fun hclosing => ?_
      have hends := hmild.1.before hcontrols hclosing
      rw [hpart] at hends
      cases hends

/-- Taking a token that is no closing brace. -/
theorem advance_any (h : input.Closes controls ⟨n, opens, fresh⟩) {found : Lexeme}
    (hcurrent : input.current.lexeme = found) (hbrace : found.isSymbol .rightBrace = false) :
    input.advance.Closes controls (.loose n) := by
  subst hcurrent
  have hweight := Lexeme.weight_le hbrace
  exact h.advance.weaken (by omega)

theorem advance_open (h : input.Closes controls ⟨n, opens, fresh⟩)
    (hcurrent : input.current.lexeme = .symbol .leftBrace) :
    input.advance.Closes controls (.loose (n + 1)) := by
  have hadvance := h.advance
  rw [hcurrent] at hadvance
  exact hadvance

theorem advance_close (h : input.Closes controls ⟨n + 1, opens, fresh⟩)
    (hcurrent : input.current.lexeme = .symbol .rightBrace) :
    input.advance.Closes controls (.loose n) := by
  have hadvance := h.advance
  rw [hcurrent] at hadvance
  exact hadvance.weaken (by simp [Lexeme.weight])

/-- The brace of a switch comes after the word. -/
theorem advance_switch (h : input.Closes controls ⟨n, opens, fresh⟩)
    (hcurrent : input.current.lexeme = .keyword .switchWord) :
    input.advance.Closes controls ⟨n, true, true⟩ := by
  have hadvance := h.advance_fresh hcurrent rfl
  have hswitch := (h.fits hcurrent rfl).switch rfl
  exact ⟨hadvance.mild, hadvance.surplus, fun _ => hswitch.1, hadvance.fresh⟩

end Closes

/-- The next brace is taken, or it is still the next one. -/
theorem Closes.advance_held {controls fresh : Bool} {n : Int} {input : Input}
    (h : input.Closes controls ⟨n, true, fresh⟩) :
    input.advance.Closes controls (.loose (n + 1)) ∨
      input.advance.Closes controls ⟨n, true, true⟩ := by
  obtain hbrace | ⟨hbars, hopens⟩ := h.opens_current
  · exact .inl (h.advance_open hbrace)
  · have hadvance := h.advance_any rfl (Lexeme.not_closing hbars)
    have hopened : input.advance.Closes controls ⟨n, true, false⟩ :=
      ⟨hadvance.mild, hadvance.surplus, fun _ => hopens, nofun⟩
    exact .inr hopened.opened

/-- The skipping after an error takes no closing brace. -/
theorem Closes.synchronize {controls opens fresh : Bool} {n : Int} {input : Input}
    (h : input.Closes controls ⟨n, opens, fresh⟩) :
    input.synchronize.Closes controls (.loose n) := by
  induction hlength : input.ahead.length generalizing input opens fresh with
  | zero =>
    rw [synchronize_eq, if_pos (.inl (List.length_eq_zero_iff.1 hlength))]
    exact h.weaken (Int.le_refl n)
  | succ length ih =>
    rw [synchronize_eq]
    split
    · exact h.weaken (Int.le_refl n)
    · next hgoes =>
      have hbrace : input.current.lexeme.isSymbol .rightBrace = false := by
        refine Bool.eq_false_iff.2 fun hclosing => hgoes (.inr ?_)
        rw [Lexeme.isSymbol_iff.1 hclosing]
        rfl
      have hadvance := h.advance_any rfl hbrace
      split
      · exact hadvance
      · have hshorter := advance_length fun hnil => hgoes (.inl hnil)
        exact ih hadvance (by omega)

end Input

end Betty
