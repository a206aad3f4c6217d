import Betty.Proofs.Token.Spelling

/-!
# Laying out lexemes as a text

Each lexeme has a spelling, except for the two that no text spells: the one that marks
the end and the one for a fault. A row of lexemes is laid out as their spellings with a
blank between each two.

## Main definitions

* `Lexeme.spelling`: a spelling of a lexeme.
* `layout`: the text of a row of lexemes.

## Main results

* `spelled_layout`: the text of lexemes that can be spelled does spell them.
-/

namespace Betty

/-- The spelling of a character between quotes, escaped where it has to be. -/
def quoted (quote c : Char) : List Char :=
  if c = quote || c = '\\' then ['\\', c] else [c]

/-- A spelling of a lexeme. `numeral` spells numbers. -/
def Lexeme.spelling (numeral : Float → List Char) : Lexeme → List Char
  | number value => numeral value
  | text value => '"' :: (value.toList.flatMap (quoted '"') ++ ['"'])
  | character value => '\'' :: (quoted '\'' value ++ ['\''])
  | identifier name => name.toList
  | keyword word => word.spelling.toList
  | symbol sign => sign.spelling.toList
  | endOfInput | error _ => []

/-- The spellings of lexemes with blanks between them. -/
def layout (numeral : Float → List Char) : List Lexeme → List Char
  | [] => []
  | [lexeme] => lexeme.spelling numeral
  | lexeme :: rest => lexeme.spelling numeral ++ ' ' :: layout numeral rest

theorem spellsQuoted_quoted {quote : Char} (c : Char) (h : escape? quote = some quote) :
    SpellsQuoted quote c (quoted quote c) := by
  unfold quoted
  split
  · next hspecial =>
    simp only [Bool.or_eq_true, decide_eq_true_eq] at hspecial
    rcases hspecial with rfl | rfl
    · exact .escaped h
    · exact .escaped rfl
  · next hplain =>
    simp only [Bool.or_eq_true, decide_eq_true_eq, not_or] at hplain
    exact .plain hplain.1 hplain.2

theorem spellsText_quoted (value : List Char) : SpellsText value (value.flatMap (quoted '"')) := by
  induction value with
  | nil => exact .nil
  | cons c value ih => exact .cons (spellsQuoted_quoted c rfl) ih

/-- Each of these lexemes is one that can be spelled. -/
def Spellable (numeral : Float → List Char) (lexemes : List Lexeme) : Prop :=
  ∀ lexeme ∈ lexemes, Spells lexeme (lexeme.spelling numeral)

section

variable {numeral : Float → List Char}

@[simp]
theorem spellable_nil : Spellable numeral [] :=
  nofun

@[simp]
theorem spellable_cons {lexeme : Lexeme} {lexemes : List Lexeme} :
    Spellable numeral (lexeme :: lexemes) ↔
      Spells lexeme (lexeme.spelling numeral) ∧ Spellable numeral lexemes :=
  List.forall_mem_cons

@[simp]
theorem spellable_append {lexemes rest : List Lexeme} :
    Spellable numeral (lexemes ++ rest) ↔ Spellable numeral lexemes ∧ Spellable numeral rest :=
  List.forall_mem_append

@[simp]
theorem spells_keyword (word : Keyword) :
    Spells (.keyword word) ((Lexeme.keyword word).spelling numeral) :=
  .keyword (by cases word <;> rfl)

@[simp]
theorem spells_symbol (sign : Symbol) :
    Spells (.symbol sign) ((Lexeme.symbol sign).spelling numeral) :=
  .symbol sign

@[simp]
theorem spells_text (value : String) :
    Spells (.text value) ((Lexeme.text value).spelling numeral) :=
  .text (spellsText_quoted value.toList)

@[simp]
theorem spells_character (value : Char) :
    Spells (.character value) ((Lexeme.character value).spelling numeral) :=
  .character (spellsQuoted_quoted value rfl)

theorem spells_identifier {name : String} (h : isName name) :
    Spells (.identifier name) ((Lexeme.identifier name).spelling numeral) :=
  .identifier h

end

theorem Spelled.blank {lexemes : List Lexeme} {text : List Char} (h : Spelled lexemes text) :
    Spelled lexemes (' ' :: text) := by
  cases h with
  | nil hgap => exact .nil (.blank rfl hgap)
  | cons hgap h hparted hrest => exact .cons (.blank rfl hgap) h hparted hrest

theorem spelled_layout {numeral : Float → List Char} {lexemes : List Lexeme}
    (h : Spellable numeral lexemes) : Spelled lexemes (layout numeral lexemes) := by
  induction lexemes with
  | nil => exact .nil .nil
  | cons lexeme rest ih =>
    obtain ⟨hlexeme, hrest⟩ := spellable_cons.1 h
    cases rest with
    | nil =>
      have hparted : Parted [] := fun _ => nofun
      have hone := Spelled.cons .nil hlexeme hparted (.nil .nil)
      rwa [List.append_nil] at hone
    | cons next rest =>
      have hparted : Parted (' ' :: layout numeral (next :: rest)) := by
        rintro c ⟨⟩
        rfl
      exact .cons .nil hlexeme hparted (ih hrest).blank

end Betty
