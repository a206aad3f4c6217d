import Betty.Proofs.Parser.Progress
import Betty.Proofs.Parser.Runs

/-!
# The parser goes by lexemes

The grammar looks at the lexemes of tokens only. It passes their positions on, to the
nodes of the tree and to the errors, but nothing that it does depends on them. So two
rows of tokens with the same lexemes take the same way through the grammar, and the trees
and the errors that they yield are alike.

## Main definitions

* `Reading.Alike`: two steps that keep inputs alike and yield what is alike.
* `SameToken`: the positions of the tokens with the same index in two texts.

## Main results

* `Source.parse_alike`: texts with the same lexemes have programs that are alike.
* `parse_goes_by_lexemes`: the parser sees only the lexemes.
-/

namespace Betty

variable {same : Position → Position → Prop}

/-- From inputs that are alike the steps end in the same way, with values as `made` says,
with errors that are alike, and with inputs that are alike again. -/
def Reading.Alike {α : Type} (same : Position → Position → Prop) (made : α → α → Prop)
    (step step' : Reading α) : Prop :=
  ∀ input input' : Input, input.Alike same input' → (step input).Meets
    (fun value after => ∃ value' after', made value value' ∧ after.Alike same after' ∧
      step' input' = .done value' after')
    (fun error after => ∃ error' after', error.Alike same error' ∧ after.Alike same after' ∧
      step' input' = .failed error' after')
    True

theorem Reading.Alike.of_keeps {α : Type} {made : α → α → Prop} {step step' : Reading α}
    (h : (Kinship.restyled same).Keeps made step step') : step.Alike same made step' := by
  intro input input' hinput
  have hagrees := h.agrees ⟨False.elim, fun _ => hinput⟩
  unfold Kinship.Agrees at hagrees
  simp only [Kinship.restyled, Input.within_nothing] at hagrees
  refine hagrees.imp ?_ ?_ id
  · intro value after hsame
    obtain ⟨value', left, left', rfl, hvalue, hleft, hdone⟩ := hsame (.inl ⟨rfl, rfl⟩)
    exact ⟨value', left', hvalue.alike id, hleft.alike id, hdone⟩
  · intro error after hsame
    obtain ⟨error', left, left', rfl, herror, hleft, hfailed⟩ := hsame (.inl ⟨rfl, rfl⟩)
    exact ⟨error', left', herror.alike id, hleft.alike id, hfailed⟩

/-! ### Programs -/

namespace Grammar

open Reading

/-- A change that keeps inputs alike, with nothing around them. -/
theorem restyled_update {change change' : Input → Input}
    (h : ∀ {input input' : Input}, input.Alike same input' →
      (change input).Alike same (change' input')) :
    (Kinship.restyled same).Keeps (· = ·) (Action.update change) (Action.update change') := by
  refine ⟨False.elim, fun {own own'} hown _ => ⟨(), change own, change' own', ?_, .rfl,
    ⟨False.elim, fun _ => h (hown.alike id)⟩, ?_⟩⟩
  · simp [Kinship.restyled]
  · simp [Kinship.restyled, Action.update]

theorem globals_keeps (fuel : Nat) : (Kinship.restyled same).Keeps
    (List.Forall₂ (SameName same)) (globals fuel) (globals fuel) := by
  induction fuel with
  | zero => exact .exhausted
  | succ fuel ih =>
    rw [globals]
    have hnone : (Kinship.restyled same).Pair (List.Forall₂ (SameName same)) [] [] :=
      ⟨fun _ => rfl, fun _ => .nil⟩
    have hfound : (Kinship.restyled same).Keeps (List.Forall₂ (SameName same))
        (do
          advance
          let found ← names .globalVariable fuel
          expectSymbol .semicolon
          return found)
        (do
          advance
          let found ← names .globalVariable fuel
          expectSymbol .semicolon
          return found) :=
      .andThen .advance fun _ => .bind (names_keeps _ (Nat.le_refl fuel)) fun _ _ h =>
        .andThen (.expectSymbol _) fun _ => .pure h
    refine .andThen (.atKeyword _) fun _ => .ite ?_ (.pure hnone)
    refine .bind (.recover hfound fun error error' herror => ?_) fun found found' h => ?_
    · exact .andThen (restyled_update fun h => (h.report (herror.alike id)).synchronize)
        fun _ => .pure hnone
    · exact .bind ih fun rest rest' hrest =>
        .pure ⟨False.elim, fun a => List.rel_append (h.alike a) (hrest.alike a)⟩

theorem functions_keeps (fuel : Nat) : (Kinship.restyled same).Keeps
    (List.Forall₂ (Declaration.Alike same)) (functions fuel) (functions fuel) := by
  induction fuel with
  | zero => exact .exhausted
  | succ fuel ih =>
    have hnone : (Kinship.restyled same).Pair (List.Forall₂ (Declaration.Alike same)) [] [] :=
      ⟨fun _ => rfl, fun _ => .nil⟩
    rw [functions]
    refine .andThen .lexeme fun found => ?_
    split
    · exact .pure hnone
    · have hfound : (Kinship.restyled same).Keeps (List.Forall₂ (Declaration.Alike same))
          (do
            let declaration ← definition fuel
            return [declaration])
          (do
            let declaration ← definition fuel
            return [declaration]) :=
        .bind (keeping _ (Nat.le_refl fuel)).definition fun _ _ h =>
          .pure (h.map (fun declaration => [declaration]) fun a => .cons a .nil)
      refine .bind (.recover hfound fun error error' herror => ?_) fun found found' h => ?_
      · exact .andThen (restyled_update fun h => (h.report (herror.alike id)).skipBody)
          fun _ => .pure hnone
      · exact .bind ih fun rest rest' hrest =>
          .pure ⟨False.elim, fun a => List.rel_append (h.alike a) (hrest.alike a)⟩
    · exact .andThen (.absorb _) fun _ => ih
    · exact .andThen (.report _) fun _ => .andThen .advance fun _ => ih

theorem program_alike (fuel : Nat) :
    Reading.Alike same (Program.Alike same) (program fuel) (program fuel) :=
  .of_keeps (.bind (globals_keeps fuel) fun _ _ hfound => .bind (functions_keeps fuel)
    fun _ _ hrest => .pure ⟨False.elim, fun a => ⟨hfound.alike a, hrest.alike a⟩⟩)

end Grammar

/-! ### Whole texts -/

/-- The positions of the tokens with the same index in two texts. -/
def SameToken (text text' : String) (p p' : Position) : Prop :=
  ∃ (i : Nat) (token token' : Token), (tokenize text)[i]? = some token ∧
    (tokenize text')[i]? = some token' ∧ token.position = p ∧ token'.position = p'

namespace Source

variable {source source' : Source}

theorem input_alike (h : (tokenize source.text).map Token.lexeme =
    (tokenize source'.text).map Token.lexeme) :
    source.input.Alike (SameToken source.text source'.text) source'.input := by
  have htokens := source.tokenize_eq_input.1
  have htokens' := source'.tokenize_eq_input.1
  have hahead : source.input.ahead.map Token.lexeme = source'.input.ahead.map Token.lexeme := by
    rw [htokens, htokens', List.map_append, List.map_append] at h
    exact List.append_cancel_right h
  have hlength : source.input.ahead.length = source'.input.ahead.length := by
    have hlength := congrArg List.length hahead
    rwa [List.length_map, List.length_map] at hlength
  refine ⟨List.forall₂_iff_get.2 ⟨hlength, fun i hi hi' => ⟨?_, i, _, _, ?_, ?_, rfl, rfl⟩⟩,
    ⟨source.input.ahead.length, ⟨.endOfInput, source.input.finish⟩,
      ⟨.endOfInput, source'.input.finish⟩, ?_, ?_, rfl, rfl⟩, rfl, .nil⟩
  · have hi := List.getElem_of_eq hahead (by rwa [List.length_map])
    rwa [List.getElem_map, List.getElem_map] at hi
  · rw [htokens, List.getElem?_append_left hi, List.getElem?_eq_getElem hi]
    rfl
  · rw [htokens', List.getElem?_append_left hi', List.getElem?_eq_getElem hi']
    rfl
  · rw [htokens, List.getElem?_concat_length]
  · rw [htokens', hlength, List.getElem?_concat_length]

/-- Texts with the same lexemes have programs and errors that are alike. -/
theorem parse_alike (h : (tokenize source.text).map Token.lexeme =
    (tokenize source'.text).map Token.lexeme) :
    source.parse.program.Alike (SameToken source.text source'.text) source'.parse.program ∧
      List.Forall₂ (SyntaxError.Alike (SameToken source.text source'.text)) source.parse.errors
        source'.parse.errors := by
  have hinput := input_alike h
  have hfuel : Grammar.fuelFor source.input = Grammar.fuelFor source'.input := by
    unfold Grammar.fuelFor
    rw [hinput.ahead.length_eq]
  obtain ⟨program, final, hprogram, _, _⟩ := source.program_done
  have hends := Grammar.program_alike (Grammar.fuelFor source.input) _ _ hinput
  rw [hprogram] at hends
  obtain ⟨program', final', halike, hfinal, hprogram'⟩ := hends
  rw [hfuel] at hprogram'
  rw [parse_eq hprogram, parse_eq hprogram']
  exact ⟨halike, hfinal.errors⟩

end Source

/-- The parser sees only the lexemes. If two texts have the same lexemes, one after the
other, then

* their programs are equal up to positions, and the positions at the same node of both are
  those of the tokens with the same index;
* as many errors are recorded, with the same messages, and they too are at the tokens with
  the same index. -/
theorem parse_goes_by_lexemes (source source' : Source)
    (h : (tokenize source.text).map Token.lexeme = (tokenize source'.text).map Token.lexeme) :
    source.parse.program.Alike (SameToken source.text source'.text) source'.parse.program ∧
      source.parse.errors.map SyntaxError.message = source'.parse.errors.map SyntaxError.message ∧
      List.Forall₂ (SameToken source.text source'.text)
        (source.parse.errors.map SyntaxError.position)
        (source'.parse.errors.map SyntaxError.position) := by
  obtain ⟨hprogram, herrors⟩ := Source.parse_alike h
  refine ⟨hprogram, ?_, ?_⟩
  · rw [← List.forall₂_eq_eq_eq, List.forall₂_map_left_iff, List.forall₂_map_right_iff]
    exact herrors.imp fun _ _ herror => congrArg SyntaxFault.message herror.fault
  · rw [List.forall₂_map_left_iff, List.forall₂_map_right_iff]
    exact herrors.imp fun _ _ herror => herror.position

/-- A function with a stray bracket. -/
def Source.dense : Source := .ofText "func f()\x7bx];\x7d"

/-- The same function, with blanks and comments between its tokens. -/
def Source.sparse : Source := .ofText "# a function\nfunc f ( ) \x7b\n  x ] ; # stray\n\x7d"

/-- The tokens of the function. -/
def Source.strayTokens (places : List Position) : List Token :=
  List.zipWith Token.mk [.keyword .funcWord, .identifier "f", .symbol .leftParen,
    .symbol .rightParen, .symbol .leftBrace, .identifier "x", .symbol .rightBracket,
    .symbol .semicolon, .symbol .rightBrace, .endOfInput] places

/-- What is read of the function: where it starts, where the name in its body is and where
the bracket is, are as given. -/
def Parsed.stray (start name bracket : Position) : Parsed where
  program := ⟨[], [⟨0, start, some "f", [], .block [.expr (.name name "x"),
    .error bracket (.unexpected (.symbol .rightBracket))]⟩]⟩
  errors := [⟨.expectedSymbol .semicolon (.symbol .rightBracket), bracket⟩,
    ⟨.unexpected (.symbol .rightBracket), bracket⟩]

/-- What is read of both texts, and how it is alike: the function, the name and the bracket are
the first, the sixth and the seventh token. -/
theorem parse_goes_by_lexemes_sparse :
    ((tokenize Source.dense.text).map Token.lexeme =
        (tokenize Source.sparse.text).map Token.lexeme ∧
      Source.dense.parse = .stray ⟨1, 1⟩ ⟨1, 10⟩ ⟨1, 11⟩ ∧
      Source.sparse.parse = .stray ⟨2, 1⟩ ⟨3, 3⟩ ⟨3, 5⟩) ∧
    Source.dense.parse.program.Alike (SameToken Source.dense.text Source.sparse.text)
        Source.sparse.parse.program ∧
      Source.dense.parse.errors.map SyntaxError.message =
        Source.sparse.parse.errors.map SyntaxError.message ∧
      List.Forall₂ (SameToken Source.dense.text Source.sparse.text)
        (Source.dense.parse.errors.map SyntaxError.position)
        (Source.sparse.parse.errors.map SyntaxError.position) := by
  have hdense : tokenize Source.dense.text = Source.strayTokens [⟨1, 1⟩, ⟨1, 6⟩, ⟨1, 7⟩, ⟨1, 8⟩,
      ⟨1, 9⟩, ⟨1, 10⟩, ⟨1, 11⟩, ⟨1, 12⟩, ⟨1, 13⟩, ⟨1, 14⟩] := rfl
  have hsparse : tokenize Source.sparse.text = Source.strayTokens [⟨2, 1⟩, ⟨2, 6⟩, ⟨2, 8⟩,
      ⟨2, 10⟩, ⟨2, 12⟩, ⟨3, 3⟩, ⟨3, 5⟩, ⟨3, 7⟩, ⟨4, 1⟩, ⟨4, 2⟩] := rfl
  have hlexemes : (tokenize Source.dense.text).map Token.lexeme =
      (tokenize Source.sparse.text).map Token.lexeme := by
    rw [hdense, hsparse]
    rfl
  refine ⟨⟨hlexemes, ?_, ?_⟩, parse_goes_by_lexemes .dense .sparse hlexemes⟩
  · rw [Source.parse, Source.input, hdense]
    rfl
  · rw [Source.parse, Source.input, hsparse]
    rfl

end Betty
