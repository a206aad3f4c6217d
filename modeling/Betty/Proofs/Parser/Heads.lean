import Betty.Proofs.Parser.Boundary
import Betty.Proofs.Parser.Progress

/-!
# Functions with malformed heads

A function whose head is malformed is dropped together with its body. The error is noticed in
the head, or at the brace that opens the body. From there on everything up to that brace is
skipped, and then everything up to the one that closes it, so the functions around it are read
as if they stood alone.

## Main definitions

* `Balanced`: every brace among some tokens has its partner among them.
* `Input.HeadTaken`: some lexemes of a head have been taken.
* `Item`: a well-formed function, or one with a malformed head.

## Main results

* `Input.skipBody_balanced`: skipping ends after the body.
* `Grammar.definition_broken`: where the error in a malformed head is noticed.
* `broken_heads_drop_functions`: a malformed head costs one function and one error.
-/

namespace Betty

/-! ### Bodies that are skipped -/

/-- Every brace among the tokens has its partner among them. -/
inductive Balanced : List Token → Prop
  | nil : Balanced []
  | cons {token : Token} {rest : List Token} (hopen : token.lexeme ≠ .symbol .leftBrace)
      (hclose : token.lexeme ≠ .symbol .rightBrace) (hrest : Balanced rest) :
      Balanced (token :: rest)
  | block (opening closing : Position) {inner rest : List Token} (hinner : Balanced inner)
      (hrest : Balanced rest) :
      Balanced (⟨.symbol .leftBrace, opening⟩ :: (inner ++ ⟨.symbol .rightBrace, closing⟩ :: rest))

namespace Input

/-- The search for the closing brace passes balanced tokens. -/
theorem bracedLength_balanced {inner : List Token} (h : Balanced inner) (depth : Nat)
    (rest : List Token) :
    bracedLength (depth + 1) (inner ++ rest) = inner.length + bracedLength (depth + 1) rest := by
  induction h generalizing depth rest with
  | nil => simp
  | cons hopen hclose _ ih =>
    simp only [List.cons_append, bracedLength, Lexeme.isSymbol_iff, hopen, hclose, if_false, ih,
      List.length_cons]
    omega
  | block opening closing _ _ ihinner ihrest =>
    simp [bracedLength, Lexeme.isSymbol, ihinner, ihrest]
    omega

theorem skip_ahead (n : Nat) (input : Input) : (input.skip n).ahead = input.ahead.drop n := by
  induction n generalizing input with
  | zero => rfl
  | succ n ih => rw [skip, ih, advance_ahead, List.drop_tail]

theorem skip_errors (n : Nat) (input : Input) : (input.skip n).errors = input.errors := by
  induction n generalizing input with
  | zero => rfl
  | succ n ih => rw [skip, ih, advance_errors]

/-- Skipping ends after the body. -/
theorem skipBody_balanced {input : Input} {left body rest : List Token}
    {opening closing : Position}
    (hleft : ∀ token ∈ left,
      token.lexeme ≠ .symbol .leftBrace ∧ token.lexeme ≠ .keyword .funcWord)
    (hbody : Balanced body)
    (hahead : input.ahead = left ++ ⟨.symbol .leftBrace, opening⟩ ::
      (body ++ ⟨.symbol .rightBrace, closing⟩ :: rest)) :
    input.skipBody.ahead = rest ∧ input.skipBody.errors = input.errors := by
  have hpassed : input.ahead.takeWhile (fun t =>
      !(t.lexeme.isSymbol .leftBrace || t.lexeme.isKeyword .funcWord)) = left := by
    rw [hahead, List.takeWhile_append_of_pos]
    · simp [Lexeme.isSymbol]
    · intro token hmem
      obtain ⟨hopen, hfunc⟩ := hleft token hmem
      simp [← Bool.not_eq_true, Lexeme.isSymbol_iff, Lexeme.isKeyword_iff, hopen, hfunc]
  have hstopped : (input.skip left.length).ahead = ⟨.symbol .leftBrace, opening⟩ ::
      (body ++ ⟨.symbol .rightBrace, closing⟩ :: rest) := by
    rw [skip_ahead, hahead, List.drop_left]
  have hlength : bracedLength 0 (input.skip left.length).ahead = body.length + 2 := by
    rw [hstopped]
    simp [bracedLength, Lexeme.isSymbol, bracedLength_balanced hbody 0]
  have hskip : input.skipBody = (input.skip left.length).skip (body.length + 2) := by
    unfold skipBody
    simp only [hpassed, current_of_ahead hstopped, hlength]
    rfl
  rw [hskip]
  refine ⟨?_, by rw [skip_errors, skip_errors]⟩
  rw [skip_ahead, hstopped]
  simp

/-! ### Heads -/

/-- From `start` on, exactly the `lexemes` have been taken. No error has been recorded, and
none of them is an opening brace. -/
structure HeadTaken (start input : Input) (lexemes : List Lexeme) : Prop where
  passed : ∃ passed, start.ahead = passed ++ input.ahead ∧ passed.map Token.lexeme = lexemes
  unopened : .symbol .leftBrace ∉ lexemes
  errors : input.errors = start.errors

namespace HeadTaken

variable {start input : Input} {lexemes : List Lexeme}

theorem refl (start : Input) : start.HeadTaken start [] :=
  ⟨⟨[], rfl, rfl⟩, List.not_mem_nil, rfl⟩

theorem advance (h : start.HeadTaken input lexemes) {found : Lexeme}
    (hfound : input.current.lexeme = found) (hend : found.isEnd = false)
    (hopen : found.isSymbol .leftBrace = false) :
    start.HeadTaken input.advance (lexemes ++ [found]) := by
  obtain ⟨⟨passed, hpassed, hlexemes⟩, hunopened, herrors⟩ := h
  have hahead : input.ahead ≠ [] := by
    refine ahead_ne_nil fun hcurrent => ?_
    rw [← hfound, hcurrent] at hend
    cases hend
  obtain ⟨token, rest, hcons⟩ := List.exists_cons_of_ne_nil hahead
  refine ⟨⟨passed ++ [token], ?_, ?_⟩, ?_, by rw [advance_errors, herrors]⟩
  · rw [hpassed, advance_ahead, hcons]
    simp
  · rw [← hfound, current_of_ahead hcons, ← hlexemes]
    simp
  · rw [List.mem_append, List.mem_singleton]
    rintro (hmem | rfl)
    · exact hunopened hmem
    · cases hopen

/-- What has been taken stands before the brace that opens the body. -/
theorem before_brace (h : start.HeadTaken input lexemes) {head rest : List Token}
    {opening : Position} (hstart : start.ahead = head ++ ⟨.symbol .leftBrace, opening⟩ :: rest) :
    ∃ passed left, head = passed ++ left ∧ passed.map Token.lexeme = lexemes ∧
      input.ahead = left ++ ⟨.symbol .leftBrace, opening⟩ :: rest := by
  obtain ⟨⟨passed, hpassed, hlexemes⟩, hunopened, _⟩ := h
  rw [hstart] at hpassed
  obtain ⟨more, hmore, hrest⟩ | ⟨left, hleft, hahead⟩ := List.append_eq_append_iff.1 hpassed
  · cases more with
    | nil => exact ⟨passed, [], by simpa using hmore.symm, hlexemes, hrest.symm⟩
    | cons token more =>
      -- The brace would have been taken.
      refine (hunopened ?_).elim
      rw [← hlexemes, hmore, ← (List.cons.inj hrest).1]
      simp
  · exact ⟨passed, left, hleft, hlexemes, hahead⟩

end HeadTaken

end Input

/-- The lexemes of a well-formed head. -/
def headLexemes (name : String) (listed : List String) : List Lexeme :=
  .identifier name :: .symbol .leftParen :: (namesLexemes listed ++ [.symbol .rightParen])

namespace Grammar

open Reading

/-- The reading of a head has failed at the current token. -/
def HeadFails (start : Input) (error : SyntaxError) (after : Input) : Prop :=
  (∃ lexemes, start.HeadTaken after lexemes) ∧ error.position = after.current.position

variable {start input : Input} {before : List Lexeme}

theorem reject_head {α : Type} {done : α → Input → Prop} {cut : Prop}
    (h : start.HeadTaken input before) (fault : Lexeme → SyntaxFault) :
    ((reject fault : Reading α) input).Meets done (HeadFails start) cut :=
  ⟨⟨before, h⟩, rfl⟩

/-- Whether a given sign stands there decides what happens. -/
theorem meets_ifSymbol {α : Type} {done : α → Input → Prop} {failed : SyntaxError → Input → Prop}
    {cut : Prop} {sign : Symbol} {yes no : Reading α}
    (hyes : input.current.lexeme = .symbol sign → (yes input).Meets done failed cut)
    (hno : input.current.lexeme ≠ .symbol sign → (no input).Meets done failed cut) :
    ((do if ← atSymbol sign then yes else no) input).Meets done failed cut := by
  rw [Action.meets_bind]
  refine (Action.meets_gets _ _).2 ?_
  split
  · next hsign => exact hyes (Lexeme.isSymbol_iff.1 hsign)
  · next hsign => exact hno (mt Lexeme.isSymbol_iff.2 hsign)

theorem expectName_head (h : start.HeadTaken input before) (role : NameRole) :
    (expectName role input).Meets
      (fun name after => start.HeadTaken after (before ++ [.identifier name])) (HeadFails start)
      True := by
  unfold expectName
  refine (meets_lexeme _).2 fun found hfound => ?_
  split
  · exact h.advance hfound rfl rfl
  · exact reject_head h _

theorem names_head (h : start.HeadTaken input before) (role : NameRole) (fuel : Nat) :
    (names role fuel input).Meets
      (fun found after => found ≠ [] ∧
        start.HeadTaken after (before ++ namesLexemes (found.map Prod.fst)))
      (HeadFails start) True := by
  induction fuel generalizing input before with
  | zero => trivial
  | succ fuel ih =>
    rw [names]
    refine (meets_position _).2 ?_
    rw [Action.meets_bind]
    refine (expectName_head h role).imp ?_ (fun _ _ => id) id
    intro name middle hname
    refine meets_ifSymbol (fun hcomma => ?_) fun _ => ⟨List.cons_ne_nil _ _, hname⟩
    simp only [Action.meets_bind]
    refine (ih (hname.advance hcomma rfl rfl)).imp ?_ (fun _ _ => id) id
    rintro found after ⟨hfound, htaken⟩
    refine ⟨List.cons_ne_nil _ _, ?_⟩
    obtain ⟨next, rest, rfl⟩ := List.exists_cons_of_ne_nil hfound
    simpa [namesLexemes] using htaken

theorem parameters_head (h : start.HeadTaken input before) (fuel : Nat) :
    (parameters fuel input).Meets
      (fun found after => start.HeadTaken after
        (before ++ .symbol .leftParen :: (namesLexemes found ++ [.symbol .rightParen])))
      (HeadFails start) True := by
  have hclose : ∀ (found : List (String × Position)) middle,
      start.HeadTaken middle
        (before ++ .symbol .leftParen :: namesLexemes (found.map Prod.fst)) →
      ((do
        if ← atSymbol .rightParen then
          advance
          return found.map Prod.fst
        else reject .unclosedParameters : Reading (List String)) middle).Meets
        (fun found after => start.HeadTaken after
          (before ++ .symbol .leftParen :: (namesLexemes found ++ [.symbol .rightParen])))
        (HeadFails start) True := by
    intro found middle htaken
    refine meets_ifSymbol (fun hclose => ?_) fun _ => reject_head htaken _
    have hall := htaken.advance hclose rfl rfl
    rw [List.append_assoc, List.cons_append] at hall
    exact hall
  unfold parameters
  refine meets_ifSymbol (fun hopen => ?_) fun _ => reject_head h _
  have htaken := h.advance hopen rfl rfl
  rw [Action.meets_bind]
  refine (Action.meets_update _ _).2 (meets_ifSymbol (fun _ => hclose [] _ htaken) fun _ => ?_)
  rw [Action.meets_bind]
  refine (names_head htaken .parameter fuel).imp ?_ (fun _ _ => id) id
  rintro found middle ⟨_, hfound⟩
  rw [List.append_assoc] at hfound
  exact hclose found middle hfound

/-- An error in the head of a function is noticed at a token of the head, or at the brace after
it. Nothing has been recorded then. -/
theorem definition_broken {head rest : List Token} {place opening : Position}
    (hhead : ∀ token ∈ head, token.lexeme ≠ .symbol .leftBrace)
    (hbroken : ∀ name listed, head.map Token.lexeme ≠ headLexemes name listed)
    (hinput : input.ahead =
      ⟨.keyword .funcWord, place⟩ :: (head ++ ⟨.symbol .leftBrace, opening⟩ :: rest))
    (fuel : Nat) :
    (definition fuel input).Meets (fun _ _ => False)
      (fun error after => after.errors = input.errors ∧
        (∃ left, left <:+ head ∧ after.ahead = left ++ ⟨.symbol .leftBrace, opening⟩ :: rest) ∧
        error.position ∈ head.map Token.position ++ [opening])
      True := by
  have hstart : input.advance.ahead = head ++ ⟨.symbol .leftBrace, opening⟩ :: rest := by
    rw [Input.advance_ahead, hinput]
    rfl
  -- Whatever has been taken of the head, an error at the current token is as it should be.
  have hfails : ∀ error after, HeadFails input.advance error after →
      after.errors = input.errors ∧
        (∃ left, left <:+ head ∧ after.ahead = left ++ ⟨.symbol .leftBrace, opening⟩ :: rest) ∧
        error.position ∈ head.map Token.position ++ [opening] := by
    rintro error after ⟨⟨lexemes, htaken⟩, hposition⟩
    obtain ⟨passed, left, hsplit, _, hahead⟩ := htaken.before_brace hstart
    refine ⟨by rw [htaken.errors, Input.advance_errors], ⟨left, ⟨passed, hsplit.symm⟩, hahead⟩, ?_⟩
    rw [hposition, hsplit]
    cases left with
    | nil =>
      rw [Input.current_of_ahead hahead]
      simp
    | cons token left =>
      rw [Input.current_of_ahead hahead]
      simp
  cases fuel with
  | zero => trivial
  | succ fuel =>
    rw [definition]
    refine (meets_position _).2 ?_
    rw [Action.meets_bind]
    refine (Action.meets_update _ _).2 ?_
    rw [Action.meets_bind]
    refine (expectName_head (.refl _) .function).imp ?_ hfails id
    intro name named hname
    cases fuel with
    | zero => trivial
    | succ fuel =>
      rw [function, Action.meets_bind]
      refine (parameters_head hname fuel).imp ?_ hfails id
      intro listed closed hlisted
      refine meets_ifSymbol (fun hopen => ?_) fun _ => hfails _ _ ⟨⟨_, hlisted⟩, rfl⟩
      -- The whole head would have been taken.
      obtain ⟨passed, left, hsplit, hlexemes, hahead⟩ := hlisted.before_brace hstart
      cases left with
      | nil =>
        refine (hbroken name listed ?_).elim
        rw [hsplit, List.append_nil, hlexemes]
        simp [headLexemes]
      | cons token left =>
        rw [Input.current_of_ahead hahead] at hopen
        refine (hhead token ?_ hopen).elim
        rw [hsplit]
        simp

end Grammar

/-! ### Rows of functions -/

/-- A function as it stands in a text. -/
inductive Item where
  /-- A well-formed function. -/
  | sound (start : Position) (tokens : List Token) (declaration : Declaration)
  /-- A function whose head is malformed. -/
  | broken (start : Position) (head : List Token) (opening : Position) (body : List Token)
      (closing : Position)

namespace Item

/-- The tokens of a function. -/
def tokens : Item → List Token
  | sound start tokens _ => ⟨.keyword .funcWord, start⟩ :: tokens
  | broken start head opening body closing =>
    ⟨.keyword .funcWord, start⟩ :: (head ++ ⟨.symbol .leftBrace, opening⟩ ::
      (body ++ [⟨.symbol .rightBrace, closing⟩]))

/-- Is the head of the function malformed? -/
def isBroken : Item → Bool
  | sound .. => false
  | broken .. => true

/-- A well-formed function is alone in its text, which has no error. A malformed head has no
brace, and no other function starts in it. The body has as many opening as closing braces. -/
def Fits : Item → Prop
  | sound start tokens declaration => ∃ alone : Source,
      (tokenize alone.text).map Token.lexeme =
        (sound start tokens declaration).tokens.map Token.lexeme ++ [.endOfInput] ∧
      alone.parse = ⟨⟨[], [declaration]⟩, []⟩
  | broken _ head _ body _ =>
      (∀ token ∈ head, token.lexeme ≠ .symbol .leftBrace ∧ token.lexeme ≠ .keyword .funcWord) ∧
      (∀ name listed, head.map Token.lexeme ≠ headLexemes name listed) ∧ Balanced body

/-- The function that is read, if it is well-formed. -/
def declaration? : Item → Option Declaration
  | sound _ _ declaration => some declaration
  | broken .. => none

/-- Where the error of a malformed head may be noticed. -/
def sites : Item → List Position
  | sound .. => []
  | broken _ head opening _ _ => head.map Token.position ++ [opening]

theorem tokens_starts (item : Item) :
    ∃ start rest, item.tokens = ⟨.keyword .funcWord, start⟩ :: rest := by
  cases item <;> exact ⟨_, _, rfl⟩

end Item

namespace Grammar

/-- Functions that are read after an error leave the error behind. -/
theorem functions_errors_ne (fuel : Nat) {input : Input} (h : input.errors ≠ #[]) :
    (functions fuel input).Meets (fun _ final => final.errors ≠ #[]) (fun _ _ => True) True :=
  Outcome.Meets.imp (functions_reads .any rfl fuel input)
    (fun _ _ hread => hread.1.leads.errors_ne h) (fun _ _ _ => trivial) fun _ => trivial

/-- What is read without an error where functions stand: nothing, or a function and then
others. -/
theorem functions_clean {fuel : Nat} {input final : Input} {found : List Declaration}
    (hrun : functions fuel input = .done found final) (hclean : final.errors = #[]) :
    (found = [] ∧ input.current.lexeme = .endOfInput) ∨
      ∃ fuel declaration others middle, definition fuel input = .done declaration middle ∧
        functions fuel middle = .done others final ∧ found = declaration :: others := by
  cases fuel with
  | zero => cases hrun
  | succ fuel =>
    have hmeets : (functions (fuel + 1) input).Meets
        (fun found final => final.errors ≠ #[] ∨
          (found = [] ∧ input.current.lexeme = .endOfInput) ∨
          ∃ declaration others middle, definition fuel input = .done declaration middle ∧
            functions fuel middle = .done others final ∧ found = declaration :: others)
        (fun _ _ => True) True := by
      rw [functions]
      refine (Grammar.meets_lexeme _).2 fun lexeme hlexeme => ?_
      split
      · exact .inr (.inl ⟨rfl, hlexeme⟩)
      · simp only [Action.meets_bind, Action.meets_recover]
        cases hdefinition : definition fuel input with
        | outOfFuel => trivial
        | failed error middle =>
          have herrors := Input.report_errors_ne middle error
          exact (functions_errors_ne fuel ((Input.Leads.skipBody herrors).errors_ne herrors)).imp
            (fun _ _ => .inl) (fun _ _ => id) id
        | done declaration middle =>
          cases hothers : functions fuel middle with
          | outOfFuel => simp [hothers]
          | failed error final => simp [hothers]
          | done others final => simp [hothers]
      all_goals
        simp only [Reading.absorb, Reading.report, Reading.advance, Action.meets_bind,
          Action.meets_update]
        refine (functions_errors_ne fuel ?_).imp (fun _ _ => .inl) (fun _ _ => id) id
        rw [Input.advance_errors]
        exact Input.report_errors_ne _ _
    rw [hrun] at hmeets
    obtain hne | hend | hmore := hmeets
    · exact (hne hclean).elim
    · exact .inl hend
    · exact .inr ⟨fuel, hmore⟩

/-- A function that is alone in its text is read up to the end of the text. -/
theorem definition_alone {alone : Source} {declaration : Declaration}
    (hfunc : alone.input.current.lexeme = .keyword .funcWord)
    (hparse : alone.parse = ⟨⟨[], [declaration]⟩, []⟩) :
    ∃ fuel after, definition fuel alone.input = .done declaration after ∧ after.Faces [] := by
  have hglobal : alone.input.current.lexeme.isKeyword .globalWord = false := by
    rw [hfunc]
    rfl
  obtain ⟨fuel, found, final, hrun, hsame⟩ := alone.functions_done hglobal
  rw [hparse] at hsame
  obtain ⟨rfl, herrors⟩ : found = [declaration] ∧ final.errors = #[] := by
    simp at hsame
    exact ⟨hsame.1.symm, hsame.2⟩
  obtain ⟨hnone, _⟩ | ⟨fuel', _, others, after, hdefinition, hothers, hcons⟩ :=
    functions_clean hrun herrors
  · cases hnone
  · cases hcons
    -- After it comes no further function, so the end of the text.
    obtain ⟨_, hend⟩ | ⟨_, _, _, _, _, _, hcons⟩ := functions_clean hothers herrors
    · have hreads := (rules .any fuel').definition hfunc
        (Outlook.any_braces (.loose 0) alone.input)
      rw [hdefinition] at hreads
      refine ⟨fuel', after, hdefinition, ?_, ?_⟩
      · rw [Source.ahead_eq_nil hreads.1.leads.suffix hend]
        rfl
      · by_contra hne
        have hmeets := functions_errors_ne fuel' hne
        rw [hothers] at hmeets
        exact hmeets herrors
    · cases hcons

/-- A well-formed function is read in the same way wherever it stands. -/
theorem definition_sound {start : Position} {tokens rest : List Token} {declaration : Declaration}
    (h : (Item.sound start tokens declaration).Fits) {input : Input}
    (hinput : input.ahead = (Item.sound start tokens declaration).tokens ++ rest)
    (hrest : ((rest.map Token.lexeme).headD .endOfInput).continuesIf = false) (fuel : Nat) :
    (definition fuel input).Meets
      (fun found final => declaration.Alike (fun _ _ => True) found ∧ final.ahead = rest ∧
        final.errors = input.errors)
      (fun _ _ => False) True := by
  obtain ⟨alone, htext, hparse⟩ := h
  have halone := Source.input_lexemes htext
  obtain ⟨fuel₀, after, hrun, hafter⟩ :=
    definition_alone (Input.lexemes_cons halone).1 hparse
  have hfaces : alone.input.Faces
      ((Item.sound start tokens declaration).tokens.map Token.lexeme ++ []) :=
    ⟨by rw [List.append_nil]; exact halone, rfl⟩
  have hlexemes : input.lexemes =
      (Item.sound start tokens declaration).tokens.map Token.lexeme ++ rest.map Token.lexeme := by
    rw [← List.map_append, ← hinput]
    rfl
  have hreads := (rules .any fuel).definition (by rw [Input.current_of_ahead hinput])
    (Outlook.any_braces (.loose 0) input)
  refine ((definition_moves hfaces hrun hafter rfl hrest fuel input hlexemes).and hreads).imp ?_
    (fun _ _ => And.left) fun _ => trivial
  rintro found final ⟨⟨halike, hfinal, herrors⟩, hreached, _⟩
  refine ⟨halike, ?_, herrors⟩
  -- The lexemes ahead are those of the rest, and so are the tokens.
  have hlength : final.ahead.length = rest.length := by
    simpa [Input.lexemes] using congrArg List.length hfinal
  have hsuffix : rest <:+ input.ahead := ⟨_, hinput.symm⟩
  exact (List.suffix_of_suffix_length_le hreached.leads.suffix hsuffix
    (Nat.le_of_eq hlength)).eq_of_length hlength

/-- From `input` on, the functions `found` have been read from the items. -/
structure ItemsRead (items : List Item) (input : Input) (found : List Declaration)
    (final : Input) : Prop where
  functions : List.Forall₂ (Declaration.Alike fun _ _ => True) (items.filterMap Item.declaration?)
    found
  errors : ∃ errors, final.errors.toList = input.errors.toList ++ errors ∧
    List.Forall₂ (fun item error => error.position ∈ item.sites) (items.filter Item.isBroken) errors

/-- The functions of a text are those of its items, one by one. -/
theorem functions_items {items : List Item} (h : ∀ item ∈ items, item.Fits) (fuel : Nat)
    (input : Input) (hinput : input.ahead = items.flatMap Item.tokens) :
    (functions fuel input).Meets (ItemsRead items input) (fun _ _ => False) True := by
  induction items generalizing fuel input with
  | nil =>
    have hend : input.current.lexeme = .endOfInput := by
      rw [Input.current_of_nil hinput]
    refine (functions_nothing hend).imp ?_ (fun _ _ => id) id
    rintro _ _ ⟨rfl, rfl⟩
    exact ⟨.nil, [], (List.append_nil _).symm, .nil⟩
  | cons item items ih =>
    obtain ⟨hitem, hitems⟩ := List.forall_mem_cons.1 h
    rw [List.flatMap_cons] at hinput
    cases fuel with
    | zero => trivial
    | succ fuel =>
      cases item with
      | sound start tokens declaration =>
        have hfunc : input.current.lexeme = .keyword .funcWord := by
          rw [Input.current_of_ahead hinput]
        have hrest : (((items.flatMap Item.tokens).map Token.lexeme).headD
            .endOfInput).continuesIf = false := by
          cases items with
          | nil => rfl
          | cons next items =>
            obtain ⟨start, rest, hnext⟩ := next.tokens_starts
            rw [List.flatMap_cons, hnext]
            rfl
        refine functions_kept hfunc (definition_sound hitem hinput hrest fuel) ?_
        rintro found middle ⟨halike, hmiddle, herrors⟩
        refine (ih hitems fuel middle hmiddle).imp ?_ (fun _ _ => id) id
        intro others final hread
        exact ⟨.cons halike hread.functions, herrors ▸ hread.errors⟩
      | broken start head opening body closing =>
        obtain ⟨hhead, hbroken, hbody⟩ := hitem
        have hahead : input.ahead = ⟨.keyword .funcWord, start⟩ ::
            (head ++ ⟨.symbol .leftBrace, opening⟩ ::
              (body ++ ⟨.symbol .rightBrace, closing⟩ :: items.flatMap Item.tokens)) := by
          simpa [Item.tokens] using hinput
        have hfunc : input.current.lexeme = .keyword .funcWord := by
          rw [Input.current_of_ahead hahead]
        refine functions_dropped hfunc
          (definition_broken (fun token hmem => (hhead token hmem).1) hbroken hahead fuel) ?_
        rintro error middle ⟨herrors, ⟨left, hleft, hmiddle⟩, hsite⟩
        have hskip : (middle.report error).skipBody.ahead = items.flatMap Item.tokens ∧
            (middle.report error).skipBody.errors = (middle.report error).errors :=
          Input.skipBody_balanced (fun token hmem => hhead token (hleft.subset hmem)) hbody hmiddle
        refine (ih hitems fuel _ hskip.1).imp ?_ (fun _ _ => id) id
        rintro found final ⟨hfound, errors, hfinal, hsites⟩
        refine ⟨hfound, error :: errors, ?_, .cons hsite hsites⟩
        rw [hfinal, hskip.2, Input.report, Array.toList_push, herrors, List.append_assoc]
        rfl

end Grammar

/-- A malformed head costs one function and one error. In a text that consists of functions,
some of them with malformed heads, the well-formed ones are what is read where they stand
alone. For each of the others there is one error, in the same order, at a token of its head or
at the brace after it. -/
theorem broken_heads_drop_functions (source : Source) (items : List Item) (finish : Position)
    (htext : tokenize source.text = items.flatMap Item.tokens ++ [⟨.endOfInput, finish⟩])
    (hfits : ∀ item ∈ items, item.Fits) :
    source.parse.program.globals = [] ∧
      List.Forall₂ (Declaration.Alike fun _ _ => True) (items.filterMap Item.declaration?)
        source.parse.program.functions ∧
      List.Forall₂ (fun item error => error.position ∈ item.sites) (items.filter Item.isBroken)
        source.parse.errors := by
  have hinput : source.input.ahead = items.flatMap Item.tokens := by
    rw [source.tokenize_eq_input.1] at htext
    exact (List.append_inj' htext rfl).1
  have hglobal : source.input.current.lexeme.isKeyword .globalWord = false := by
    cases items with
    | nil =>
      rw [Input.current_of_nil hinput]
      rfl
    | cons item items =>
      obtain ⟨start, rest, hitem⟩ := item.tokens_starts
      rw [List.flatMap_cons, hitem] at hinput
      rw [Input.current_of_ahead hinput]
      rfl
  obtain ⟨fuel, found, final, hrun, hparse⟩ := source.functions_done hglobal
  have hmeets := Grammar.functions_items hfits fuel source.input hinput
  rw [hrun] at hmeets
  obtain ⟨hfound, errors, herrors, hsites⟩ := hmeets
  rw [hparse]
  refine ⟨rfl, hfound, ?_⟩
  have hnone : source.input.errors = #[] := rfl
  rw [herrors, hnone]
  exact hsites

/-- A text of three functions. The head of the second one is not closed. -/
def Source.unclosedHead : Source :=
  .ofText "func f() \x7b\x7d func g(a \x7b b \x7b\x7d \x7d func h() \x7b x; \x7d"

/-- The functions of the text. -/
def Item.unclosedHead (first last : Declaration) : List Item :=
  [.sound ⟨1, 1⟩ [⟨.identifier "f", ⟨1, 6⟩⟩, ⟨.symbol .leftParen, ⟨1, 7⟩⟩,
        ⟨.symbol .rightParen, ⟨1, 8⟩⟩, ⟨.symbol .leftBrace, ⟨1, 10⟩⟩,
        ⟨.symbol .rightBrace, ⟨1, 11⟩⟩] first,
    .broken ⟨1, 13⟩ [⟨.identifier "g", ⟨1, 18⟩⟩, ⟨.symbol .leftParen, ⟨1, 19⟩⟩,
        ⟨.identifier "a", ⟨1, 20⟩⟩] ⟨1, 22⟩
      [⟨.identifier "b", ⟨1, 24⟩⟩, ⟨.symbol .leftBrace, ⟨1, 26⟩⟩, ⟨.symbol .rightBrace, ⟨1, 27⟩⟩]
      ⟨1, 29⟩,
    .sound ⟨1, 31⟩ [⟨.identifier "h", ⟨1, 36⟩⟩, ⟨.symbol .leftParen, ⟨1, 37⟩⟩,
        ⟨.symbol .rightParen, ⟨1, 38⟩⟩, ⟨.symbol .leftBrace, ⟨1, 40⟩⟩, ⟨.identifier "x", ⟨1, 42⟩⟩,
        ⟨.symbol .semicolon, ⟨1, 43⟩⟩, ⟨.symbol .rightBrace, ⟨1, 45⟩⟩] last]

/-- The function of a text that has only one, and no errors. -/
theorem Source.parse_eq_single {source : Source} {name : Option String}
    (hglobals : source.parse.program.globals = [])
    (hfunctions : source.parse.program.functions.map Declaration.name = [name])
    (herrors : source.parse.errors = []) :
    ∃ declaration : Declaration, declaration.name = name ∧
      source.parse = ⟨⟨[], [declaration]⟩, []⟩ := by
  obtain ⟨declaration, hsingle, hname⟩ := List.map_eq_singleton_iff.1 hfunctions
  refine ⟨declaration, hname, ?_⟩
  rw [← hglobals, ← hsingle, ← herrors]

theorem Item.unclosedHead_fits {first last : Declaration}
    (hfirst : (Source.ofText "func f() \x7b\x7d").parse = ⟨⟨[], [first]⟩, []⟩)
    (hlast : (Source.ofText "func h() \x7b x; \x7d").parse = ⟨⟨[], [last]⟩, []⟩) :
    ∀ item ∈ Item.unclosedHead first last, item.Fits := by
  simp only [Item.unclosedHead, List.forall_mem_cons]
  refine ⟨⟨_, rfl, hfirst⟩, ⟨by simp, ?_, ?_⟩, ⟨_, rfl, hlast⟩, List.forall_mem_nil _⟩
  · -- A well-formed head ends with a parenthesis.
    intro name listed hhead
    have hend := congrArg List.getLast? hhead
    rw [headLexemes, ← List.cons_append, ← List.cons_append, List.getLast?_concat] at hend
    cases hend
  · exact .cons Lexeme.noConfusion Lexeme.noConfusion (.block _ _ .nil .nil)

theorem broken_heads_drop_functions_unclosed :
    ∃ first last : Declaration, first.name = some "f" ∧ last.name = some "h" ∧
      (tokenize Source.unclosedHead.text =
          (Item.unclosedHead first last).flatMap Item.tokens ++ [⟨.endOfInput, ⟨1, 46⟩⟩] ∧
        ∀ item ∈ Item.unclosedHead first last, item.Fits) ∧
      Source.unclosedHead.parse.program.globals = [] ∧
      List.Forall₂ (Declaration.Alike fun _ _ => True) [first, last]
        Source.unclosedHead.parse.program.functions ∧
      List.Forall₂ (fun item error => error.position ∈ item.sites)
        ((Item.unclosedHead first last).filter Item.isBroken)
        Source.unclosedHead.parse.errors := by
  obtain ⟨first, hname, hfirst⟩ : ∃ first : Declaration, first.name = some "f" ∧
      (Source.ofText "func f() \x7b\x7d").parse = ⟨⟨[], [first]⟩, []⟩ :=
    Source.parse_eq_single (by decide +kernel) (by decide +kernel) (by decide +kernel)
  obtain ⟨last, hname', hlast⟩ : ∃ last : Declaration, last.name = some "h" ∧
      (Source.ofText "func h() \x7b x; \x7d").parse = ⟨⟨[], [last]⟩, []⟩ :=
    Source.parse_eq_single (by decide +kernel) (by decide +kernel) (by decide +kernel)
  have htext : tokenize Source.unclosedHead.text =
      (Item.unclosedHead first last).flatMap Item.tokens ++ [⟨.endOfInput, ⟨1, 46⟩⟩] := rfl
  have hfits := Item.unclosedHead_fits hfirst hlast
  exact ⟨first, last, hname, hname', ⟨htext, hfits⟩,
    broken_heads_drop_functions _ _ _ htext hfits⟩

end Betty
