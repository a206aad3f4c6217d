import Betty.Proofs.Parser.Local
import Betty.Proofs.Parser.Progress
import Betty.Proofs.Parser.Readable.Statements

/-!
# Errors in one function and the other functions

A function with a well-formed head is kept whatever its body is, and the functions after it
are kept if the body is contained: read by itself, it ends before a closing brace, after
which no other function starts. Whether a body is contained does not depend on the text
around it. Bodies that start with any number of well-formed statements and go on malformed
are, if the rest is mild and has as many opening as closing braces.

Braces alone do not contain a body. Where a statement is missing before the closing brace of
a function, the brace is taken for a malformed statement, and the next function becomes part
of the first.

## Main definitions

* `Reading.Passes`: what a step does where given lexemes are ahead, even after errors.
* `Body.Contained`: the body does not reach beyond its closing brace.
* `Body.Safe`: what keeps it from doing so.
* `Definition`: a function with a well-formed head and any body.

## Main results

* `Body.contained_of_mild`, `Body.Contained.cons`: which bodies are contained.
* `recovery_keeps_functions`: functions with safe bodies are all kept.
* `missing_statement_swallows_function`: braces alone do not contain a body.
-/

namespace Betty

/-! ### Reading given lexemes after errors -/

namespace Reading

variable {α β : Type}

/-- Where the lexemes `before` are ahead, whatever errors have been recorded, the step does
not fail. What is ahead then is as `after` says, and what it has `made` holds of its
value. -/
def Passes (before : List Lexeme) (after : List Lexeme → Prop) (made : α → Prop)
    (step : Reading α) : Prop :=
  ∀ input : Input, input.lexemes = before →
    (step input).Meets (fun value final => made value ∧ after final.lexemes) (fun _ _ => False)
      True

/-- A local step does not depend on the errors recorded before. -/
theorem Takes.passes {before after : List Lexeme} {made : α → Prop} {step : Reading α}
    (h : step.Takes before after made) (hlocal : Local step step) :
    step.Passes before (· = after) made :=
  fun input hahead => (h.anywhere hlocal input hahead).imp (fun _ _ hd => ⟨hd.1, hd.2.1⟩)
    (fun _ _ => id) id

namespace Passes

variable {before : List Lexeme} {middle after : List Lexeme → Prop} {made : α → Prop}
  {made' : β → Prop}

theorem exhausted : Passes before after made Action.exhausted :=
  fun _ _ => trivial

theorem pure {value : α} (hafter : after before) (hmade : made value) :
    Passes before after made (Pure.pure value) := by
  rintro input rfl
  exact ⟨hmade, hafter⟩

theorem bind {first : Reading α} {second : α → Reading β} (h : first.Passes before middle made)
    (h' : ∀ value found, made value → middle found → (second value).Passes found after made') :
    Passes before after made' (first >>= second) := by
  intro input hahead
  refine (Action.meets_bind _ _ _).2 ((h input hahead).imp ?_ (fun _ _ => id) id)
  rintro value final ⟨hmade, hmiddle⟩
  exact h' value _ hmade hmiddle final rfl

theorem recover {step : Reading α} {handler : SyntaxError → Reading α}
    (h : step.Passes before after made) : Passes before after made (Action.recover step handler) :=
  fun input hahead => (Action.meets_recover _ _ _).2 ((h input hahead).imp (fun _ _ => id)
    (fun _ _ => False.elim) id)

theorem report (fault : Lexeme → SyntaxFault) :
    Passes before (· = before) (fun _ => True) (Reading.report fault) :=
  fun _ hahead => ⟨trivial, hahead⟩

theorem advance {found : Lexeme} {rest : List Lexeme} :
    Passes (found :: rest) (· = rest) (fun _ => True) Reading.advance :=
  Takes.advance.passes .advance

theorem absorb {found : Lexeme} {rest : List Lexeme} (fault : LexicalFault) :
    Passes (found :: rest) (· = rest) (fun _ => True) (Reading.absorb fault) := by
  refine .bind (.report _) ?_
  rintro _ _ - rfl
  exact .advance

/-- What follows a local step that takes given lexemes. -/
theorem after_takes {first : Reading α} {second : α → Reading β} {middle : List Lexeme}
    (h : first.Takes before middle made) (hlocal : Local first first)
    (h' : ∀ value, made value → (second value).Passes middle after made') :
    Passes before after made' (first >>= second) := by
  refine .bind (h.passes hlocal) ?_
  rintro value _ hmade rfl
  exact h' value hmade

end Passes

end Reading

/-! ### Bodies -/

/-- Only the braces of the text are known. -/
def Grammar.Outlook.mildly (controls : Bool) : Outlook :=
  { any with mild := some controls }

namespace Body

/-- Read by itself up to its closing brace, the body ends before a closing brace, and no
function starts after that. -/
def Contained (body : List Lexeme) : Prop :=
  ∀ fuel input, input.Faces (body ++ [.symbol .rightBrace]) →
    (Grammar.statements fuel Grammar.endsBlock input).Meets
      (fun _ after => ∃ left, after.lexemes = .symbol .rightBrace :: left ∧
        ∀ later ∈ left, later.isKeyword .funcWord = false)
      (fun _ _ => False) True

/-- A contained body is read in the same way wherever it stands, and there is enough fuel
for it if there is enough for the whole text. -/
theorem Contained.passes {body rest : List Lexeme} {fuel : Nat} (h : Contained body)
    (hfuel : 16 * (body.length + 1) + 7 ≤ fuel) :
    (Grammar.statements fuel Grammar.endsBlock).Passes (body ++ .symbol .rightBrace :: rest)
      (fun found => ∃ left, found = .symbol .rightBrace :: (left ++ rest) ∧
        left <:+ body ++ [.symbol .rightBrace] ∧
          ∀ later ∈ left, later.isKeyword .funcWord = false)
      fun _ => True := by
  intro input hahead
  rw [List.append_cons] at hahead
  obtain ⟨front, later, hsplit, hfront, hlater⟩ := List.map_eq_append_iff.1 hahead
  -- The body and its brace alone, and what is around them in the text.
  let own : Input := { input with ahead := front, errors := #[] }
  let around : Surroundings := ⟨later, input.errors, 0⟩
  have hinput : own.within around = input := by
    simp [own, around, Input.within, ← hsplit]
  have hagrees := Grammar.statements_local (Nat.le_refl fuel) Grammar.endsBlock .nothing
    around own
  have hreads := (Grammar.rules .any fuel).statements Grammar.endsBlock rfl rfl
    (Grammar.Outlook.any_braces (.loose 0) own)
  have hcontained := h fuel own ⟨hfront, rfl⟩
  unfold Reading.Agrees at hagrees
  rw [hinput, Input.within_nothing] at hagrees
  cases hrun : Grammar.statements fuel Grammar.endsBlock own with
  | done found after =>
    rw [hrun] at hagrees hcontained
    obtain ⟨left, hleft, hfunc⟩ := hcontained
    have hne : after.ahead ≠ [] := by
      intro hnil
      simp [Input.lexemes, hnil] at hleft
    obtain ⟨_, hafter, hdone⟩ := hagrees.2 (.inr (List.length_pos_iff.2 hne))
    rw [Input.within_nothing] at hafter
    rw [hdone, ← hafter]
    refine ⟨trivial, left, ?_, ?_, hfunc⟩
    · rw [Input.lexemes] at hleft
      simp [Input.lexemes, Input.within, around, hleft, hlater]
    · have hsuffix : after.lexemes <:+ body ++ [.symbol .rightBrace] :=
        hfront ▸ hagrees.1.suffix.map Token.lexeme
      rw [hleft] at hsuffix
      exact (List.suffix_cons _ left).trans hsuffix
  | failed error after =>
    rw [hrun] at hcontained
    exact hcontained.elim
  | outOfFuel =>
    rw [hrun] at hreads
    have hlength : front.length = body.length + 1 := by
      simpa using congrArg List.length hfront
    have hcut : fuel < 16 * front.length + 7 := hreads
    omega

/-- A well-formed statement before a contained body is read by itself. -/
theorem Contained.cons {bare : Bool} {numeral : Float → List Char} {statement : Stmt}
    {rest : List Lexeme} (hnormal : statement.Everywhere (normalNodes numeral))
    (hopen : statement.endsOpen → (rest.headD .endOfInput).continuesIf = false)
    (hrest : Contained rest) : Contained (statement.lexemes bare ++ rest) := by
  intro fuel input hfaces
  rw [List.append_assoc] at hfaces
  cases fuel with
  | zero => trivial
  | succ fuel =>
    have hstart := (Stmt.lexemes_starts bare hnormal).head (rest ++ [.symbol .rightBrace])
    have hgoes : Grammar.endsBlock input.current.lexeme = false := by
      rw [hfaces.current]
      exact (Lexeme.startsStmt_not hstart).2.1
    have hopen' : statement.endsOpen →
        ((rest ++ [Lexeme.symbol .rightBrace]).headD .endOfInput).continuesIf = false := by
      cases rest with
      | nil => exact fun _ => rfl
      | cons found rest => exact hopen
    have htakes := (Grammar.readable bare numeral fuel).recovered hnormal hopen' input hfaces
    rw [Grammar.statements]
    refine (Grammar.meets_lexeme _).2 fun found hfound => ?_
    subst hfound
    rw [hgoes, if_neg Bool.false_ne_true, Action.meets_bind]
    refine htakes.imp ?_ (fun _ _ => id) id
    rintro _ middle ⟨_, hmiddle⟩
    rw [Action.meets_bind]
    exact (hrest fuel middle hmiddle).imp (fun _ _ => id) (fun _ _ => id) id

/-- Statements extend to a lexeme that ends them. -/
theorem statements_end (fuel : Nat) (ends : Lexeme → Bool) (input : Input) :
    (Grammar.statements fuel ends input).Meets
      (fun _ after => ends after.current.lexeme = true) (fun _ _ => True) True := by
  induction fuel generalizing input with
  | zero => trivial
  | succ fuel ih =>
    rw [Grammar.statements]
    refine (Grammar.meets_lexeme _).2 fun found hfound => ?_
    split
    · next hends =>
      subst hfound
      exact hends
    · simp only [Action.meets_bind]
      refine .of_forall _ (fun _ middle => ?_) (fun _ _ => trivial) trivial
      exact ih middle

/-- Malformed bodies with as many opening as closing braces are contained if they are
mild. -/
theorem contained_of_mild {controls : Bool} {body : List Lexeme} (hsurplus : surplus body = 0)
    (hmild : Mild controls (body ++ [.symbol .rightBrace])) : Contained body := by
  intro fuel input hfaces
  have hlexemes : input.lexemes = body ++ [.symbol .rightBrace] := hfaces.ahead
  have hcloses : (Grammar.Outlook.mildly controls).Braces (.loose 1) input := by
    rintro _ ⟨⟩
    refine ⟨hlexemes ▸ hmild, ?_, nofun, nofun⟩
    rw [hlexemes, surplus_append, hsurplus]
    decide
  have hreads := (Grammar.rules (.mildly controls) fuel).statements Grammar.endsBlock rfl rfl
    hcloses
  refine (hreads.and (statements_end fuel Grammar.endsBlock input)).imp ?_
    (fun _ _ h => h.1.1) fun _ => trivial
  rintro _ after ⟨⟨_, hbraces, _⟩, hends⟩
  have hafter := hbraces controls rfl
  -- The closing brace of the body has not been taken, so one is left.
  obtain ⟨_, hnil⟩ | hcons := after.lexemes_cases
  · have hleft := hafter.surplus
    rw [hnil] at hleft
    cases hleft
  · have hmild := hafter.mild
    rw [hcons] at hmild
    obtain hclosing | hend := Bool.or_eq_true_iff.1 hends
    · rw [Lexeme.isSymbol_iff.1 hclosing] at hcons
      exact ⟨_, hcons, hmild.1.closing hclosing⟩
    · rw [hmild.1.isEnd] at hend
      cases hend

/-- What keeps a body from reaching beyond its closing brace. -/
inductive Safe : List Lexeme → Prop
  /-- It is mild, and has as many opening as closing braces. -/
  | mild {body : List Lexeme} (controls : Bool) (balanced : surplus body = 0)
      (mild : Mild controls (body ++ [.symbol .rightBrace])) : Safe body
  /-- It starts with a well-formed statement, and the rest is safe. -/
  | cons (bare : Bool) (numeral : Float → List Char) (statement : Stmt) {rest : List Lexeme}
      (normal : statement.Everywhere (normalNodes numeral))
      (closed : statement.endsOpen → (rest.headD .endOfInput).continuesIf = false)
      (safe : Safe rest) : Safe (statement.lexemes bare ++ rest)
  /-- It is known to be contained for another reason. -/
  | contained {body : List Lexeme} (h : Contained body) : Safe body

theorem Safe.is_contained {body : List Lexeme} (h : Safe body) : Contained body := by
  induction h with
  | mild _ balanced mild => exact contained_of_mild balanced mild
  | cons _ _ _ normal closed _ ih => exact .cons normal closed ih
  | contained h => exact h

end Body

/-! ### Functions -/

/-- A function as it stands in a text. Its head is well-formed, its body need not be. -/
structure Definition where
  name : String
  parameters : List String
  body : List Lexeme

namespace Definition

/-- The lexemes of a function. -/
def lexemes (definition : Definition) : List Lexeme :=
  .keyword .funcWord :: .identifier definition.name :: .symbol .leftParen ::
    (namesLexemes definition.parameters ++ .symbol .rightParen :: .symbol .leftBrace ::
      (definition.body ++ [.symbol .rightBrace]))

/-- The name and the parameters of a function. -/
def head (definition : Definition) : Option String × List String :=
  (some definition.name, definition.parameters)

end Definition

/-- The name and the parameters of a function. -/
def Declaration.head (declaration : Declaration) : Option String × List String :=
  (declaration.name, declaration.parameters)

namespace Grammar

open Reading

variable {definition : Definition} {rest : List Lexeme} {fuel : Nat}

/-- Before the rest stands what is left of a contained body, which starts no function. -/
def Leftover (definition : Definition) (rest found : List Lexeme) : Prop :=
  ∃ left, found = left ++ rest ∧ left <:+ definition.body ++ [.symbol .rightBrace] ∧
    ∀ later ∈ left, later.isKeyword .funcWord = false

theorem block_passes (h : Body.Contained definition.body)
    (hfuel : 16 * (definition.body.length + 2) ≤ fuel) :
    (block fuel).Passes
      (.symbol .leftBrace :: (definition.body ++ .symbol .rightBrace :: rest))
      (Leftover definition rest) fun _ => True := by
  cases fuel with
  | zero => exact .exhausted
  | succ fuel =>
    rw [block]
    refine .after_takes .advance .advance fun _ _ => .bind (h.passes (by omega)) ?_
    rintro _ _ - ⟨left, rfl, hleft⟩
    refine .after_takes (.expectSymbol _) (.expectSymbol _) fun _ _ => ?_
    exact .pure ⟨left, rfl, hleft⟩ trivial

theorem function_passes (h : Body.Contained definition.body)
    (hfuel : 16 * (definition.body.length + 2) ≤ fuel) {place : Position} :
    (function (fuel + 1) place (some definition.name)).Passes
      (.symbol .leftParen :: (namesLexemes definition.parameters ++
        .symbol .rightParen :: .symbol .leftBrace ::
          (definition.body ++ .symbol .rightBrace :: rest)))
      (Leftover definition rest) (·.head = definition.head) := by
  rw [function]
  refine .after_takes (parameters_takes definition.parameters)
    (parameters_local (Nat.le_refl fuel)) ?_
  rintro _ rfl
  refine .after_takes (.atSymbol _) (.atSymbol _) ?_
  rintro _ rfl
  rw [if_pos (by rfl)]
  refine .bind (block_passes h hfuel) fun body found _ hleft => ?_
  refine .after_takes (.gets _) .source fun source _ => ?_
  exact .pure hleft rfl

theorem definition_passes (h : Body.Contained definition.body)
    (hfuel : 16 * (definition.body.length + 2) + 2 ≤ fuel) :
    (Grammar.definition fuel).Passes (definition.lexemes ++ rest) (Leftover definition rest)
      (·.head = definition.head) := by
  obtain ⟨fuel, rfl⟩ := Nat.exists_eq_add_of_le' (Nat.le_trans (Nat.le_add_left 2 _) hfuel)
  have hlexemes : definition.lexemes ++ rest = .keyword .funcWord ::
      .identifier definition.name :: .symbol .leftParen :: (namesLexemes definition.parameters ++
        .symbol .rightParen :: .symbol .leftBrace ::
          (definition.body ++ .symbol .rightBrace :: rest)) := by
    simp [Definition.lexemes]
  rw [hlexemes, Grammar.definition]
  refine .after_takes .position .position fun place _ => ?_
  refine .after_takes .advance .advance fun _ _ => ?_
  refine .after_takes (.expectName _) (.expectName _) ?_
  rintro _ rfl
  exact function_passes h (by omega)

/-- A token that is neither the end nor the start of a function is reported and skipped. -/
theorem functions_stray {found : Lexeme} {made : List Declaration → Prop}
    (hend : found ≠ .endOfInput) (hfunc : found.isKeyword .funcWord = false)
    (hrest : (functions fuel).Passes rest (fun _ => True) made) :
    (functions (fuel + 1)).Passes (found :: rest) (fun _ => True) made := by
  rw [functions]
  refine .after_takes .lexeme .lexeme ?_
  rintro _ rfl
  split
  · exact (hend rfl).elim
  · cases hfunc
  · refine .bind (.absorb _) ?_
    rintro _ _ - rfl
    exact hrest
  · refine .bind (.report _) ?_
    rintro _ _ - rfl
    refine .bind .advance ?_
    rintro _ _ - rfl
    exact hrest

/-- A function with a contained body is read, and then those after it. -/
theorem functions_definition {heads : List (Option String × List String)}
    (h : Body.Contained definition.body)
    (hfuel : 16 * (definition.body.length + 2) + 2 ≤ fuel)
    (hrest : ∀ found, Leftover definition rest found →
      (functions fuel).Passes found (fun _ => True) (·.map Declaration.head = heads)) :
    (functions (fuel + 1)).Passes (definition.lexemes ++ rest) (fun _ => True)
      (·.map Declaration.head = definition.head :: heads) := by
  have hdefinition : (do
      let declaration ← Grammar.definition fuel
      return [declaration] : Reading (List Declaration)).Passes (definition.lexemes ++ rest)
      (Leftover definition rest) (·.map Declaration.head = [definition.head]) := by
    refine .bind (definition_passes h hfuel) fun declaration _ hhead hafter => ?_
    exact .pure hafter (by simp [hhead])
  rw [functions]
  refine .after_takes .lexeme .lexeme ?_
  rintro _ rfl
  refine .bind (.recover hdefinition) fun found middle hfound hmiddle => ?_
  refine .bind (hrest middle hmiddle) fun others _ hothers _ => .pure trivial ?_
  rw [List.map_append, hfound, hothers]
  rfl

/-- Functions with contained bodies are all read. Before them may stand what is left of
another body. -/
theorem functions_passes {definitions : List Definition} {left : List Lexeme}
    (hbodies : ∀ definition ∈ definitions, Body.Contained definition.body ∧
      ∀ found ∈ definition.body, found ≠ .endOfInput)
    (hleft : ∀ found ∈ left, found ≠ .endOfInput ∧ found.isKeyword .funcWord = false)
    (hfuel : 16 * (left ++ definitions.flatMap Definition.lexemes).length + 2 ≤ fuel) :
    (functions fuel).Passes (left ++ definitions.flatMap Definition.lexemes) (fun _ => True)
      (·.map Declaration.head = definitions.map Definition.head) := by
  induction fuel generalizing definitions left with
  | zero => exact .exhausted
  | succ fuel ih =>
    cases left with
    | cons found left =>
      obtain ⟨⟨hend, hfunc⟩, hleft⟩ := List.forall_mem_cons.1 hleft
      simp only [List.cons_append, List.length_cons] at hfuel
      exact functions_stray hend hfunc (ih hbodies hleft (by omega))
    | nil =>
      cases definitions with
      | nil =>
        rw [functions]
        refine .after_takes .lexeme .lexeme ?_
        rintro _ rfl
        exact .pure trivial rfl
      | cons definition definitions =>
        obtain ⟨⟨hbody, hpresent⟩, hbodies⟩ := List.forall_mem_cons.1 hbodies
        have hlength : definition.body.length + 6 ≤ definition.lexemes.length := by
          simp [Definition.lexemes]
        simp only [List.nil_append, List.flatMap_cons, List.length_append] at hfuel ⊢
        refine functions_definition hbody (by omega) ?_
        rintro _ ⟨left, rfl, hsuffix, hfunc⟩
        have hshorter := hsuffix.length_le
        simp only [List.length_append, List.length_singleton] at hshorter
        refine ih hbodies ?_ (by simp only [List.length_append]; omega)
        refine fun later hlater => ⟨?_, hfunc later hlater⟩
        obtain hmem | hmem := List.mem_append.1 (hsuffix.subset hlater)
        · exact hpresent later hmem
        · rw [List.mem_singleton.1 hmem]
          exact Lexeme.noConfusion

theorem program_passes {definitions : List Definition}
    (hbodies : ∀ definition ∈ definitions, Body.Contained definition.body ∧
      ∀ found ∈ definition.body, found ≠ .endOfInput)
    (hfuel : 16 * (definitions.flatMap Definition.lexemes).length + 2 ≤ fuel) :
    (program fuel).Passes (definitions.flatMap Definition.lexemes) (fun _ => True)
      fun found => found.globals = [] ∧
        found.functions.map Declaration.head = definitions.map Definition.head := by
  have hglobals : (globals fuel).Passes (definitions.flatMap Definition.lexemes)
      (· = definitions.flatMap Definition.lexemes) (· = []) := by
    cases fuel with
    | zero => exact .exhausted
    | succ fuel =>
      rw [globals]
      refine .after_takes (.atKeyword _) (.atKeyword _) ?_
      rintro _ rfl
      cases definitions <;> exact .pure rfl rfl
  unfold program
  refine .bind hglobals ?_
  rintro _ _ rfl rfl
  have hfunctions := functions_passes hbodies (List.forall_mem_nil _) hfuel
  exact .bind hfunctions fun found _ hfound _ => .pure trivial ⟨rfl, hfound⟩

end Grammar

/-- Errors in one function do not disturb the others, as long as its body is safe: a text of
functions with well-formed heads and safe bodies has these functions and no others, in the
same order, and no global variables. -/
theorem recovery_keeps_functions (source : Source) (definitions : List Definition)
    (htext : (tokenize source.text).map Token.lexeme =
      definitions.flatMap Definition.lexemes ++ [.endOfInput])
    (hbodies : ∀ definition ∈ definitions, Body.Safe definition.body) :
    source.parse.program.globals = [] ∧
      source.parse.program.functions.map Declaration.head =
        definitions.map Definition.head := by
  obtain ⟨htokens, hpresent⟩ := source.tokenize_eq_input
  obtain ⟨program, final, hprogram, _, _⟩ := source.program_done
  have hlexemes : source.input.lexemes = definitions.flatMap Definition.lexemes := by
    rw [htokens, List.map_append] at htext
    exact List.append_cancel_right htext
  have hbodies' : ∀ definition ∈ definitions, Body.Contained definition.body ∧
      ∀ found ∈ definition.body, found ≠ .endOfInput := by
    refine fun definition hmem => ⟨(hbodies definition hmem).is_contained, ?_⟩
    intro found hfound
    have hahead : found ∈ source.input.lexemes := by
      rw [hlexemes]
      refine List.mem_flatMap.2 ⟨definition, hmem, ?_⟩
      simp [Definition.lexemes, hfound]
    obtain ⟨token, htoken, rfl⟩ := List.mem_map.1 hahead
    exact hpresent token htoken
  have hfuel : 16 * (definitions.flatMap Definition.lexemes).length + 2 ≤
      Grammar.fuelFor source.input := by
    rw [← hlexemes, Input.lexemes, List.length_map, Grammar.fuelFor]
    omega
  have hpasses := Grammar.program_passes hbodies' hfuel source.input hlexemes
  rw [hprogram] at hpasses
  rw [Source.parse_eq hprogram]
  exact hpasses.1

/-- A text of two malformed functions. -/
def Source.malformed : Source :=
  .ofText "func f(a, b) \x7bif(a)\x7b=;\x7d@;\x7d func g() \x7breturn; a switch\x7b]\x7d\x7d"

/-- The functions of the text. -/
def Definition.malformed : List Definition :=
  [⟨"f", ["a", "b"], [.keyword .ifWord, .symbol .leftParen, .identifier "a", .symbol .rightParen,
      .symbol .leftBrace, .symbol .assign, .symbol .semicolon, .symbol .rightBrace,
      .error (.unknownCharacter '@'), .symbol .semicolon]⟩,
    ⟨"g", [], [.keyword .returnWord, .symbol .semicolon, .identifier "a", .keyword .switchWord,
      .symbol .leftBrace, .symbol .rightBracket, .symbol .rightBrace]⟩]

theorem recovery_keeps_functions_malformed :
    ((tokenize Source.malformed.text).map Token.lexeme =
        Definition.malformed.flatMap Definition.lexemes ++ [.endOfInput] ∧
      ∀ definition ∈ Definition.malformed, Body.Safe definition.body) ∧
    Source.malformed.parse.program.globals = [] ∧
      Source.malformed.parse.program.functions.map Declaration.head =
        [(some "f", ["a", "b"]), (some "g", [])] := by
  have htext : (tokenize Source.malformed.text).map Token.lexeme =
      Definition.malformed.flatMap Definition.lexemes ++ [.endOfInput] := rfl
  have hbodies : ∀ definition ∈ Definition.malformed, Body.Safe definition.body :=
    List.forall_mem_cons.2 ⟨.mild true (by decide) (by decide), List.forall_mem_singleton.2
      (.cons true (fun _ => []) (.returnStmt none) ⟨trivial, trivial⟩ nofun
        (.mild false (by decide) (by decide)))⟩
  exact ⟨⟨htext, hbodies⟩, recovery_keeps_functions _ _ htext hbodies⟩

/-- A text of two functions. In the first one a statement is missing. -/
def Source.swallowing : Source :=
  .ofText "func f() \x7b if (x) \x7d
func g() \x7b \x7d"

/-- The functions of the text. -/
def Definition.swallowing : List Definition :=
  [⟨"f", [], [.keyword .ifWord, .symbol .leftParen, .identifier "x", .symbol .rightParen]⟩,
    ⟨"g", [], []⟩]

/-- Bodies without any brace need not be contained: the brace after the first one is taken
for the missing statement, and the second function for a part of the first. -/
theorem missing_statement_swallows_function :
    (tokenize Source.swallowing.text).map Token.lexeme =
        Definition.swallowing.flatMap Definition.lexemes ++ [.endOfInput] ∧
      (∀ definition ∈ Definition.swallowing, ∀ found ∈ definition.body, found.weight = 0) ∧
      Definition.swallowing.map Definition.head = [(some "f", []), (some "g", [])] ∧
      Source.swallowing.parse.program.functions.map Declaration.head = [(some "f", [])] :=
  ⟨rfl, by decide, rfl, by decide +kernel⟩

end Betty
