import Betty.Proofs.Parser.Local
import Betty.Proofs.Parser.Lexemes
import Betty.Proofs.Program.Printed

/-!
# What may follow a statement

A statement that is read without an error up to the end of a block is read in the same way
where something else follows, as long as that does not continue an `if` statement. The same
is true of a function up to the end of the text. So a statement can be moved from a block of
its own into any other block.

The reason is that no rule stops before the end of a block and then reads on: what it still
needs is not there, so an error would be recorded.

## Main definitions

* `Surroundings.Interchange`: what may be put in the place of the end of a block.
* `Reading.Barred`: a step does not get past the end of a block unnoticed.
* `Reading.Settles`: a step does the same before the end of a block and before what is put in
  its place.

## Main results

* `Grammar.settled`: the rules for statements and functions do.
* `Grammar.recovered_moves`, `Grammar.definition_moves`: what is read alone is read in the same
  way wherever it stands.
-/

namespace Betty

namespace Input

variable {input middle after : Input}

/-- If no error has been recorded in the end, then none had been on the way. -/
theorem Onward.errors_eq (h : input.Onward middle) (h' : middle.Onward after)
    (hclean : after.errors = input.errors) : middle.errors = input.errors := by
  have hlater := h'.errors
  rw [hclean] at hlater
  exact Array.toList_inj.1 (h.errors.eq_of_length_le hlater.length_le).symm

/-- An error that has been recorded stays. -/
theorem Onward.errors_ne (h : input.Onward middle) {error : SyntaxError}
    (h' : (middle.report error).Onward after) : after.errors ≠ input.errors := by
  intro hclean
  have hfirst := h.errors.length_le
  have hlater := h'.errors.length_le
  rw [hclean] at hlater
  simp only [Input.report, Array.toList_push, List.length_append, List.length_singleton] at hlater
  omega

theorem current_lexeme_eq (h : middle.ahead = input.ahead) :
    middle.current.lexeme = input.current.lexeme := by
  unfold current
  rw [h]
  cases input.ahead <;> rfl

end Input

/-! ### What follows -/

namespace Surroundings

/-- The first lexeme after what stands within the surroundings. -/
def next (around : Surroundings) : Lexeme :=
  (around.later.map Token.lexeme).headD .endOfInput

/-- The first surroundings end a block, and the second ones do not continue an `if`
statement. -/
structure Interchange (around around' : Surroundings) : Prop where
  ends : Grammar.endsBlock around.next
  parts : around'.next.continuesIf = false

end Surroundings

namespace Input

variable {around : Surroundings} {own after : Input}

theorem within_next (h : own.ahead = []) : (own.within around).current.lexeme = around.next := by
  unfold current within Surroundings.next
  rw [h, List.nil_append]
  cases around.later <;> rfl

/-- Reading that has taken all tokens but those around is where they begin. -/
theorem Onward.next (h : (own.within around).Onward after)
    (hlength : after.ahead.length = around.later.length) :
    after.current.lexeme = around.next := by
  have hsuffix : around.later <:+ (own.within around).ahead := List.suffix_append _ _
  have hahead : after.ahead = around.later :=
    (List.suffix_of_suffix_length_le h.suffix hsuffix (Nat.le_of_eq hlength)).eq_of_length hlength
  unfold current Surroundings.next
  rw [hahead]
  cases around.later <;> rfl

end Input

namespace Reading

variable {α β : Type}

/-- A step that takes a token or records an error where a block ends, if it succeeds. -/
structure Barred (step : Reading α) : Prop where
  onward : step.Onward
  takes : ∀ input : Input, Grammar.endsBlock input.current.lexeme →
    (step input).Meets
      (fun _ after => after.errors = input.errors → after.ahead.length < input.ahead.length)
      (fun _ _ => True) True

namespace Barred

/-- The first step takes a token. -/
theorem bind {first : Reading α} {second : α → Reading β} (h : Barred first)
    (h' : ∀ value, (second value).Onward) : Barred (first >>= second) where
  onward := h.onward.bind h'
  takes input hends := by
    rw [Action.meets_bind]
    refine ((h.onward input).and (h.takes input hends)).imp ?_ (fun _ _ _ => trivial) And.left
    rintro value middle ⟨hfirst, htakes⟩
    refine (h' value middle).imp ?_ (fun _ _ _ => trivial) id
    intro _ after hlater hclean
    exact Nat.lt_of_le_of_lt hlater.suffix.length_le (htakes (hfirst.errors_eq hlater hclean))

/-- The first step may take nothing, but then the second one does. -/
theorem later {first : Reading α} {second : α → Reading β} (h : first.Onward)
    (h' : ∀ value, Barred (second value)) : Barred (first >>= second) where
  onward := h.bind fun value => (h' value).onward
  takes input hends := by
    rw [Action.meets_bind]
    refine (h input).imp ?_ (fun _ _ _ => trivial) id
    intro value middle hfirst
    by_cases hahead : middle.ahead = input.ahead
    · -- The second step still stands before the end of the block.
      have hends' : Grammar.endsBlock middle.current.lexeme := by
        rw [Input.current_lexeme_eq hahead]
        exact hends
      refine (((h' value).onward middle).and ((h' value).takes middle hends')).imp ?_
        (fun _ _ _ => trivial) And.left
      rintro _ after ⟨hlater, htakes⟩ hclean
      rw [← hahead]
      exact htakes (hclean.trans (hfirst.errors_eq hlater hclean).symm)
    · have hshorter : middle.ahead.length < input.ahead.length := by
        refine Nat.lt_of_le_of_ne hfirst.suffix.length_le fun hlength => hahead ?_
        exact hfirst.suffix.eq_of_length hlength
      refine ((h' value).onward middle).imp ?_ (fun _ _ _ => trivial) id
      intro _ after hlater _
      exact Nat.lt_of_le_of_lt hlater.suffix.length_le hshorter

/-- A step that cannot succeed there. -/
theorem of_fails {step : Reading α} (honward : step.Onward)
    (h : ∀ input : Input, Grammar.endsBlock input.current.lexeme →
      (step input).Meets (fun _ _ => False) (fun _ _ => True) True) : Barred step where
  onward := honward
  takes input hends := (h input hends).imp (fun _ _ => False.elim) (fun _ _ => id) id

/-- A rule that takes a token in any case. -/
theorem of_reads {step : Reading α} {given : List Position} {product : Grammar.Product α}
    {post lost cut : Input → Prop} (h : ∀ input,
      Grammar.Reads .any input 1 given product post lost (cut input) (step input)) :
    Barred step where
  onward := Grammar.onward_of_reads h
  takes input _ := Outcome.Meets.imp (h input) (fun _ _ hdone _ => hdone.2.2)
    (fun _ _ _ => trivial) fun _ => trivial

end Barred

/-- A missing token leaves an error. -/
theorem missing_errors (fault : Lexeme → SyntaxFault) (input : Input) :
    (missing fault input).Meets (fun _ after => after.errors ≠ input.errors) (fun _ _ => True)
      True := by
  unfold missing
  refine (Grammar.meets_lexeme _).2 fun found _ => ?_
  cases found with
  | error lexical => exact (Input.Onward.refl input).errors_ne (.advance _)
  | _ => exact (Input.Onward.refl input).errors_ne (.refl _)

/-- A sign that must be there is taken, or missed. -/
theorem barred_expectSymbol (sign : Symbol) : Barred (expectSymbol sign) where
  onward := (Local.expectSymbol sign).onward
  takes input _ := by
    unfold expectSymbol
    rw [Action.meets_bind]
    refine (Action.meets_gets _ _).2 ?_
    split
    · next hfound =>
      have hahead : input.ahead ≠ [] := by
        refine Input.ahead_ne_nil fun hend => ?_
        rw [hend] at hfound
        cases hfound
      have hlength := Input.advance_length hahead
      intro _
      omega
    · exact (missing_errors _ input).imp (fun _ _ hne heq => (hne heq).elim) (fun _ _ => id) id

/-! ### Settling -/

/-- If the first step stops within its own tokens or right after them, and has recorded no
error, then the second one does the same within the second surroundings. -/
def Settles (around around' : Surroundings) (own : Input) (step step' : Reading α) : Prop :=
  (step (own.within around)).Meets
    (fun value after => after.errors = (own.within around).errors →
      around.later.length ≤ after.ahead.length → ∃ left : Input, after = left.within around ∧
        step' (own.within around') = .done value (left.within around'))
    (fun _ _ => True) True

namespace Settles

variable {around around' : Surroundings} {own : Input}

theorem pure (value : α) : Settles around around' own (Pure.pure value) (Pure.pure value) :=
  fun _ _ => ⟨own, rfl, rfl⟩

theorem exhausted {step : Reading α} : Settles around around' own Action.exhausted step :=
  trivial

/-- A step that leaves an error if it succeeds. -/
theorem of_errors {step step' : Reading α}
    (h : (step (own.within around)).Meets
      (fun _ after => after.errors ≠ (own.within around).errors) (fun _ _ => True) True) :
    Settles around around' own step step' :=
  h.imp (fun _ _ hne heq => (hne heq).elim) (fun _ _ => id) id

theorem ite {condition : Prop} [Decidable condition] {yes yes' no no' : Reading α}
    (hyes : Settles around around' own yes yes') (hno : Settles around around' own no no') :
    Settles around around' own (if condition then yes else no)
      (if condition then yes' else no') := by
  split
  · exact hyes
  · exact hno

/-- What follows a look at the state that the surroundings do not change. -/
theorem gets {view : Input → α} {next next' : α → Reading β}
    (hview : view (own.within around') = view (own.within around))
    (h : Settles around around' own (next (view (own.within around)))
      (next' (view (own.within around)))) :
    Settles around around' own (Action.gets view >>= next) (Action.gets view >>= next') := by
  have hbind : (Action.gets view >>= next') (own.within around') =
      next' (view (own.within around)) (own.within around') := by
    rw [← hview]
    rfl
  unfold Settles
  rw [hbind]
  exact h

/-- What follows a look at the current lexeme, if that is one of its own. -/
theorem look (hahead : own.ahead ≠ []) (view : Lexeme → α) {next next' : α → Reading β}
    (h : Settles around around' own (next (view (own.within around).current.lexeme))
      (next' (view (own.within around).current.lexeme))) :
    Settles around around' own (Action.gets (fun input => view input.current.lexeme) >>= next)
      (Action.gets (fun input => view input.current.lexeme) >>= next') :=
  .gets (by rw [Input.within_current (.inr hahead), Input.within_current (.inr hahead)]) h

/-- What follows a look at the current position. -/
theorem position (hahead : own.ahead ≠ []) {next next' : Position → Reading β}
    (h : ∀ place, Settles around around' own (next place) (next' place)) :
    Settles around around' own (Reading.position >>= next) (Reading.position >>= next') :=
  .gets (by rw [Input.within_current (.inr hahead), Input.within_current (.inr hahead)]) (h _)

theorem advance (hahead : own.ahead ≠ []) :
    Settles around around' own Reading.advance Reading.advance := by
  intro _ _
  refine ⟨own.advance, Input.within_advance (.inr hahead), ?_⟩
  exact congrArg (Outcome.done ()) (Input.within_advance (.inr hahead))

/-- What the second step does within the second surroundings, if it is known what the first
one does there. -/
theorem continues {first : Reading α} {second second' : α → Reading β} {left after : Input}
    {value : α} {result : β}
    (hdone : first (own.within around') = .done value (left.within around'))
    (h : Settles around around' left (second value) (second' value))
    (hrun : second value (left.within around) = .done result after)
    (hclean : after.errors = (left.within around).errors)
    (hlong : around.later.length ≤ after.ahead.length) :
    ∃ final : Input, after = final.within around ∧
      (first >>= second') (own.within around') = .done result (final.within around') := by
  unfold Settles at h
  rw [hrun] at h
  obtain ⟨final, hfinal, hdone'⟩ := h hclean hlong
  refine ⟨final, hfinal, ?_⟩
  change Action.bind first second' _ = _
  rw [Action.bind, hdone]
  exact hdone'

/-- Both steps may stop where the block ends. -/
theorem bind {first first' : Reading α} {second second' : α → Reading β}
    (h : Settles around around' own first first') (honward : first.Onward)
    (hsecond : ∀ value, (second value).Onward)
    (h' : ∀ value left, Settles around around' left (second value) (second' value)) :
    Settles around around' own (first >>= second) (first' >>= second') := by
  unfold Settles at h
  unfold Settles
  rw [Action.meets_bind]
  refine (h.and (honward _)).imp ?_ (fun _ _ _ => trivial) And.left
  rintro value middle ⟨hsame, hfirst⟩
  have hlater := hsecond value middle
  cases hrun : second value middle with
  | done result after =>
    rw [hrun] at hlater
    intro hclean hlong
    have hmiddle := hfirst.errors_eq hlater hclean
    obtain ⟨left, rfl, hdone⟩ := hsame hmiddle (Nat.le_trans hlong hlater.suffix.length_le)
    exact continues hdone (h' value left) hrun (hclean.trans hmiddle.symm) hlong
  | failed error after => trivial
  | outOfFuel => trivial

section

variable (hswap : around.Interchange around')

include hswap

/-- The first step cannot stop where the block ends, since the second one would not get on
from there. -/
theorem inside {first first' : Reading α} {second second' : α → Reading β} (h : Local first first')
    (hbarred : ∀ value, Barred (second value))
    (h' : ∀ value left, left.ahead ≠ [] →
      Settles around around' left (second value) (second' value)) :
    Settles around around' own (first >>= second) (first' >>= second') := by
  have hagrees := h around around' own
  unfold Agrees at hagrees
  unfold Settles
  rw [Action.meets_bind]
  refine hagrees.imp ?_ (fun _ _ _ => trivial) id
  rintro value middle ⟨hfirst, hsame⟩
  have hlater := (hbarred value).onward middle
  cases hrun : second value middle with
  | done result after =>
    rw [hrun] at hlater
    intro hclean hlong
    have hmiddle := hfirst.errors_eq hlater hclean
    have hshorter := hlater.suffix.length_le
    -- Either the first step has left a token of its own, or the second one is barred.
    by_cases hlonger : around.later.length < middle.ahead.length
    · obtain ⟨left, rfl, hdone⟩ := hsame (.inr hlonger)
      have hne : left.ahead ≠ [] := by
        intro hnil
        simp [Input.within, hnil] at hlonger
      exact continues hdone (h' value left hne) hrun (hclean.trans hmiddle.symm) hlong
    · have hends : Grammar.endsBlock middle.current.lexeme := by
        rw [hfirst.next (by omega)]
        exact hswap.ends
      have htakes := (hbarred value).takes middle hends
      rw [hrun] at htakes
      have htaken := htakes (hclean.trans hmiddle.symm)
      omega
  | failed error after => trivial
  | outOfFuel => trivial

/-- A step that does not get on where the block ends has tokens of its own ahead. -/
theorem of_barred {step step' : Reading α} (hbarred : Barred step)
    (h : own.ahead ≠ [] → Settles around around' own step step') :
    Settles around around' own step step' := by
  by_cases hahead : own.ahead = []
  · have hends : Grammar.endsBlock (own.within around).current.lexeme := by
      rw [Input.within_next hahead]
      exact hswap.ends
    refine (hbarred.takes _ hends).imp ?_ (fun _ _ => id) id
    intro _ after htakes hclean hlong
    have htaken := htakes hclean
    simp only [Input.within, hahead, List.nil_append] at htaken
    omega
  · exact h hahead

/-- A reserved word that continues an `if` statement is not where the block ends, and not in
its place. -/
theorem ifKeyword {word : Keyword} {yes yes' no no' : Reading α}
    (hword : (Lexeme.keyword word).continuesIf)
    (hyes : own.ahead ≠ [] → Settles around around' own yes yes')
    (hno : Settles around around' own no no') :
    Settles around around' own (do if ← atKeyword word then yes else no)
      (do if ← atKeyword word then yes' else no') := by
  by_cases hahead : own.ahead = []
  · have hends : (own.within around).current.lexeme.isKeyword word = false := by
      have hends := hswap.ends
      rw [Input.within_next hahead, Bool.eq_false_iff]
      intro hkeyword
      rw [Lexeme.isKeyword_iff.1 hkeyword] at hends
      cases hends
    have hparts : (own.within around').current.lexeme.isKeyword word = false := by
      have hparts := hswap.parts
      rw [Input.within_next hahead, Bool.eq_false_iff]
      intro hkeyword
      rw [Lexeme.isKeyword_iff.1 hkeyword, hword] at hparts
      cases hparts
    refine .gets (hparts.trans hends.symm) ?_
    rw [hends, if_neg Bool.false_ne_true, if_neg Bool.false_ne_true]
    exact hno
  · exact .look hahead (·.isKeyword word) (.ite (hyes hahead) hno)

end

/-- What follows a look at one more token, if two tokens are taken in any case. -/
theorem following (hahead : own.ahead ≠ []) {next next' : Lexeme → Reading α}
    (htakes : ∀ found, (next found).Engages (own.within around))
    (h : ∀ found, Settles around around' own (next found) (next' found)) :
    Settles around around' own (Action.gets Input.following >>= next)
      (Action.gets Input.following >>= next') := by
  match hown : own.ahead with
  | [] => exact (hahead hown).elim
  | first :: second :: rest =>
    exact .gets (by simp [Input.within, Input.following, hown]) (h _)
  | [_] =>
    -- There is only one token of its own.
    have hlength : (own.within around).ahead.length = around.later.length + 1 := by
      simp [Input.within, hown]
    refine (htakes (own.within around).following).imp ?_ (fun _ _ _ => trivial) id
    intro _ after htaken _ hlong
    omega

/-- A handler that leaves an error is not needed. -/
theorem recover {step step' : Reading α} {handler handler' : SyntaxError → Reading α}
    (h : Settles around around' own step step') (honward : step.Onward)
    (herrors : ∀ error middle, (own.within around).Onward middle →
      (handler error middle).Meets (fun _ after => after.errors ≠ (own.within around).errors)
        (fun _ _ => True) True) :
    Settles around around' own (Action.recover step handler) (Action.recover step' handler') := by
  unfold Settles at h
  unfold Settles
  rw [Action.meets_recover]
  refine (h.and (honward _)).imp ?_ ?_ And.left
  · rintro value after ⟨hsame, _⟩ hclean hlong
    obtain ⟨left, hleft, hdone⟩ := hsame hclean hlong
    exact ⟨left, hleft, by rw [Action.recover, hdone]⟩
  · rintro error middle ⟨_, hfirst⟩
    exact (herrors error middle hfirst).imp (fun _ _ hne heq => (hne heq).elim) (fun _ _ => id) id

end Settles

/-- The step is barred, and does the same before the end of a block and before what is put in
its place. -/
structure Closes (around around' : Surroundings) (step step' : Reading α) : Prop where
  barred : Barred step
  settles : ∀ own : Input, own.ahead ≠ [] → Settles around around' own step step'

namespace Closes

variable {around around' : Surroundings}

theorem exhausted {step : Reading α} : Closes around around' Action.exhausted step :=
  ⟨⟨fun _ => trivial, fun _ _ => trivial⟩, fun _ _ => trivial⟩

/-- The second step may stop where the first one may. -/
theorem bind {first first' : Reading α} {second second' : α → Reading β}
    (h : Closes around around' first first') (hsecond : ∀ value, (second value).Onward)
    (h' : ∀ value own, Settles around around' own (second value) (second' value)) :
    Closes around around' (first >>= second) (first' >>= second') :=
  ⟨h.barred.bind hsecond, fun own hahead => .bind (h.settles own hahead) h.barred.onward hsecond h'⟩

theorem map {first first' : Reading α} (h : Closes around around' first first')
    (result : α → β) :
    Closes around around' (first >>= fun value => Pure.pure (result value))
      (first' >>= fun value => Pure.pure (result value)) :=
  .bind h (fun _ => .pure _) fun _ _ => .pure _

theorem ite {condition : Prop} [Decidable condition] {yes yes' no no' : Reading α}
    (hyes : Closes around around' yes yes') (hno : Closes around around' no no') :
    Closes around around' (if condition then yes else no) (if condition then yes' else no') := by
  split
  · exact hyes
  · exact hno

/-- A sign that must be there is taken, or missed. -/
theorem expectSymbol (sign : Symbol) :
    Closes around around' (Reading.expectSymbol sign) (Reading.expectSymbol sign) where
  barred := barred_expectSymbol sign
  settles _ hahead := .look hahead (·.isSymbol sign)
    (.ite (.advance hahead) (.of_errors (missing_errors _ _)))

variable (hswap : around.Interchange around')

include hswap

theorem everywhere {step step' : Reading α} (h : Closes around around' step step') (own : Input) :
    Settles around around' own step step' :=
  .of_barred hswap h.barred (h.settles own)

/-- A local step before one that closes. -/
theorem after {first first' : Reading α} {second second' : α → Reading β} (h : Local first first')
    (h' : ∀ value, Closes around around' (second value) (second' value)) :
    Closes around around' (first >>= second) (first' >>= second') where
  barred := .later h.onward fun value => (h' value).barred
  settles _ _ := .inside hswap h (fun value => (h' value).barred)
    fun value left hleft => (h' value).settles left hleft

end Closes

end Reading

/-! ### Rules -/

namespace Grammar

open Reading

/-- After the error of a statement has been recorded, it stays. -/
theorem resume_errors {input middle : Input} (h : input.Onward middle) (error : SyntaxError)
    (before : Nat) :
    ((do
      Action.update fun input => input.report error
      if (← Action.gets Input.taken) = before then advance
      Action.update Input.synchronize
      return Stmt.error error.position error.fault : Reading Stmt) middle).Meets
      (fun _ after => after.errors ≠ input.errors) (fun _ _ => True) True := by
  rw [Action.meets_bind, Action.meets_update]
  exact (resume_onward error before (middle.report error)).imp (fun _ _ => h.errors_ne)
    (fun _ _ _ => trivial) id

/-- What ends a block or continues an `if` statement. -/
theorem stuck_cases {found : Lexeme} (h : endsBlock found ∨ found.continuesIf) :
    found = .symbol .rightBrace ∨ found = .endOfInput ∨ found = .keyword .elifWord ∨
      found = .keyword .elseWord := by
  obtain h | h := h
  · obtain hbrace | hend := Bool.or_eq_true_iff.1 h
    · exact .inl (Lexeme.isSymbol_iff.1 hbrace)
    · cases found with
      | endOfInput => exact .inr (.inl rfl)
      | _ => cases hend
  · obtain helif | helse := Bool.or_eq_true_iff.1 h
    · exact .inr (.inr (.inl (Lexeme.isKeyword_iff.1 helif)))
    · exact .inr (.inr (.inr (Lexeme.isKeyword_iff.1 helse)))

section

variable {input : Input} (fuel : Nat)
  (h : endsBlock input.current.lexeme ∨ input.current.lexeme.continuesIf)

include h

theorem primary_stuck :
    (primary fuel input).Meets (fun _ _ => False) (fun _ _ => True) True := by
  cases fuel with
  | zero => trivial
  | succ fuel =>
    rw [primary]
    refine (meets_position _).2 ((meets_lexeme _).2 fun found hfound => ?_)
    obtain rfl | rfl | rfl | rfl := stuck_cases (hfound ▸ h) <;> trivial

theorem unary_stuck :
    (unary fuel input).Meets (fun _ _ => False) (fun _ _ => True) True := by
  cases fuel with
  | zero => trivial
  | succ fuel =>
    have hoperand : ((primary fuel >>= suffixed fuel) input).Meets (fun _ _ => False)
        (fun _ _ => True) True := by
      rw [Action.meets_bind]
      exact (primary_stuck fuel h).imp (fun _ _ => False.elim) (fun _ _ => id) id
    rw [unary]
    refine (meets_position _).2 ((meets_lexeme _).2 fun found hfound => ?_)
    obtain rfl | rfl | rfl | rfl := stuck_cases (hfound ▸ h) <;> exact hoperand

theorem exprStatement_stuck :
    (exprStatement fuel input).Meets (fun _ _ => False) (fun _ _ => True) True := by
  have hexpression : ∀ fuel, (expression fuel assignLevel input).Meets (fun _ _ => False)
      (fun _ _ => True) True := by
    intro fuel
    cases fuel with
    | zero => trivial
    | succ fuel =>
      rw [expression, Action.meets_bind]
      exact (unary_stuck fuel h).imp (fun _ _ => False.elim) (fun _ _ => id) id
  cases fuel with
  | zero => trivial
  | succ fuel =>
    rw [exprStatement, Action.meets_bind]
    exact (hexpression fuel).imp (fun _ _ => False.elim) (fun _ _ => id) id

/-- No statement starts like this, so an error is recorded. -/
theorem recovered_stuck :
    (recovered fuel input).Meets (fun _ after => after.errors ≠ input.errors) (fun _ _ => True)
      True := by
  have hstatement : ∀ fuel, (statement fuel input).Meets (fun _ _ => False)
      (fun _ middle => input.Onward middle) True := by
    intro fuel
    have honward := (statement_local (Nat.le_refl fuel)).onward input
    refine (honward.and (?_ : (statement fuel input).Meets (fun _ _ => False) (fun _ _ => True)
      True)).imp (fun _ _ => And.right) (fun _ _ => And.left) And.left
    cases fuel with
    | zero => trivial
    | succ fuel =>
      rw [statement]
      refine (meets_position _).2 ((meets_lexeme _).2 fun found hfound => ?_)
      obtain rfl | rfl | rfl | rfl := stuck_cases (hfound ▸ h) <;> exact exprStatement_stuck fuel h
  cases fuel with
  | zero => trivial
  | succ fuel =>
    have hrecover : ((do
        let before ← Action.gets Input.taken
        Action.recover (statement fuel) fun error => do
          Action.update fun input => input.report error
          if (← Action.gets Input.taken) = before then advance
          Action.update Input.synchronize
          return .error error.position error.fault : Reading Stmt) input).Meets
        (fun _ after => after.errors ≠ input.errors) (fun _ _ => True) True := by
      rw [Action.meets_bind, Action.meets_gets, Action.meets_recover]
      exact (hstatement fuel).imp (fun _ _ => False.elim)
        (fun error middle hfirst => resume_errors hfirst error _) id
    rw [recovered]
    refine (meets_position _).2 ((meets_lexeme _).2 fun found hfound => ?_)
    obtain rfl | rfl | rfl | rfl := stuck_cases (hfound ▸ h) <;> exact hrecover

end

/-- Where a block ends there is no statement. -/
theorem recovered_barred (fuel : Nat) : Barred (recovered fuel) where
  onward := (recovered_local (Nat.le_refl fuel)).onward
  takes _ hends := (recovered_stuck fuel (.inl hends)).imp (fun _ _ hne heq => (hne heq).elim)
    (fun _ _ => id) id

/-- The rules for statements and functions close, with the given amounts of fuel. Only the
further conditions of an `if` statement may be missing. -/
structure Settled (around around' : Surroundings) (fuel fuel' : Nat) : Prop where
  function : ∀ place name, Closes around around' (function fuel place name)
    (function fuel' place name)
  block : Closes around around' (block fuel) (block fuel')
  recovered : Closes around around' (recovered fuel) (recovered fuel')
  statement : Closes around around' (statement fuel) (statement fuel')
  exprStatement : Closes around around' (exprStatement fuel) (exprStatement fuel')
  definition : Closes around around' (definition fuel) (definition fuel')
  clauses : ∀ own, Settles around around' own (clauses fuel) (clauses fuel')

namespace Settled

variable {around around' : Surroundings} {fuel fuel' : Nat}

theorem function_succ (ih : Settled around around' fuel fuel')
    (hswap : around.Interchange around') (hl : fuel ≤ fuel') (place : Position)
    (name : Option String) : Closes around around' (Grammar.function (fuel + 1) place name)
      (Grammar.function (fuel' + 1) place name) := by
  rw [Grammar.function, Grammar.function]
  have hblock : ∀ found : List String, Closes around around'
      (do
        let body ← Grammar.block fuel
        let source ← Action.gets Input.source
        return (⟨source, place, name, found, .block body⟩ : Declaration))
      (do
        let body ← Grammar.block fuel'
        let source ← Action.gets Input.source
        return (⟨source, place, name, found, .block body⟩ : Declaration)) := fun found =>
    .bind ih.block (fun _ => .bind (.gets _) fun _ => .pure _) fun _ _ => .gets rfl (.pure _)
  refine .after hswap (parameters_local hl) fun found => ⟨.of_fails ?_ ?_, ?_⟩
  · refine .bind (.gets _) fun _ => .ite (hblock found).barred.onward ?_
    exact (Local.reject _).onward
  · intro input hends
    have hbrace : input.current.lexeme.isSymbol .leftBrace = false := by
      rw [Bool.eq_false_iff]
      intro hbrace
      rw [Lexeme.isSymbol_iff.1 hbrace] at hends
      cases hends
    rw [Action.meets_bind, atSymbol, Action.meets_gets, hbrace, if_neg Bool.false_ne_true]
    trivial
  · intro own hahead
    refine .look hahead (·.isSymbol .leftBrace) (.ite ((hblock found).settles own hahead) ?_)
    trivial

theorem block_succ (hswap : around.Interchange around') (hl : fuel ≤ fuel') :
    Closes around around' (Grammar.block (fuel + 1)) (Grammar.block (fuel' + 1)) := by
  rw [Grammar.block, Grammar.block]
  refine .after hswap .advance fun _ => .after hswap (statements_local hl _) fun _ => ?_
  exact .map (.expectSymbol _) _

theorem exprStatement_succ (hswap : around.Interchange around') (hl : fuel ≤ fuel') :
    Closes around around' (Grammar.exprStatement (fuel + 1))
      (Grammar.exprStatement (fuel' + 1)) := by
  rw [Grammar.exprStatement, Grammar.exprStatement]
  exact .after hswap (expression_local hl _) fun _ => .map (.expectSymbol _) _

theorem definition_succ (ih : Settled around around' fuel fuel')
    (hswap : around.Interchange around') :
    Closes around around' (Grammar.definition (fuel + 1)) (Grammar.definition (fuel' + 1)) := by
  rw [Grammar.definition, Grammar.definition]
  refine .after hswap .position fun _ => .after hswap .advance fun _ => ?_
  exact .after hswap (.expectName _) fun _ => ih.function _ _

theorem clauses_succ (ih : Settled around around' fuel fuel')
    (hswap : around.Interchange around') (hl : fuel ≤ fuel') (own : Input) :
    Settles around around' own (Grammar.clauses (fuel + 1)) (Grammar.clauses (fuel' + 1)) := by
  rw [Grammar.clauses, Grammar.clauses]
  refine .ifKeyword hswap rfl (fun hahead => ?_) (.pure _)
  have hclause : Closes around around'
      (do
        advance
        let test ← Grammar.condition fuel
        let body ← Grammar.recovered fuel
        let rest ← Grammar.clauses fuel
        return (⟨test, body⟩ :: rest : List Clause))
      (do
        advance
        let test ← Grammar.condition fuel'
        let body ← Grammar.recovered fuel'
        let rest ← Grammar.clauses fuel'
        return (⟨test, body⟩ :: rest : List Clause)) := by
    refine .after hswap .advance fun _ => .after hswap (condition_local hl) fun _ => ?_
    refine .bind ih.recovered (fun _ => .bind (clauses_local hl).onward fun _ => .pure _)
      fun _ left => ?_
    exact .bind (ih.clauses left) (clauses_local hl).onward (fun _ => .pure _) fun _ _ => .pure _
  exact hclause.settles own hahead

theorem recovered_succ (ih : Settled around around' fuel fuel') (hl : fuel ≤ fuel') :
    Closes around around' (Grammar.recovered (fuel + 1)) (Grammar.recovered (fuel' + 1)) := by
  refine ⟨recovered_barred _, fun own hahead => ?_⟩
  rw [Grammar.recovered, Grammar.recovered]
  refine .position hahead fun place => .look hahead (fun found => found) ?_
  split
  · exact .of_errors ((Input.Onward.refl _).errors_ne ((Input.Onward.advance _).trans
      (.synchronize _)))
  · refine Settles.recover (ih.statement.settles own hahead) (statement_local hl).onward ?_
    exact fun error middle hfirst => resume_errors hfirst error _

theorem statement_succ (ih : Settled around around' fuel fuel')
    (hswap : around.Interchange around') (hl : fuel ≤ fuel') :
    Closes around around' (Grammar.statement (fuel + 1)) (Grammar.statement (fuel' + 1)) := by
  refine ⟨.of_reads fun _ => (rules _ (fuel + 1)).statement (Outlook.any_braces (.loose 0) _),
    fun own hahead => ?_⟩
  rw [Grammar.statement, Grammar.statement]
  refine .position hahead fun place => .look hahead (fun found => found) ?_
  generalize hfound : (own.within around).current.lexeme = found
  split
  · exact (Closes.map ih.block _).settles own hahead
  · -- Both the further conditions and the last alternative may be missing.
    have honward : ∀ branch : Option Stmt → Stmt, Reading.Onward (do
        if ← atKeyword .elseWord then
          advance
          let otherwise ← Grammar.recovered fuel
          return branch (some otherwise)
        else
          return branch none) := fun _ =>
      .bind (.gets _) fun _ => .ite (.bind Local.advance.onward fun _ =>
        .bind (recovered_local hl).onward fun _ => .pure _) (.pure _)
    refine (Closes.after hswap .advance fun _ => .after hswap (condition_local hl) fun _ =>
      .bind ih.recovered (fun _ => .bind (clauses_local hl).onward fun _ => honward (.branch _ _ _))
        ?_).settles own hahead
    intro _ left
    refine .bind (ih.clauses left) (clauses_local hl).onward (fun _ => honward (.branch _ _ _)) ?_
    intro _ left
    refine .ifKeyword hswap rfl (fun hleft => ?_) (.pure _)
    exact (Closes.after hswap .advance fun _ => .map ih.recovered _).settles left hleft
  · refine (Closes.after hswap .advance fun _ => .after hswap (.expectSymbol _) fun _ => ?_).settles
      own hahead
    refine .after hswap (optional_local hl _) fun _ => .after hswap (.expectSymbol _) fun _ => ?_
    refine .after hswap (optional_local hl _) fun _ => .after hswap (.expectSymbol _) fun _ => ?_
    refine .after hswap (optional_local hl _) fun _ => .after hswap (.expectSymbol _) fun _ => ?_
    exact .map ih.recovered _
  · refine (Closes.after hswap .advance fun _ => .after hswap (.expectSymbol _) fun _ => ?_).settles
      own hahead
    refine .after hswap (.expectName _) fun _ => .after hswap (.expectKeyword _) fun _ => ?_
    refine .after hswap (expression_local hl _) fun _ => .after hswap (.expectSymbol _) fun _ => ?_
    exact .map ih.recovered _
  · refine (Closes.after hswap .advance fun _ =>
      .after hswap (condition_local hl) fun _ => ?_).settles own hahead
    exact .map ih.recovered _
  · refine (Closes.after hswap .advance fun _ =>
      .after hswap (recovered_local hl) fun _ => ?_).settles own hahead
    refine .after hswap (.expectKeyword _) fun _ => .after hswap (condition_local hl) fun _ => ?_
    exact .map (.expectSymbol _) _
  · refine (Closes.after hswap .advance fun _ =>
      .after hswap (condition_local hl) fun _ => ?_).settles own hahead
    refine .after hswap (.expectSymbol _) fun _ => .after hswap (cases_local hl _) fun _ => ?_
    exact .map (.expectSymbol _) _
  · exact (Closes.after hswap .advance fun _ => .map (.expectSymbol _) _).settles own hahead
  · exact (Closes.after hswap .advance fun _ => .map (.expectSymbol _) _).settles own hahead
  · refine (Closes.after hswap .advance fun _ => .after hswap (.atSymbol _) fun _ =>
      .after hswap (.atSymbol _) fun _ => .ite ?_ ?_).settles own hahead
    · exact .map (.expectSymbol _) _
    · exact .after hswap (expression_local hl _) fun _ => .map (.expectSymbol _) _
  · exact .bind (.advance hahead) Local.advance.onward (fun _ => .pure _) fun _ _ => .pure _
  · -- The second token shows if the function has a name. It need not be one of its own, but
    -- then it is taken.
    refine .following hahead (fun found => ?_) fun found => ?_
    · split
      · exact exprStatement_engages fuel hfound
      · exact (definition_engages fuel hfound).bind fun _ => .pure _
    · split
      · exact ih.exprStatement.settles own hahead
      · exact (Closes.map ih.definition _).settles own hahead
  · exact ih.exprStatement.settles own hahead

end Settled

theorem settled {around around' : Surroundings} (hswap : around.Interchange around')
    {fuel fuel' : Nat} (h : fuel ≤ fuel') : Settled around around' fuel fuel' := by
  induction fuel generalizing fuel' with
  | zero => constructor <;> intros <;> exact .exhausted
  | succ fuel ih =>
    obtain ⟨fuel', rfl⟩ := Nat.exists_eq_add_of_le' (Nat.le_trans (Nat.le_add_left 1 fuel) h)
    have hle := Nat.le_of_succ_le_succ h
    have ih := ih hle
    exact {
      function := ih.function_succ hswap hle
      block := Settled.block_succ hswap hle
      recovered := ih.recovered_succ hle
      statement := ih.statement_succ hswap hle
      exprStatement := Settled.exprStatement_succ hswap hle
      definition := ih.definition_succ hswap
      clauses := ih.clauses_succ hswap hle }

end Grammar

/-! ### Moving what has been read -/

/-- Inputs with the same lexemes ahead are alike, whatever the positions. -/
theorem Input.Faces.alike {input input' : Input} {lexemes : List Lexeme} (h : input.Faces lexemes)
    (h' : input'.Faces lexemes) (htaken : input.taken = input'.taken) :
    input.Alike (fun _ _ => True) input' := by
  refine ⟨?_, trivial, htaken, by rw [h.errors, h'.errors]; exact .nil⟩
  have hahead := h.ahead.trans h'.ahead.symm
  rw [← List.forall₂_eq_eq_eq, List.forall₂_map_left_iff, List.forall₂_map_right_iff] at hahead
  exact hahead.imp fun _ _ hlexeme => ⟨hlexeme, trivial⟩

/-- Lexemes that one input has ahead, followed by `stop`, and another one, followed by
`rest`: the tokens `own` of the second input, and what is around them in both places. -/
structure Input.Transfers (alone input own : Input) (around around' : Surroundings)
    (front stop rest : List Lexeme) : Prop where
  alike : alone.Alike (fun _ _ => True) (own.within around)
  faces : (own.within around).Faces (front ++ stop)
  there : own.within around' = input
  stop : around.later.map Token.lexeme = stop
  rest : around'.later.map Token.lexeme = rest

namespace Input.Transfers

variable {alone input own : Input} {around around' : Surroundings}
  {front stop rest : List Lexeme}

theorem of_lexemes (halone : alone.Faces (front ++ stop)) (hinput : input.lexemes = front ++ rest) :
    ∃ own around around', alone.Transfers input own around around' front stop rest := by
  obtain ⟨tokens, later, hsplit, hfront, hlater⟩ := List.map_eq_append_iff.1 hinput
  let own : Input := { input with ahead := tokens, errors := #[], taken := 0 }
  let around : Surroundings := ⟨stop.map fun lexeme => ⟨lexeme, .start⟩, #[], alone.taken⟩
  let around' : Surroundings := ⟨later, input.errors, input.taken⟩
  have hstop : around.later.map Token.lexeme = stop := by
    simp [around, Function.comp_def]
  have hfaces : (own.within around).Faces (front ++ stop) := by
    refine ⟨?_, by simp [own, around, Input.within]⟩
    simp [Input.within, hstop, own, hfront]
  refine ⟨own, around, around', halone.alike hfaces rfl, hfaces, ?_, hstop, hlater⟩
  simp [own, around', Input.within, ← hsplit]

/-- Nothing has been recorded around the tokens where they stand alone. -/
theorem clean (h : alone.Transfers input own around around' front stop rest) {left : Input}
    (hleft : (left.within around).errors = #[]) : (left.within around').errors = input.errors := by
  have hown := h.faces.errors
  rw [← h.there]
  simp only [within, Array.append_eq_empty_iff] at hown hleft ⊢
  rw [hleft.2, hown.2]

end Input.Transfers

namespace Reading

variable {α : Type} {rule : Nat → Reading α} {made : α → α → Prop} {alone after : Input}
  {front stop rest : List Lexeme} {fuel : Nat}
  (hlocal : ∀ {fuel fuel'}, fuel ≤ fuel' → Local (rule fuel) (rule fuel'))
  (halike : ∀ fuel, Reading.Alike (fun _ _ => True) made (rule fuel) (rule fuel))

include hlocal halike

/-- What a rule reads without an error up to where a block ends, it reads in the same way
wherever the same lexemes stand, if what follows does not continue an `if` statement. -/
theorem moves (hcloses : ∀ {around around'}, around.Interchange around' → ∀ {fuel fuel'},
      fuel ≤ fuel' → Closes around around' (rule fuel) (rule fuel'))
    {value : α} (halone : alone.Faces (front ++ stop)) (hrun : rule fuel alone = .done value after)
    (hafter : after.Faces stop) (hstop : Grammar.endsBlock (stop.headD .endOfInput))
    (hrest : (rest.headD .endOfInput).continuesIf = false) (fuel' : Nat) (input : Input)
    (hinput : input.lexemes = front ++ rest) :
    (rule fuel' input).Meets
      (fun found final => made value found ∧ final.lexemes = rest ∧ final.errors = input.errors)
      (fun _ _ => False) True := by
  obtain ⟨own, around, around', h⟩ := Input.Transfers.of_lexemes halone hinput
  have hswap : around.Interchange around' := by
    refine ⟨?_, ?_⟩
    · rwa [Surroundings.next, h.stop]
    · rwa [Surroundings.next, h.rest]
  have hends := halike fuel alone (own.within around) h.alike
  rw [hrun] at hends
  have hsettles := (hcloses hswap (Nat.le_max_left fuel fuel')).everywhere hswap own
  unfold Settles at hsettles
  obtain ⟨found, final, hmade, hfinal, hended⟩ := hends
  rw [hended] at hsettles
  have hclean : final.errors = #[] := by
    have herrors := hfinal.errors
    rw [hafter.errors] at herrors
    exact Array.toList_eq_nil_iff.1 (List.forall₂_nil_left_iff.1 herrors)
  have hlength : final.ahead.length = around.later.length := by
    have hlexemes := (hfinal.lexemes.symm.trans hafter.ahead).trans h.stop.symm
    simpa using congrArg List.length hlexemes
  obtain ⟨left, rfl, hdone⟩ := hsettles (hclean.trans h.faces.errors.symm)
    (Nat.le_of_eq hlength.symm)
  have hleft : left.ahead = [] := by
    simpa [Input.within] using hlength
  rw [h.there] at hdone
  -- The fuel in the second place may be less, but if it lasts, it makes no difference.
  refine ((hlocal (Nat.le_max_right fuel fuel')).same input).imp ?_ ?_ id
  · intro found' final' hsame
    rw [hdone] at hsame
    cases hsame
    refine ⟨hmade, ?_, h.clean hclean⟩
    simp [Input.lexemes, Input.within, hleft, h.rest]
  · intro error final' hsame
    rw [hdone] at hsame
    cases hsame

/-- Where a rule fails before the last lexeme, it fails in the same way wherever the same
lexemes stand. -/
theorem moves_failed {error : SyntaxError} (halone : alone.Faces front)
    (hrun : rule fuel alone = .failed error after) (hafter : after.ahead ≠ []) (fuel' : Nat)
    (input : Input) (hinput : input.lexemes = front ++ rest) :
    (rule fuel' input).Meets (fun _ _ => False)
      (fun _ final => final.lexemes = after.lexemes ++ rest) True := by
  rw [← List.append_nil front] at halone
  obtain ⟨own, around, around', h⟩ := Input.Transfers.of_lexemes halone hinput
  have hends := halike fuel alone (own.within around) h.alike
  rw [hrun] at hends
  have hagrees := hlocal (Nat.le_max_left fuel fuel') around around' own
  unfold Agrees at hagrees
  obtain ⟨_, final, _, hfinal, hended⟩ := hends
  rw [hended] at hagrees
  have hlength : around.later.length < final.ahead.length := by
    have hnone := List.map_eq_nil_iff.1 h.stop
    rw [hnone, ← hfinal.ahead.length_eq]
    exact List.length_pos_iff.2 hafter
  obtain ⟨left, rfl, hfailed⟩ := hagrees.2 (.inr hlength)
  rw [h.there] at hfailed
  refine ((hlocal (Nat.le_max_right fuel fuel')).same input).imp ?_ ?_ id
  · intro found' final' hsame
    rw [hfailed] at hsame
    cases hsame
  · intro error final' hsame
    rw [hfailed] at hsame
    cases hsame
    have hlexemes : after.lexemes = left.lexemes := by
      have hlexemes := hfinal.lexemes
      rw [Input.within, List.map_append, h.stop, List.append_nil] at hlexemes
      exact hlexemes
    rw [hlexemes, Input.lexemes, Input.within, List.map_append, h.rest]
    rfl

end Reading

namespace Grammar

open Reading

variable {alone after : Input} {front stop rest : List Lexeme} {fuel : Nat}

/-- A statement is read in the same way wherever it stands. -/
theorem recovered_moves {statement : Stmt} (halone : alone.Faces (front ++ stop))
    (hrun : recovered fuel alone = .done statement after) (hafter : after.Faces stop)
    (hstop : endsBlock (stop.headD .endOfInput))
    (hrest : (rest.headD .endOfInput).continuesIf = false) (fuel' : Nat) (input : Input)
    (hinput : input.lexemes = front ++ rest) :
    (recovered fuel' input).Meets
      (fun found final => statement.Alike (fun _ _ => True) found ∧
        final.lexemes = rest ∧ final.errors = input.errors)
      (fun _ _ => False) True :=
  moves recovered_local (fun fuel => .of_keeps (keeping _ (Nat.le_refl fuel)).recovered)
    (fun hswap _ _ h => (settled hswap h).recovered) halone hrun hafter hstop hrest fuel' input
    hinput

/-- A function with a name is read in the same way wherever it stands. -/
theorem definition_moves {declaration : Declaration} (halone : alone.Faces (front ++ stop))
    (hrun : definition fuel alone = .done declaration after) (hafter : after.Faces stop)
    (hstop : endsBlock (stop.headD .endOfInput))
    (hrest : (rest.headD .endOfInput).continuesIf = false) (fuel' : Nat) (input : Input)
    (hinput : input.lexemes = front ++ rest) :
    (definition fuel' input).Meets
      (fun found final => declaration.Alike (fun _ _ => True) found ∧
        final.lexemes = rest ∧ final.errors = input.errors)
      (fun _ _ => False) True :=
  moves definition_local (fun fuel => .of_keeps (keeping _ (Nat.le_refl fuel)).definition)
    (fun hswap _ _ h => (settled hswap h).definition) halone hrun hafter hstop hrest fuel' input
    hinput

end Grammar

end Betty
