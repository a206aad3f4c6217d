import Betty.Proofs.Parser.Rules.Programs
import Betty.Proofs.Program.Alike

/-!
# Two runs over tokens that are akin

What a rule of the grammar does depends on the lexemes of the tokens up to the one it stops
before, and on nothing else. It passes the positions of the tokens on, but does not look at
them. It looks neither at what follows, nor at the errors recorded before, nor at how many
tokens were taken.

So two runs of a step are compared, over tokens that are akin in one of two ways: they are the
same ones with different tokens after them, or they have the same lexemes at different places.
What holds of both ways of being akin is stated once, for the steps that the rules are made of.

## Main definitions

* `Surroundings`, `Input.within`: what may stand around a row of tokens.
* `Input.Alike`: two states of the parser that differ in positions only.
* `Kinship`: how the tokens of two runs are akin.
* `Kinship.Pair`: two values that come from such tokens.
* `Kinship.Keeps`: from inputs that are akin, two steps come to values and inputs that are.
-/

namespace Betty

/-! ### What stands around tokens -/

/-- What may be around an input: tokens after its own, errors recorded before its own, and a
number of tokens taken before. -/
structure Surroundings where
  later : List Token
  earlier : Array SyntaxError
  before : Nat

/-- The input with something around it. -/
def Input.within (input : Input) (around : Surroundings) : Input :=
  { input with
    ahead := input.ahead ++ around.later
    errors := around.earlier ++ input.errors
    taken := around.before + input.taken }

/-- Nothing around an input. -/
def Surroundings.nothing : Surroundings := ⟨[], #[], 0⟩

@[simp]
theorem Input.within_nothing (input : Input) : input.within .nothing = input := by
  simp [within, Surroundings.nothing]

/-- The surroundings do not change the current token: there is one ahead, or nothing
follows. -/
def Surroundings.Spare (around : Surroundings) (input : Input) : Prop :=
  around.later = [] ∨ input.ahead ≠ []

/-- Reading within the first surroundings has not come to the tokens of theirs, so it has
not seen what tells them from the second ones. -/
def Surroundings.Inside (around around' : Surroundings) (after : Input) : Prop :=
  (around.later = [] ∧ around'.later = []) ∨ around.later.length < after.ahead.length

/-- Tokens have been taken from the front only, and errors added at the end. -/
structure Input.Onward (input after : Input) : Prop where
  suffix : after.ahead <:+ input.ahead
  errors : input.errors.toList <+: after.errors.toList

namespace Input

variable {around around' : Surroundings} {input after : Input}

namespace Onward

theorem refl (input : Input) : input.Onward input :=
  ⟨List.suffix_refl _, List.prefix_refl _⟩

theorem trans {middle : Input} (h : input.Onward middle) (h' : middle.Onward after) :
    input.Onward after :=
  ⟨h'.suffix.trans h.suffix, h.errors.trans h'.errors⟩

theorem advance (input : Input) : input.Onward input.advance := by
  refine ⟨?_, advance_errors input ▸ List.prefix_refl _⟩
  rw [advance_ahead]
  exact List.tail_suffix _

theorem report (input : Input) (error : SyntaxError) : input.Onward (input.report error) :=
  ⟨List.suffix_refl _, by simp [Input.report]⟩

/-- What lies inside of the surroundings in the end has always been inside of them. -/
theorem inside (h : input.Onward after) (hinside : around.Inside around' after) :
    around.Inside around' input :=
  hinside.imp_right fun hlonger => Nat.lt_of_lt_of_le hlonger h.suffix.length_le

end Onward

theorem spare_of_inside (h : around.Inside around' (input.within around)) :
    around.Spare input ∧ around'.Spare input := by
  obtain ⟨hlater, hlater'⟩ | hlonger := h
  · exact ⟨.inl hlater, .inl hlater'⟩
  · have hne : input.ahead ≠ [] := by
      intro hnil
      simp [within, hnil] at hlonger
    exact ⟨.inr hne, .inr hne⟩

theorem spare_of_suffix (h : after.ahead <:+ input.ahead) (hspare : around.Spare after) :
    around.Spare input := by
  refine hspare.imp_right fun hne hnil => hne ?_
  rw [hnil] at h
  exact List.suffix_nil.1 h

theorem within_current (h : around.Spare input) :
    (input.within around).current = input.current := by
  unfold current within
  cases hahead : input.ahead with
  | nil =>
    rw [h.resolve_right fun hne => hne hahead]
    rfl
  | cons token rest => rfl

theorem within_advance (h : around.Spare input) :
    (input.within around).advance = input.advance.within around := by
  cases hahead : input.ahead with
  | nil =>
    have hlater := h.resolve_right fun hne => hne hahead
    rw [advance_of_nil hahead, advance_of_nil]
    simp [within, hahead, hlater]
  | cons token rest => simp [advance, within, hahead, Nat.add_assoc]

theorem within_report (error : SyntaxError) :
    (input.within around).report error = (input.report error).within around := by
  simp [report, within]

theorem Onward.synchronize (input : Input) : input.Onward input.synchronize := by
  induction hlength : input.ahead.length generalizing input with
  | zero =>
    rw [synchronize_eq, if_pos (.inl (List.length_eq_zero_iff.1 hlength))]
    exact .refl input
  | succ n ih =>
    rw [synchronize_eq]
    split
    · exact .refl input
    · split
      · exact .advance input
      · next hgoes _ =>
        have hshorter := advance_length fun hnil => hgoes (.inl hnil)
        exact (Onward.advance input).trans (ih input.advance (by omega))

theorem within_synchronize (h : around.Spare input.synchronize) :
    (input.within around).synchronize = input.synchronize.within around := by
  induction hlength : input.ahead.length generalizing input with
  | zero =>
    have hahead := List.length_eq_zero_iff.1 hlength
    have hspare := spare_of_suffix (Onward.synchronize input).suffix h
    have hlater := hspare.resolve_right fun hne => hne hahead
    have hahead' : (input.within around).ahead = [] := by
      simp [within, hahead, hlater]
    rw [synchronize_eq, synchronize_eq input, if_pos (.inl hahead'), if_pos (.inl hahead)]
  | succ n ih =>
    have hspare := spare_of_suffix (Onward.synchronize input).suffix h
    have hne : input.ahead ≠ [] := by
      intro hnil
      rw [hnil] at hlength
      cases hlength
    have hne' : (input.within around).ahead ≠ [] := by
      simp [within, hne]
    rw [synchronize_eq] at h
    rw [synchronize_eq, synchronize_eq input, within_current hspare]
    by_cases hresumes : resumes input.current.lexeme
    · rw [if_pos (.inr hresumes), if_pos (.inr hresumes)]
    · have hgoes : ¬ (input.ahead = [] ∨ resumes input.current.lexeme) := by
        rintro (hnil | hresumes')
        · exact hne hnil
        · exact hresumes hresumes'
      have hgoes' : ¬ ((input.within around).ahead = [] ∨ resumes input.current.lexeme) := by
        rintro (hnil | hresumes')
        · exact hne' hnil
        · exact hresumes hresumes'
      rw [if_neg hgoes] at h
      rw [if_neg hgoes, if_neg hgoes', within_advance hspare]
      split
      · rfl
      · next hsemi =>
        rw [if_neg hsemi] at h
        have hshorter := advance_length hne
        exact ih h (by omega)

/-- Where nothing of its own makes the skipping stop, it goes on into the tokens around. -/
theorem synchronize_past (h : input.synchronize.ahead = []) :
    (input.within around).synchronize.ahead <:+ around.later := by
  induction hlength : input.ahead.length generalizing input with
  | zero =>
    have hahead : (input.within around).ahead = around.later := by
      simp [within, List.length_eq_zero_iff.1 hlength]
    exact hahead ▸ (Onward.synchronize (input.within around)).suffix
  | succ n ih =>
    have hne : input.ahead ≠ [] := by
      intro hnil
      rw [hnil] at hlength
      cases hlength
    have hne' : (input.within around).ahead ≠ [] := by
      simp [within, hne]
    rw [synchronize_eq] at h ⊢
    rw [within_current (.inr hne), within_advance (.inr hne)]
    split at h
    · exact (hne h).elim
    · next hgoes =>
      rw [if_neg fun hstops => hstops.elim hne' fun hresumes => hgoes (.inr hresumes)]
      split at h
      · next hsemi =>
        rw [if_pos hsemi]
        simp [within, h]
      · next hsemi =>
        rw [if_neg hsemi]
        have hshorter := advance_length hne
        exact ih h (by omega)

end Input

/-! ### Inputs that differ in positions -/

section

variable (same : Position → Position → Prop)

/-- The tokens have the same lexeme. -/
structure Token.Alike (token token' : Token) : Prop where
  lexeme : token.lexeme = token'.lexeme
  position : same token.position token'.position

/-- The errors have the same fault. -/
structure SyntaxError.Alike (error error' : SyntaxError) : Prop where
  fault : error.fault = error'.fault
  position : same error.position error'.position

/-- The inputs have the same lexemes ahead and the same faults behind them. -/
structure Input.Alike (input input' : Input) : Prop where
  ahead : List.Forall₂ (Token.Alike same) input.ahead input'.ahead
  finish : same input.finish input'.finish
  taken : input.taken = input'.taken
  errors : List.Forall₂ (SyntaxError.Alike same) input.errors.toList input'.errors.toList

end

namespace Input.Alike

variable {same : Position → Position → Prop} {input input' : Input}

theorem current (h : input.Alike same input') : Token.Alike same input.current input'.current := by
  have hahead := h.ahead
  unfold Input.current
  cases hahead' : input.ahead with
  | nil =>
    rw [hahead', List.forall₂_nil_left_iff] at hahead
    rw [hahead]
    exact ⟨rfl, h.finish⟩
  | cons token rest =>
    rw [hahead', List.forall₂_cons_left_iff] at hahead
    obtain ⟨token', rest', htoken, _, hcons⟩ := hahead
    rw [hcons]
    exact htoken

theorem lexemes (h : input.Alike same input') :
    input.ahead.map Token.lexeme = input'.ahead.map Token.lexeme := by
  have hahead := h.ahead
  generalize input.ahead = tokens, input'.ahead = tokens' at hahead ⊢
  induction hahead with
  | nil => rfl
  | cons htoken _ ih => rw [List.map_cons, List.map_cons, htoken.lexeme, ih]

theorem following (h : input.Alike same input') : input.following = input'.following := by
  unfold Input.following
  rw [← List.head?_map, ← List.head?_map, List.map_tail, List.map_tail, h.lexemes]

theorem advance (h : input.Alike same input') : input.advance.Alike same input'.advance := by
  have hahead := h.ahead
  unfold Input.advance
  cases hahead' : input.ahead with
  | nil =>
    rw [hahead', List.forall₂_nil_left_iff] at hahead
    rw [hahead]
    exact h
  | cons token rest =>
    rw [hahead', List.forall₂_cons_left_iff] at hahead
    obtain ⟨token', rest', _, hrest, hcons⟩ := hahead
    rw [hcons]
    exact ⟨hrest, h.finish, congrArg (· + 1) h.taken, h.errors⟩

theorem skip (n : Nat) (h : input.Alike same input') :
    (input.skip n).Alike same (input'.skip n) := by
  induction n generalizing input input' with
  | zero => exact h
  | succ n ih => exact ih h.advance

theorem report {error error' : SyntaxError} (h : input.Alike same input')
    (herror : error.Alike same error') :
    (input.report error).Alike same (input'.report error') := by
  refine ⟨h.ahead, h.finish, h.taken, ?_⟩
  simp only [Input.report, Array.toList_push]
  exact List.rel_append h.errors (.cons herror .nil)

/-- A search passes as many tokens as their lexemes say. -/
theorem skipWhile (passes : Lexeme → Bool) (h : input.Alike same input') :
    (input.skip (input.ahead.takeWhile fun token => passes token.lexeme).length).Alike same
      (input'.skip (input'.ahead.takeWhile fun token => passes token.lexeme).length) := by
  have hmap : ∀ tokens : List Token, (tokens.takeWhile fun token => passes token.lexeme).length =
      ((tokens.map Token.lexeme).takeWhile passes).length := by
    intro tokens
    rw [List.takeWhile_map, List.length_map]
    rfl
  rw [hmap, hmap, h.lexemes]
  exact h.skip _

theorem synchronize (h : input.Alike same input') :
    input.synchronize.Alike same input'.synchronize := by
  have hstopped := h.skipWhile fun lexeme => !(lexeme.isSymbol .semicolon || resumes lexeme)
  unfold Input.synchronize
  dsimp only
  rw [hstopped.current.lexeme]
  split
  · exact hstopped.advance
  · exact hstopped

theorem bracedLength {tokens tokens' : List Token}
    (h : List.Forall₂ (Token.Alike same) tokens tokens') (depth : Nat) :
    Input.bracedLength depth tokens = Input.bracedLength depth tokens' := by
  induction h generalizing depth with
  | nil => rfl
  | cons htoken _ ih => simp only [Input.bracedLength, htoken.lexeme, ih]

theorem skipBody (h : input.Alike same input') : input.skipBody.Alike same input'.skipBody := by
  have hstopped := h.skipWhile fun lexeme =>
    !(lexeme.isSymbol .leftBrace || lexeme.isKeyword .funcWord)
  unfold Input.skipBody
  dsimp only
  rw [hstopped.current.lexeme, bracedLength hstopped.ahead]
  split
  · exact hstopped.skip _
  · exact hstopped

end Input.Alike

/-! ### Steps that get on -/

namespace Reading

variable {α β : Type}

/-- The step takes tokens from the front only, and adds errors at the end. -/
def Onward (step : Reading α) : Prop :=
  ∀ input : Input, (step input).Meets (fun _ after => input.Onward after)
    (fun _ after => input.Onward after) True

theorem Onward.pure (value : α) : Onward (Pure.pure value) :=
  fun input => .refl input

theorem Onward.gets (view : Input → α) : Onward (Action.gets view) :=
  fun input => .refl input

theorem Onward.bind {first : Reading α} {second : α → Reading β} (h : first.Onward)
    (h' : ∀ value, (second value).Onward) : Onward (first >>= second) := by
  intro input
  rw [Action.meets_bind]
  refine (h input).imp ?_ (fun _ _ => id) id
  intro value middle hfirst
  exact (h' value middle).imp (fun _ _ => hfirst.trans) (fun _ _ => hfirst.trans) id

theorem Onward.recover {step : Reading α} {handler : SyntaxError → Reading α} (h : step.Onward)
    (h' : ∀ error, (handler error).Onward) : Onward (Action.recover step handler) := by
  intro input
  rw [Action.meets_recover]
  refine (h input).imp (fun _ _ => id) ?_ id
  intro error middle hfirst
  exact (h' error middle).imp (fun _ _ => hfirst.trans) (fun _ _ => hfirst.trans) id

theorem Onward.ite {condition : Prop} [Decidable condition] {yes no : Reading α}
    (hyes : yes.Onward) (hno : no.Onward) : Onward (if condition then yes else no) := by
  split <;> assumption

/-- From this input, the step takes two tokens if it succeeds, and one even if it fails. -/
def Engages (input : Input) (step : Reading α) : Prop :=
  (step input).Meets (fun _ after => after.ahead.length + 2 ≤ input.ahead.length)
    (fun _ after => after.ahead.length + 1 ≤ input.ahead.length) True

theorem Engages.bind {input : Input} {first : Reading α} {second : α → Reading β}
    (h : first.Engages input) (h' : ∀ value, (second value).Onward) :
    Engages input (first >>= second) := by
  unfold Engages
  rw [Action.meets_bind]
  refine Outcome.Meets.imp h ?_ (fun _ _ => id) id
  intro value middle hfirst
  refine (h' value middle).imp ?_ ?_ id
  · intro _ after hlater
    have hshorter := hlater.suffix.length_le
    omega
  · intro _ after hlater
    have hshorter := hlater.suffix.length_le
    omega

end Reading

/-! ### Kinship -/

/-- How the tokens that two runs read are akin. If they are `fixed`, they are the same ones,
and something else may be around them in each run. If not, then they have the same lexemes at
positions that may stand for each other, and no tokens follow them. -/
structure Kinship where
  same : Position → Position → Prop
  around : Surroundings
  around' : Surroundings
  fixed : Prop
  apart : fixed ∨ (around.later = [] ∧ around'.later = [])

/-- The same tokens in two places. -/
def Kinship.moved (around around' : Surroundings) : Kinship where
  same := Eq
  around := around
  around' := around'
  fixed := True
  apart := .inl trivial

/-- Tokens with the same lexemes, and nothing around them. -/
def Kinship.restyled (same : Position → Position → Prop) : Kinship where
  same := same
  around := .nothing
  around' := .nothing
  fixed := False
  apart := .inr ⟨rfl, rfl⟩

namespace Kinship

variable {α β : Type} {kin : Kinship}

/-- The values are made from tokens that are akin: if these are the same ones then so are the
values, and otherwise the values are alike. -/
structure Pair (kin : Kinship) (alike : α → α → Prop) (value value' : α) : Prop where
  eq : kin.fixed → value = value'
  alike : ¬ kin.fixed → alike value value'

/-- The inputs are akin, apart from what is around them. -/
abbrev Inputs (kin : Kinship) : Input → Input → Prop :=
  kin.Pair (Input.Alike kin.same)

/-- The first run has not come to the tokens around its own. -/
abbrev Inside (kin : Kinship) (after : Input) : Prop :=
  kin.around.Inside kin.around' after

namespace Pair

variable {alike : α → α → Prop} {alike' : β → β → Prop} {value value' : α} {own own' : Input}

theorem refl (hfixed : kin.fixed) (value : α) : kin.Pair alike value value :=
  ⟨fun _ => rfl, fun hfree => (hfree hfixed).elim⟩

theorem rfl {value : α} : kin.Pair (· = ·) value value :=
  ⟨fun _ => Eq.refl value, fun _ => Eq.refl value⟩

theorem same (h : kin.Pair (· = ·) value value') : value = value' :=
  (Classical.em kin.fixed).elim h.eq h.alike

theorem map (make : α → β) (h : kin.Pair alike value value')
    (hmake : alike value value' → alike' (make value) (make value')) :
    kin.Pair alike' (make value) (make value') :=
  ⟨fun hfixed => by rw [h.eq hfixed], fun hfree => hmake (h.alike hfree)⟩

/-- The inputs have the same lexemes ahead. -/
theorem lexemes (h : kin.Inputs own own') : own.lexemes = own'.lexemes :=
  Pair.same (h.map Input.lexemes Input.Alike.lexemes)

theorem length (h : kin.Inputs own own') : own.ahead.length = own'.ahead.length := by
  have hlength := congrArg List.length h.lexemes
  rwa [Input.lexemes, Input.lexemes, List.length_map, List.length_map] at hlength

theorem taken (h : kin.Inputs own own') : own.taken = own'.taken :=
  Pair.same (h.map Input.taken Input.Alike.taken)

theorem current (h : kin.Inputs own own') :
    kin.Pair (Token.Alike kin.same) own.current own'.current :=
  h.map Input.current Input.Alike.current

/-- Where a step looks, its own tokens come first in both runs. -/
theorem spare (h : kin.Inputs own own') (hinside : kin.Inside (own.within kin.around)) :
    kin.around.Spare own ∧ kin.around'.Spare own' := by
  obtain ⟨hspare, hspare'⟩ := Input.spare_of_inside hinside
  refine ⟨hspare, hspare'.imp_right fun hne hnil => hne ?_⟩
  rw [← List.length_eq_zero_iff, h.length, hnil, List.length_nil]

theorem advance (h : kin.Inputs own own') : kin.Inputs own.advance own'.advance :=
  h.map Input.advance Input.Alike.advance

theorem synchronize (h : kin.Inputs own own') : kin.Inputs own.synchronize own'.synchronize :=
  h.map Input.synchronize Input.Alike.synchronize

/-- The error that is recorded or raised at the current token. -/
theorem fault (fault : Lexeme → SyntaxFault) (h : kin.Inputs own own') :
    kin.Pair (SyntaxError.Alike kin.same) ⟨fault own.current.lexeme, own.current.position⟩
      ⟨fault own'.current.lexeme, own'.current.position⟩ :=
  h.current.map (fun token => SyntaxError.mk (fault token.lexeme) token.position)
    fun halike => ⟨congrArg fault halike.lexeme, halike.position⟩

theorem report {error error' : SyntaxError} (h : kin.Inputs own own')
    (herror : kin.Pair (SyntaxError.Alike kin.same) error error') :
    kin.Inputs (own.report error) (own'.report error') :=
  ⟨fun hfixed => by rw [h.eq hfixed, herror.eq hfixed],
    fun hfree => (h.alike hfree).report (herror.alike hfree)⟩

end Pair

/-! ### Steps over tokens that are akin -/

/-- If the first step, within its surroundings, has not come to where other tokens follow,
then the second one ends in the same way, with a value or an error that is akin. -/
def Agrees (kin : Kinship) (alike : α → α → Prop) (own own' : Input) (step step' : Reading α) :
    Prop :=
  (step (own.within kin.around)).Meets
    (fun value after => kin.Inside after → ∃ value' left left',
      after = left.within kin.around ∧ kin.Pair alike value value' ∧ kin.Inputs left left' ∧
        step' (own'.within kin.around') = .done value' (left'.within kin.around'))
    (fun error after => kin.Inside after → ∃ error' left left',
      after = left.within kin.around ∧ kin.Pair (SyntaxError.Alike kin.same) error error' ∧
        kin.Inputs left left' ∧
        step' (own'.within kin.around') = .failed error' (left'.within kin.around'))
    True

/-- From inputs that are akin, the steps come to values and inputs that are akin again. Where
other tokens may follow, the first step does not come back from them. -/
structure Keeps (kin : Kinship) (alike : α → α → Prop) (step step' : Reading α) : Prop where
  onward : kin.fixed → step.Onward
  agrees : ∀ {own own'}, kin.Inputs own own' → kin.Agrees alike own own' step step'

namespace Agrees

variable {alike : α → α → Prop} {alike' : β → β → Prop} {own own' : Input}

theorem bind {first first' : Reading α} {second second' : α → Reading β}
    (h : kin.Agrees alike own own' first first')
    (honward : kin.fixed → ∀ value, (second value).Onward)
    (h' : ∀ value value' left left', kin.Pair alike value value' → kin.Inputs left left' →
      kin.Agrees alike' left left' (second value) (second' value')) :
    kin.Agrees alike' own own' (first >>= second) (first' >>= second') := by
  unfold Agrees at h
  unfold Agrees
  rw [Action.meets_bind]
  refine h.imp ?_ ?_ id
  · intro value middle hsame
    by_cases hinside : kin.Inside middle
    · obtain ⟨value', left, left', rfl, hvalue, hleft, hdone⟩ := hsame hinside
      have hbind' : (first' >>= second') (own'.within kin.around') =
          second' value' (left'.within kin.around') := by
        change Action.bind first' second' _ = _
        rw [Action.bind, hdone]
      rw [hbind']
      exact h' value value' left left' hvalue hleft
    · -- The first step has come too far already, and the second one does not come back.
      have hfixed := kin.apart.resolve_right fun hnone => hinside (.inl hnone)
      refine (honward hfixed value middle).imp ?_ ?_ id
      · exact fun _ after hlater hback => (hinside (hlater.inside hback)).elim
      · exact fun _ after hlater hback => (hinside (hlater.inside hback)).elim
  · intro error after hsame hinside
    obtain ⟨error', left, left', hleft, herror, hinputs, hfailed⟩ := hsame hinside
    refine ⟨error', left, left', hleft, herror, hinputs, ?_⟩
    change Action.bind first' second' _ = _
    rw [Action.bind, hfailed]

theorem recover {step step' : Reading α} {handler handler' : SyntaxError → Reading α}
    (h : kin.Agrees alike own own' step step')
    (honward : kin.fixed → ∀ error, (handler error).Onward)
    (h' : ∀ error error' left left', kin.Pair (SyntaxError.Alike kin.same) error error' →
      kin.Inputs left left' → kin.Agrees alike left left' (handler error) (handler' error')) :
    kin.Agrees alike own own' (Action.recover step handler) (Action.recover step' handler') := by
  unfold Agrees at h
  unfold Agrees
  rw [Action.meets_recover]
  refine h.imp ?_ ?_ id
  · intro value after hsame hinside
    obtain ⟨value', left, left', hleft, hvalue, hinputs, hdone⟩ := hsame hinside
    exact ⟨value', left, left', hleft, hvalue, hinputs, by rw [Action.recover, hdone]⟩
  · intro error middle hsame
    by_cases hinside : kin.Inside middle
    · obtain ⟨error', left, left', rfl, herror, hleft, hfailed⟩ := hsame hinside
      have hrecover' : Action.recover step' handler' (own'.within kin.around') =
          handler' error' (left'.within kin.around') := by
        rw [Action.recover, hfailed]
      rw [hrecover']
      exact h' error error' left left' herror hleft
    · have hfixed := kin.apart.resolve_right fun hnone => hinside (.inl hnone)
      refine (honward hfixed error middle).imp ?_ ?_ id
      · exact fun _ after hlater hback => (hinside (hlater.inside hback)).elim
      · exact fun _ after hlater hback => (hinside (hlater.inside hback)).elim

/-- What follows a look at the state, unless it changes nothing that the step has looked at. -/
theorem gets {view view' : Input → β} {next next' : β → Reading α} (hnext : ∀ value,
      kin.fixed → (next value).Onward)
    (h : kin.Inside (own.within kin.around) →
      view' (own'.within kin.around') = view (own.within kin.around) ∧
        kin.Agrees alike own own' (next (view (own.within kin.around)))
          (next' (view (own.within kin.around)))) :
    kin.Agrees alike own own' (Action.gets view >>= next) (Action.gets view' >>= next') := by
  by_cases hinside : kin.Inside (own.within kin.around)
  · obtain ⟨hview, hagrees⟩ := h hinside
    unfold Agrees
    have hbind' : (Action.gets view' >>= next') (own'.within kin.around') =
        next' (view (own.within kin.around)) (own'.within kin.around') := by
      rw [← hview]
      exact Eq.refl _
    rw [hbind']
    exact hagrees
  · have hfixed := kin.apart.resolve_right fun hnone => hinside (.inl hnone)
    refine (hnext _ hfixed (own.within kin.around)).imp ?_ ?_ id
    · exact fun _ after hlater hback => (hinside (hlater.inside hback)).elim
    · exact fun _ after hlater hback => (hinside (hlater.inside hback)).elim

end Agrees

namespace Keeps

variable {alike : α → α → Prop} {alike' : β → β → Prop}

theorem exhausted {step : Reading α} : kin.Keeps alike Action.exhausted step :=
  ⟨fun _ _ => trivial, fun _ => trivial⟩

theorem pure {value value' : α} (h : kin.Pair alike value value') :
    kin.Keeps alike (Pure.pure value) (Pure.pure value') :=
  ⟨fun _ => .pure value, fun hown _ => ⟨value', _, _, Eq.refl _, h, hown, Eq.refl _⟩⟩

theorem bind {first first' : Reading α} {second second' : α → Reading β}
    (h : kin.Keeps alike first first')
    (h' : ∀ value value', kin.Pair alike value value' →
      kin.Keeps alike' (second value) (second' value')) :
    kin.Keeps alike' (first >>= second) (first' >>= second') := by
  have honward : kin.fixed → ∀ value, (second value).Onward :=
    fun hfixed value => (h' value value (.refl hfixed value)).onward hfixed
  exact ⟨fun hfixed => (h.onward hfixed).bind (honward hfixed),
    fun hown => .bind (h.agrees hown) honward
      fun value value' _ _ hvalue hleft => (h' value value' hvalue).agrees hleft⟩

/-- What follows a step that yields the same value in both runs. -/
theorem andThen {first first' : Reading α} {second second' : α → Reading β}
    (h : kin.Keeps (· = ·) first first')
    (h' : ∀ value, kin.Keeps alike' (second value) (second' value)) :
    kin.Keeps alike' (first >>= second) (first' >>= second') :=
  .bind h fun value _ hvalue => hvalue.same ▸ h' value

theorem recover {step step' : Reading α} {handler handler' : SyntaxError → Reading α}
    (h : kin.Keeps alike step step')
    (h' : ∀ error error', kin.Pair (SyntaxError.Alike kin.same) error error' →
      kin.Keeps alike (handler error) (handler' error')) :
    kin.Keeps alike (Action.recover step handler) (Action.recover step' handler') := by
  have honward : kin.fixed → ∀ error, (handler error).Onward :=
    fun hfixed error => (h' error error (.refl hfixed error)).onward hfixed
  exact ⟨fun hfixed => (h.onward hfixed).recover (honward hfixed),
    fun hown => .recover (h.agrees hown) honward
      fun error error' _ _ herror hleft => (h' error error' herror).agrees hleft⟩

theorem ite {condition : Prop} [Decidable condition] {yes yes' no no' : Reading α}
    (hyes : kin.Keeps alike yes yes') (hno : kin.Keeps alike no no') :
    kin.Keeps alike (if condition then yes else no) (if condition then yes' else no') := by
  split <;> assumption

theorem gets {view : Input → α}
    (h : ∀ {own own'}, kin.Inputs own own' → kin.around.Spare own → kin.around'.Spare own' →
      kin.Pair alike (view (own.within kin.around)) (view (own'.within kin.around'))) :
    kin.Keeps alike (Action.gets view) (Action.gets view) := by
  refine ⟨fun _ => .gets view, fun {own own'} hown hinside => ?_⟩
  obtain ⟨hspare, hspare'⟩ := hown.spare hinside
  exact ⟨_, own, own', Eq.refl _, h hown hspare hspare', hown, Eq.refl _⟩

theorem source :
    kin.Keeps (fun _ _ => True) (Action.gets Input.source) (Action.gets Input.source) :=
  .gets fun hown _ _ => hown.map Input.source fun _ => trivial

theorem update {change : Input → Input} (honward : ∀ input : Input, input.Onward (change input))
    (h : ∀ {own own'}, kin.Inputs own own' → kin.Inside (change (own.within kin.around)) →
      ∃ left left', change (own.within kin.around) = left.within kin.around ∧
        kin.Inputs left left' ∧ change (own'.within kin.around') = left'.within kin.around') :
    kin.Keeps (· = ·) (Action.update change) (Action.update change) := by
  refine ⟨fun _ => honward, fun hown hinside => ?_⟩
  obtain ⟨left, left', hleft, hinputs, hleft'⟩ := h hown hinside
  exact ⟨(), left, left', hleft, .rfl, hinputs, congrArg (Outcome.done ()) hleft'⟩

/-! #### Single tokens -/

theorem token {view : Token → α} (h : ∀ {token token'},
      kin.Pair (Token.Alike kin.same) token token' → kin.Pair alike (view token) (view token')) :
    kin.Keeps alike (Action.gets fun input => view input.current)
      (Action.gets fun input => view input.current) := by
  refine .gets fun hown hspare hspare' => ?_
  rw [Input.within_current hspare, Input.within_current hspare']
  exact h hown.current

theorem lexeme : kin.Keeps (· = ·) Reading.lexeme Reading.lexeme :=
  .token fun h => h.map Token.lexeme Token.Alike.lexeme

theorem position : kin.Keeps kin.same Reading.position Reading.position :=
  .token fun h => h.map Token.position Token.Alike.position

theorem atSymbol (sign : Symbol) :
    kin.Keeps (· = ·) (Reading.atSymbol sign) (Reading.atSymbol sign) :=
  .token fun h => h.map (fun token => token.lexeme.isSymbol sign) fun halike => by
    rw [halike.lexeme]

theorem atKeyword (word : Keyword) :
    kin.Keeps (· = ·) (Reading.atKeyword word) (Reading.atKeyword word) :=
  .token fun h => h.map (fun token => token.lexeme.isKeyword word) fun halike => by
    rw [halike.lexeme]

theorem advance : kin.Keeps (· = ·) Reading.advance Reading.advance := by
  refine .update .advance fun hown hinside => ?_
  obtain ⟨hspare, hspare'⟩ := hown.spare ((Input.Onward.advance _).inside hinside)
  exact ⟨_, _, Input.within_advance hspare, hown.advance, Input.within_advance hspare'⟩

theorem report (fault : Lexeme → SyntaxFault) :
    kin.Keeps (· = ·) (Reading.report fault) (Reading.report fault) := by
  refine .update (fun _ => .report _ _) fun hown hinside => ?_
  obtain ⟨hspare, hspare'⟩ := hown.spare hinside
  refine ⟨_, _, ?_, hown.report (hown.fault fault), ?_⟩
  · rw [Input.within_current hspare, Input.within_report]
  · rw [Input.within_current hspare', Input.within_report]

theorem reject (fault : Lexeme → SyntaxFault) :
    kin.Keeps alike (Reading.reject fault) (Reading.reject fault) := by
  refine ⟨fun _ input => .refl input, fun {own own'} hown hinside => ?_⟩
  obtain ⟨hspare, hspare'⟩ := hown.spare hinside
  have herror := hown.fault fault
  rw [← Input.within_current hspare, ← Input.within_current hspare'] at herror
  exact ⟨_, own, own', Eq.refl _, herror, hown, Eq.refl _⟩

theorem synchronize : kin.Keeps (· = ·) (Action.update Input.synchronize)
    (Action.update Input.synchronize) := by
  refine .update .synchronize fun {own own'} hown hinside => ?_
  have hspare : kin.around.Spare own.synchronize ∧ kin.around'.Spare own'.synchronize := by
    by_cases hnil : own.synchronize.ahead = []
    · obtain ⟨hlater, hlater'⟩ | hlonger := hinside
      · exact ⟨.inl hlater, .inl hlater'⟩
      · have hpast : (own.within kin.around).synchronize.ahead <:+ kin.around.later :=
          Input.synchronize_past hnil
        have hshorter := hpast.length_le
        omega
    · refine ⟨.inr hnil, .inr fun hnil' => hnil ?_⟩
      rw [← List.length_eq_zero_iff, hown.synchronize.length, hnil', List.length_nil]
  exact ⟨_, _, Input.within_synchronize hspare.1, hown.synchronize,
    Input.within_synchronize hspare.2⟩

theorem absorb (fault : LexicalFault) :
    kin.Keeps (· = ·) (Reading.absorb fault) (Reading.absorb fault) :=
  .andThen (.report _) fun _ => .advance

theorem missing (fault : Lexeme → SyntaxFault) :
    kin.Keeps (· = ·) (Reading.missing fault) (Reading.missing fault) := by
  refine .andThen .lexeme fun found => ?_
  cases found with
  | error lexical => exact .absorb lexical
  | _ => exact .report fault

theorem expectSymbol (sign : Symbol) :
    kin.Keeps (· = ·) (Reading.expectSymbol sign) (Reading.expectSymbol sign) :=
  .andThen (.atSymbol sign) fun _ => .ite .advance (.missing _)

theorem expectKeyword (word : Keyword) :
    kin.Keeps (· = ·) (Reading.expectKeyword word) (Reading.expectKeyword word) :=
  .andThen (.atKeyword word) fun _ => .ite .advance (.missing _)

theorem expectName (role : NameRole) :
    kin.Keeps (· = ·) (Reading.expectName role) (Reading.expectName role) := by
  refine .andThen .lexeme fun found => ?_
  cases found with
  | identifier name => exact .andThen .advance fun _ => .pure .rfl
  | _ => exact .reject _

/-- An error that is recorded in some cases only, and what follows in all of them. -/
theorem reportIf (closed : Bool) (fault : Lexeme → SyntaxFault) {next next' : Unit → Reading α}
    (h : ∀ value, kin.Keeps alike (next value) (next' value)) :
    kin.Keeps alike (if closed = true then Reading.report fault >>= next else next ())
      (if closed = true then Reading.report fault >>= next' else next' ()) :=
  .ite (.andThen (.report _) h) (h ())

end Keeps

/-- As `Keeps`, where the current lexeme of the first run is known. -/
structure KeepsAt (kin : Kinship) (alike : α → α → Prop) (found : Lexeme)
    (step step' : Reading α) : Prop where
  onward : kin.fixed → step.Onward
  agrees : ∀ {own own'}, kin.Inputs own own' → (own.within kin.around).current.lexeme = found →
    kin.Agrees alike own own' step step'

theorem KeepsAt.at {alike : α → α → Prop} {found : Lexeme} {step step' : Reading α}
    (h : kin.Keeps alike step step') : kin.KeepsAt alike found step step' :=
  ⟨h.onward, fun hown _ => h.agrees hown⟩

/-- What follows a look at the current token. -/
theorem Keeps.look {alike : α → α → Prop} {next next' : Lexeme → Reading α}
    (h : ∀ found, kin.KeepsAt alike found (next found) (next' found)) :
    kin.Keeps alike (Reading.lexeme >>= next) (Reading.lexeme >>= next') := by
  refine ⟨fun hfixed => .bind (.gets _) fun found => (h found).onward hfixed,
    fun {own own'} hown => .gets (fun found => (h found).onward) fun hinside =>
      ⟨?_, (h _).agrees hown rfl⟩⟩
  obtain ⟨hspare, hspare'⟩ := hown.spare hinside
  rw [Input.within_current hspare, Input.within_current hspare']
  exact (Pair.same (hown.current.map Token.lexeme Token.Alike.lexeme)).symm

/-- What follows a look at one more token, if the current one is taken in any case. -/
theorem Agrees.following {alike : α → α → Prop} {own own' : Input}
    (hown : kin.Inputs own own') {next next' : Lexeme → Reading α}
    (hnext : ∀ found, kin.Keeps alike (next found) (next' found))
    (htakes : ∀ found, (next found).Engages (own.within kin.around)) :
    kin.Agrees alike own own' (Action.gets Input.following >>= next)
      (Action.gets Input.following >>= next') := by
  have hsame : own'.following = own.following :=
    (Pair.same (hown.map Input.following Input.Alike.following)).symm
  have hall := fun found hfixed => (hnext found).onward hfixed
  by_cases hnone : kin.around.later = [] ∧ kin.around'.later = []
  · refine .gets hall fun _ => ⟨?_, (hnext _).agrees hown⟩
    simpa [Input.within, Input.following, hnone] using hsame
  · obtain rfl := hown.eq (kin.apart.resolve_right hnone)
    match hahead : own.ahead with
    | first :: second :: rest =>
      refine .gets hall fun _ => ⟨?_, (hnext _).agrees hown⟩
      simp [Input.within, Input.following, hahead]
    | [] | [_] =>
      -- Nothing is asked once the only token of its own is taken.
      have hlength : (own.within kin.around).ahead.length ≤ kin.around.later.length + 1 := by
        simp [Input.within, hahead]
      refine Outcome.Meets.imp (htakes (own.within kin.around).following) ?_ ?_ fun _ => trivial
      · intro _ after hshorter hinside
        have hlonger := hinside.resolve_left hnone
        omega
      · intro _ after hshorter hinside
        have hlonger := hinside.resolve_left hnone
        omega

end Kinship

end Betty
