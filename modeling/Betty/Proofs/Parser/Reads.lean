import Betty.Program.Grammar
import Betty.Proofs.Outcome
import Betty.Proofs.Parser.Braces
import Betty.Proofs.Program.Shape

/-!
# The specification of a rule of the grammar

One statement says what a rule does, whatever is ahead:

* it gets on by moves of the parser, and takes at least so many tokens if it succeeds;
* it fails only with an error at the current token, and runs out of fuel only if there is too
  little for the tokens ahead;
* it builds only nodes of the shapes that programs have, error nodes only for errors that it
  records, and functions only at the places of tokens that it takes;
* in a mild text it takes no more closing braces than opening ones.

Everything that is known of the programs and errors of texts derives from this. Below, it is
shown of the rules that do not use others: those that take a single token, and the heads of
functions.

## Main definitions

* `Outlook`: what is known of a text before it is read.
* `Product`: what is known of the values that a rule yields.
* `Reads`: the specification of a rule.
* `RoundReads`: the specification of a round of a loop.
-/

namespace Betty.Grammar

open Reading

/-- The check that every error node stands for a recorded error. -/
def recordedNodes (recorded : SyntaxError → Prop) : NodeCheck where
  expr
    | .error position fault => recorded ⟨fault, position⟩
    | _ => True
  stmt
    | .error position fault => recorded ⟨fault, position⟩
    | _ => True

/-- The check that a node is one that the parser builds if just the given errors are
recorded. -/
def builtNodes (recorded : SyntaxError → Prop) : NodeCheck where
  expr
    | .error position fault => recorded ⟨fault, position⟩
    | expr => NodeCheck.shaped.expr expr
  stmt
    | .error position fault => recorded ⟨fault, position⟩
    | statement => NodeCheck.shaped.stmt statement

/-! ### What is known before reading -/

/-- What is known of a text before it is read: which errors are recorded, what all nodes that
the parser then builds pass, and, if the text is mild, of which kind it is. -/
structure Outlook where
  recorded : SyntaxError → Prop
  check : NodeCheck
  passesExpr : ∀ {expr}, (builtNodes recorded).expr expr → check.expr expr
  passesStmt : ∀ {statement}, (builtNodes recorded).stmt statement → check.stmt statement
  mild : Option Bool

/-- Nothing is known of the text. -/
def Outlook.any : Outlook where
  recorded _ := True
  check := builtNodes fun _ => True
  passesExpr := id
  passesStmt := id
  mild := none

/-- The errors of a text are known, so the error nodes that it may have are. -/
def Outlook.faults (recorded : SyntaxError → Prop) : Outlook where
  recorded := recorded
  check := recordedNodes recorded
  passesExpr {expr} h := by
    cases expr with
    | error => exact h
    | _ => trivial
  passesStmt {statement} h := by
    cases statement with
    | error => exact h
    | _ => trivial
  mild := none

namespace Outlook

/-- In a mild text, the braces ahead are as the stance says. -/
def Braces (outlook : Outlook) (stance : Stance) (input : Input) : Prop :=
  ∀ controls ∈ outlook.mild, input.Closes controls stance

/-- A brace has been taken that is still to be closed, or it is the next one. -/
def Held (outlook : Outlook) (n : Int) (input : Input) : Prop :=
  outlook.Braces (.loose (n + 1)) input ∨ outlook.Braces ⟨n, true, true⟩ input

theorem Braces.of_none {outlook : Outlook} (hmild : outlook.mild = none) (stance : Stance)
    (input : Input) : outlook.Braces stance input := by
  intro _ hkind
  rw [hmild] at hkind
  cases hkind

theorem any_braces (stance : Stance) (input : Input) : any.Braces stance input :=
  .of_none rfl stance input

namespace Braces

variable {outlook : Outlook} {n m : Int} {opens fresh : Bool} {stance : Stance}
  {input after : Input} {found : Lexeme}

theorem weaken (h : outlook.Braces ⟨n, opens, fresh⟩ input) (hle : m ≤ n) :
    outlook.Braces (.loose m) input :=
  fun _ hkind => (h _ hkind).weaken hle

theorem loosen (h : outlook.Braces ⟨n, opens, fresh⟩ input) : outlook.Braces (.loose n) input :=
  h.weaken (Int.le_refl n)

theorem fresher (h : outlook.Braces ⟨n, opens, true⟩ input) :
    outlook.Braces ⟨n, opens, fresh⟩ input :=
  fun _ hkind => (h _ hkind).fresher

theorem stale (h : outlook.Braces ⟨n, opens, fresh⟩ input) :
    outlook.Braces ⟨n, opens, false⟩ input :=
  fun _ hkind => (h _ hkind).stale

theorem unopened (h : outlook.Braces ⟨n, opens, fresh⟩ input) :
    outlook.Braces ⟨n, false, fresh⟩ input :=
  fun _ hkind => (h _ hkind).unopened

/-- Without controls, any token may be next. -/
theorem uncontrolled (h : outlook.Braces ⟨n, opens, fresh⟩ input)
    (hmild : outlook.mild ≠ some true) : outlook.Braces ⟨n, opens, true⟩ input :=
  fun _ hkind => ⟨(h _ hkind).mild, (h _ hkind).surplus, (h _ hkind).opens,
    fun _ hcontrols => absurd (hcontrols ▸ hkind) hmild⟩

theorem opened (h : outlook.Braces ⟨n, true, fresh⟩ input) :
    outlook.Braces ⟨n, true, true⟩ input :=
  fun _ hkind => (h _ hkind).opened

theorem report (h : outlook.Braces stance input) (error : SyntaxError) :
    outlook.Braces stance (input.report error) :=
  fun _ hkind => (h _ hkind).report error

theorem synchronize (h : outlook.Braces ⟨n, opens, fresh⟩ input) :
    outlook.Braces (.loose n) input.synchronize :=
  fun _ hkind => (h _ hkind).synchronize

/-- The current token is known not to be a closing brace. -/
theorem freshen (h : outlook.Braces ⟨n, opens, fresh⟩ input)
    (hbrace : input.current.lexeme.isSymbol .rightBrace = false) :
    outlook.Braces ⟨n, opens, true⟩ input :=
  fun _ hkind => ⟨(h _ hkind).mild, (h _ hkind).surplus, (h _ hkind).opens, fun _ _ => hbrace⟩

/-- Taking a token that is neither a brace nor a semicolon. -/
theorem take (h : outlook.Braces ⟨n, opens, fresh⟩ input) (hfound : input.current.lexeme = found)
    (hpart : found.endsPart = false) : outlook.Braces ⟨n, opens, true⟩ input.advance :=
  fun _ hkind => (h _ hkind).advance_fresh hfound hpart

/-- Taking a token that is no closing brace in a mild text. -/
theorem takeAny (h : outlook.Braces ⟨n, opens, fresh⟩ input)
    (hbrace : outlook.mild.isSome → input.current.lexeme.isSymbol .rightBrace = false) :
    outlook.Braces (.loose n) input.advance :=
  fun _ hkind => (h _ hkind).advance_any rfl (hbrace (Option.isSome_iff_exists.2 ⟨_, hkind⟩))

theorem takeOpen (h : outlook.Braces ⟨n, opens, fresh⟩ input)
    (hfound : input.current.lexeme = .symbol .leftBrace) :
    outlook.Braces (.loose (n + 1)) input.advance :=
  fun _ hkind => (h _ hkind).advance_open hfound

theorem takeClose (h : outlook.Braces ⟨n + 1, opens, fresh⟩ input)
    (hfound : input.current.lexeme = .symbol .rightBrace) :
    outlook.Braces (.loose n) input.advance :=
  fun _ hkind => (h _ hkind).advance_close hfound

theorem takeSwitch (h : outlook.Braces ⟨n, opens, fresh⟩ input)
    (hfound : input.current.lexeme = .keyword .switchWord) :
    outlook.Braces ⟨n, true, true⟩ input.advance :=
  fun _ hkind => (h _ hkind).advance_switch hfound

/-- Before the next opening brace nothing bars it, so there all stances hold. -/
theorem barred (h : outlook.Braces ⟨n, true, fresh⟩ input)
    (hbars : input.current.lexeme.bars = true) : outlook.Braces stance after :=
  fun _ hkind => nomatch (h _ hkind).opens_eq rfl hbars

/-- After what starts with a lexeme that bars, it does not matter if an opening brace was to
be next before. -/
theorem reopen (h : outlook.Braces ⟨n, opens, fresh⟩ input)
    (hbars : input.current.lexeme.bars = true) (hafter : outlook.Braces ⟨n, false, true⟩ after) :
    outlook.Braces ⟨n, opens, true⟩ after := by
  intro controls hkind
  rw [(h controls hkind).opens_eq rfl hbars]
  exact hafter controls hkind

/-- After a function a closing brace may be next, since there are no controls then. -/
theorem afterFunction (h : outlook.Braces ⟨n, opens, fresh⟩ input)
    (hfunc : input.current.lexeme = .keyword .funcWord) (hafter : outlook.Braces (.loose n) after) :
    outlook.Braces ⟨n, opens, true⟩ after := by
  refine h.reopen (by rw [hfunc]; rfl) fun controls hkind => ?_
  obtain rfl := (h controls hkind).uncontrolled_of_func hfunc
  exact (hafter false hkind).uncontrolled

/-- A statement that has to follow a control starts after a token that ends no part, so no
closing brace is taken for it in a mild text. -/
theorem controlled (h : outlook.Braces stance input) (hfound : input.current.lexeme = found)
    (hcontrol : found.isControl = true) (hafter : outlook.Braces ⟨n, opens, true⟩ after) :
    outlook.mild.isSome → after.current.lexeme.isSymbol .rightBrace = false := by
  intro hsome
  obtain ⟨controls, hkind⟩ := Option.isSome_iff_exists.1 hsome
  exact (hafter controls hkind).fresh rfl ((h controls hkind).controlled hfound hcontrol)

end Braces

namespace Held

variable {outlook : Outlook} {n : Int} {input : Input}

/-- Before a lexeme that bars, or that ends a block, the brace has been taken. -/
theorem taken (h : outlook.Held n input)
    (hends : input.current.lexeme.bars = true ∨ endsBlock input.current.lexeme = true) :
    outlook.Braces (.loose (n + 1)) input := by
  obtain h | h := h
  · exact h
  · obtain hbars | hends := hends
    · exact h.barred hbars
    · exact fun _ hkind => ((h _ hkind).not_endsBlock hends).elim

theorem report (h : outlook.Held n input) (error : SyntaxError) :
    outlook.Held n (input.report error) :=
  h.imp (·.report error) (·.report error)

/-- A token that ends no block is taken. -/
theorem takeStray (h : outlook.Held n input)
    (hgoes : ¬ endsBlock input.current.lexeme = true) : outlook.Held n input.advance := by
  obtain h | h := h
  · refine .inl (h.takeAny fun _ => Bool.eq_false_iff.2 fun hclosing => hgoes ?_)
    rw [endsBlock, hclosing]
    rfl
  · cases hmild : outlook.mild with
    | none => exact .inl fun _ hkind => by rw [hmild] at hkind; cases hkind
    | some controls =>
      have hone : ∀ stance, input.advance.Closes controls stance →
          outlook.Braces stance input.advance := by
        intro stance hcloses kind hkind
        rw [hmild] at hkind
        cases hkind
        exact hcloses
      exact (h controls hmild).advance_held.imp (hone _) (hone _)

end Held

end Outlook

/-! ### What is known of values -/

/-- What is known of the values of a type: the places where functions are defined in one, and
whether it is as it should be. -/
structure Product (α : Type) where
  places : α → List Position
  sound : α → Prop

namespace Product

/-- Nothing is built. -/
def nothing {α : Type} : Product α where
  places _ := []
  sound _ := True

/-- The value is sound if something else is. -/
def under {α : Type} (known : Prop) (product : Product α) : Product α where
  places := product.places
  sound value := known → product.sound value

end Product

/-- Of patterns that have been kept, the one that is missing is the last, and there are none
if one was missing before. -/
def Kept (closed : Bool) (patterns : List (Option Expr)) : Prop :=
  wildcardLast patterns ∧ (closed → patterns = [])

/-- The patterns that a round keeps, and what the next round is told of them. -/
structure KeptRound (closed : Bool) (patterns : List (Option Expr)) (next : Option Bool) :
    Prop where
  kept : Kept closed patterns
  next : ∀ state ∈ next, closed ∨ none ∈ patterns → state = true

theorem KeptRound.nothing {closed : Bool} {next : Option Bool}
    (hnext : ∀ state ∈ next, closed = true → state = true) : KeptRound closed [] next :=
  ⟨⟨rfl, fun _ => rfl⟩, fun state hstate h =>
    hnext state hstate (h.resolve_right List.not_mem_nil)⟩

theorem KeptRound.stopped {closed : Bool} : KeptRound closed [] none := by
  refine .nothing ?_
  rintro _ ⟨⟩

theorem KeptRound.append {closed state : Bool} {patterns rest : List (Option Expr)}
    (h : KeptRound closed patterns (some state)) (hrest : Kept state rest) :
    Kept closed (patterns ++ rest) := by
  have hnext := h.next state rfl
  refine ⟨?_, fun hclosed => ?_⟩
  · have hlast := h.kept.1
    have hnone : none ∈ patterns → rest = [] := fun hmem => hrest.2 (hnext (.inr hmem))
    clear h hnext
    induction patterns with
    | nil => exact hrest.1
    | cons pattern patterns ih =>
      cases pattern with
      | none =>
        obtain rfl : patterns = [] := List.isEmpty_iff.1 hlast
        rw [hnone List.mem_cons_self]
        rfl
      | some pattern => exact ih hlast fun hmem => hnone (List.mem_cons_of_mem _ hmem)
  · rw [h.kept.2 hclosed, hrest.2 (hnext (.inl hclosed))]
    rfl

/-- What is found is kept, unless a pattern was missing before. -/
theorem keptRound_one {α : Type} (pattern : α → Option Expr) (closed : Bool) (found : α)
    {next : Option Bool} (hnext : ∀ state ∈ next, closed || (pattern found).isNone → state = true) :
    KeptRound closed ((if closed then [] else [found]).map pattern) next := by
  cases closed with
  | true => exact ⟨⟨rfl, fun _ => rfl⟩, fun state hstate _ => hnext state hstate rfl⟩
  | false =>
    refine ⟨⟨?_, fun h => nomatch h⟩, fun state hstate hnone => hnext state hstate ?_⟩
    · cases hpattern : pattern found <;> simp [wildcardLast, hpattern]
    · obtain h | h := hnone
      · cases h
      · rw [← List.mem_singleton.1 h]
        rfl

namespace Outlook

variable (outlook : Outlook)

def expr : Product Expr := ⟨Expr.declared, Expr.Everywhere outlook.check⟩

def exprs : Product (List Expr) := ⟨Expr.declaredAll, Expr.EverywhereAll outlook.check⟩

def optional : Product (Option Expr) := ⟨Expr.declaredOption, Expr.EverywhereOption outlook.check⟩

def branches : Product (List Branch) := ⟨Branch.declaredAll, Branch.EverywhereAll outlook.check⟩

/-- The arms of a switch expression, after one without a pattern has `closed` it or not. -/
def arms (closed : Bool) : Product (List Arm) where
  places := Arm.declaredAll
  sound found := Arm.EverywhereAll outlook.check found ∧ Kept closed (found.map Arm.pattern)

/-- A function with a block, and with a name as it should be. -/
def function (named : Option String → Prop) : Product Declaration where
  places := Declaration.declared
  sound found := named found.name ∧ found.HasBlock ∧ found.Everywhere outlook.check

def stmt : Product Stmt := ⟨Stmt.declared, Stmt.Everywhere outlook.check⟩

def stmts : Product (List Stmt) := ⟨Stmt.declaredAll, Stmt.EverywhereAll outlook.check⟩

def clauses : Product (List Clause) := ⟨Clause.declaredAll, Clause.EverywhereAll outlook.check⟩

/-- The case with the given pattern. -/
def caseOf (pattern : Option Expr) : Product Case where
  places found := Case.declaredAll [found]
  sound found := found.pattern = pattern ∧ Case.EverywhereAll outlook.check [found]

/-- The cases of a switch, after the default has `closed` it or not. -/
def cases (closed : Bool) : Product (List Case) where
  places := Case.declaredAll
  sound found := Case.EverywhereAll outlook.check found ∧ Kept closed (found.map Case.pattern)

end Outlook

/-! ### Specifications -/

/-- Reading has come from `start` to `input`. The `places` are given, or those of tokens taken
on the way, and something is known if the errors there are among the recorded ones. -/
structure Reached (outlook : Outlook) (start : Input) (given : List Position) (input : Input)
    (places : List Position) (known : Prop) : Prop where
  leads : start.Leads input
  covers : ∃ passed, start.ahead = passed ++ input.ahead ∧
    places.Sublist (given ++ passed.map Token.position)
  known : (∀ error ∈ input.errors, outlook.recorded error) → known

/-- The specification of a rule that starts at `input`, and for which some places are `given`:
it takes at least `least` tokens and comes to an input as in `post`, its value is as the
product says, it fails only at an input as in `lost`, and runs out of fuel only if `cut`. -/
def Reads {α : Type} (outlook : Outlook) (input : Input) (least : Nat) (given : List Position)
    (product : Product α) (post lost : Input → Prop) (cut : Prop)
    (outcome : Outcome SyntaxError Input α) : Prop :=
  outcome.Meets
    (fun value after => Reached outlook input given after (product.places value)
      (product.sound value) ∧ post after ∧ after.ahead.length + least ≤ input.ahead.length)
    (fun error after => lost after ∧ input.Leads after ∧
      error.position = after.current.position)
    cut

section

variable {α : Type} {outlook : Outlook} {start input after : Input}
  {given given' places places' : List Position} {known known' : Prop}

namespace Reached

/-- No more is known than that the parser has got on. -/
theorem of_leads (h : start.Leads input) : Reached outlook start given input given True := by
  obtain ⟨passed, hpassed⟩ := h.suffix
  exact ⟨h, ⟨passed, hpassed.symm, List.sublist_append_left _ _⟩, fun _ => trivial⟩

theorem refl (outlook : Outlook) (given : List Position) (input : Input) :
    Reached outlook input given input given True :=
  .of_leads (.refl input)

theorem imp (h : Reached outlook start given input places known)
    (hplaces : places'.Sublist places) (himp : known → known') :
    Reached outlook start given input places' known' := by
  obtain ⟨passed, hpassed, hcovers⟩ := h.covers
  exact ⟨h.leads, ⟨passed, hpassed, hplaces.trans hcovers⟩, fun hr => himp (h.known hr)⟩

theorem trans (h : Reached outlook start given input places known)
    (h' : Reached outlook input places after places' known') :
    Reached outlook start given after places' (known ∧ known') := by
  obtain ⟨passed, hpassed, hcovers⟩ := h.covers
  obtain ⟨more, hmore, hcovers'⟩ := h'.covers
  refine ⟨h.leads.trans h'.leads, ⟨passed ++ more, ?_, ?_⟩, fun hr => ⟨h.known ?_, h'.known hr⟩⟩
  · rw [hpassed, hmore, List.append_assoc]
  · rw [List.map_append, ← List.append_assoc]
    exact hcovers'.trans (hcovers.append_right _)
  · intro error he
    have hmem := h'.leads.errors.subset (Array.mem_toList_iff.2 he)
    exact hr error (Array.mem_toList_iff.1 hmem)

/-- What is built from scratch may come after what there is. -/
theorem widen (h : Reached outlook start [] input places known) (given : List Position) :
    Reached outlook start given input (given ++ places) known := by
  obtain ⟨passed, hpassed, hcovers⟩ := h.covers
  exact ⟨h.leads, ⟨passed, hpassed, hcovers.append_left given⟩, h.known⟩

/-- An error at the current token is recorded from then on. -/
theorem report (h : start.Leads input) {error : SyntaxError}
    (hplace : error.position = input.current.position)
    (hafter : (input.report error).Leads after) :
    Reached outlook start given after given (outlook.recorded error) := by
  have hreached : Reached outlook start given after given True :=
    .of_leads (h.trans ((Input.Leads.report hplace).trans hafter))
  refine ⟨hreached.leads, hreached.covers, fun hr => hr error ?_⟩
  refine Array.mem_toList_iff.1 (hafter.errors.subset (Array.mem_toList_iff.2 ?_))
  simp [Input.report]

/-- After an error has been recorded, the parser may skip to where it can go on. -/
theorem synchronize (outlook : Outlook) (h : start.Leads input) {error : SyntaxError}
    (hplace : error.position = input.current.position)
    (hafter : (input.report error).Leads after) :
    Reached outlook start given after.synchronize given (outlook.recorded error) ∧
      after.synchronize.ahead.length ≤ after.ahead.length := by
  have hsync : after.Leads after.synchronize :=
    .synchronize (hafter.errors_ne (Input.report_errors_ne _ _))
  exact ⟨report h hplace (hafter.trans hsync), hsync.length_le⟩

end Reached

namespace Reads

variable {least : Nat} {product : Product α} {post post' lost lost' : Input → Prop}
  {cut cut' : Prop} {outcome : Outcome SyntaxError Input α} {done : α → Input → Prop}

/-- What follows a rule that builds on what there is. -/
theorem extend (h : Reads outlook input least given' product post lost' cut' outcome)
    (hstart : Reached outlook start given input places known) (hgiven : given'.Sublist places)
    (hlost : ∀ after, lost' after → lost after) (hcut : cut' → cut)
    (hnext : ∀ value after,
      Reached outlook start given after (product.places value) (known ∧ product.sound value) →
      post after → after.ahead.length + least ≤ input.ahead.length → done value after) :
    outcome.Meets done
      (fun error after => lost after ∧ start.Leads after ∧
        error.position = after.current.position) cut := by
  refine h.imp ?_ ?_ hcut
  · rintro value after ⟨hr, hpost, hlength⟩
    exact hnext value after ((hstart.imp hgiven id).trans hr) hpost hlength
  · rintro _ _ ⟨hl, hleads, he⟩
    exact ⟨hlost _ hl, hstart.leads.trans hleads, he⟩

/-- What follows a rule that builds something from scratch. -/
theorem step (h : Reads outlook input least [] product post lost' cut' outcome)
    (hstart : Reached outlook start given input places known)
    (hlost : ∀ after, lost' after → lost after) (hcut : cut' → cut)
    (hnext : ∀ value after, Reached outlook start given after (places ++ product.places value)
      (known ∧ product.sound value) →
      post after → after.ahead.length + least ≤ input.ahead.length → done value after) :
    outcome.Meets done
      (fun error after => lost after ∧ start.Leads after ∧
        error.position = after.current.position) cut := by
  refine h.imp ?_ ?_ hcut
  · rintro value after ⟨hr, hpost, hlength⟩
    exact hnext value after (hstart.trans (hr.widen places)) hpost hlength
  · rintro _ _ ⟨hl, hleads, he⟩
    exact ⟨hlost _ hl, hstart.leads.trans hleads, he⟩

/-- What follows a move that builds nothing. -/
theorem pass (h : Reads outlook input least [] product post (fun _ => False) False outcome)
    (hstart : Reached outlook start given input places known)
    (hnext : ∀ value after, Reached outlook start given after places known →
      post after → after.ahead.length + least ≤ input.ahead.length → done value after) :
    outcome.Meets done
      (fun error after => lost after ∧ start.Leads after ∧
        error.position = after.current.position) cut :=
  h.step hstart (fun _ => False.elim) False.elim fun value after hr =>
    hnext value after (hr.imp (List.sublist_append_left _ _) And.left)

theorem imp {least' : Nat} (h : Reads outlook input least given product post lost cut outcome)
    (hleast : least' ≤ least) (hpost : ∀ after, post after → post' after)
    (hlost : ∀ after, lost after → lost' after) (hcut : cut → cut') :
    Reads outlook input least' given product post' lost' cut' outcome := by
  refine Outcome.Meets.imp h ?_ ?_ hcut
  · rintro value _ ⟨hr, hp, hlength⟩
    exact ⟨hr, hpost _ hp, by omega⟩
  · rintro _ _ ⟨hl, hleads⟩
    exact ⟨hlost _ hl, hleads⟩

end Reads

/-- The specification of a round of a loop that starts at `input`: as that of a rule, and the
loop goes on only if the round has taken a token. -/
def RoundReads {σ : Type} (outlook : Outlook) (input : Input) (places : List α → List Position)
    (made : List α → Option σ → Prop) (again post lost : Input → Prop) (cut : Prop)
    (outcome : Outcome SyntaxError Input (List α × Option σ)) : Prop :=
  outcome.Meets
    (fun result after => Reached outlook input [] after (places result.1)
        (made result.1 result.2) ∧
      after.ahead.length ≤ input.ahead.length ∧
      match result.2 with
      | none => post after
      | some _ => again after ∧ after.ahead.length < input.ahead.length)
    (fun error after => lost after ∧ input.Leads after ∧
      error.position = after.current.position)
    cut

/-- A loop meets a specification if its rounds do. Each round that the loop goes on after
has taken a token, so the fuel that is left suffices for the rest. -/
theorem Repeats.reads_succ {σ : Type} {loop : Nat → σ → Reading (List α)}
    {round : Nat → σ → Reading (List α × Option σ)} (hrepeats : Repeats loop round)
    (product : σ → Product (List α)) {places : List α → List Position}
    {made : List α → Option σ → Prop} {state : σ}
    (hplaces : ∀ state, (product state).places = places)
    (happend : ∀ found rest, places (found ++ rest) = places found ++ places rest)
    (hlast : ∀ found, made found none → (product state).sound found)
    (hmore : ∀ found next rest, made found (some next) → (product next).sound rest →
      (product state).sound (found ++ rest))
    {again post lost : Input → Prop} {fuel rank : Nat}
    (hround : RoundReads outlook input places made again post lost
      (fuel + 1 < 16 * input.ahead.length + rank) (round fuel state input))
    (hloop : ∀ state input, again input → Reads outlook input 0 [] (product state) post lost
      (fuel < 16 * input.ahead.length + rank) (loop fuel state input)) :
    Reads outlook input 0 [] (product state) post lost (fuel + 1 < 16 * input.ahead.length + rank)
      (loop (fuel + 1) state input) := by
  rw [hrepeats fuel state]
  simp only [Reads, Action.meets_bind]
  refine Outcome.Meets.imp hround ?_ (fun _ _ h => h) id
  rintro ⟨found, next⟩ i₁ ⟨h₁, l₁, hturn⟩
  cases next with
  | none =>
    exact ⟨hplaces state ▸ h₁.imp (.refl _) (hlast found), hturn, l₁⟩
  | some next =>
    obtain ⟨hagain, hless⟩ := hturn
    simp only [Action.meets_bind]
    refine (hloop next i₁ hagain).step h₁ (fun _ => id) (by omega) fun rest i₂ h₂ hpost₂ l₂ => ?_
    have hsame : (product state).places (found ++ rest) =
        places found ++ (product next).places rest := by
      rw [hplaces, hplaces, happend]
    exact ⟨h₂.imp (hsame ▸ .refl _) fun hmade => hmore found next rest hmade.1 hmade.2, hpost₂,
      by omega⟩

/-! ### Single tokens -/

/-- To look at the current token, consider every lexeme that it may have. -/
theorem meets_lexeme {done : α → Input → Prop} {failed : SyntaxError → Input → Prop} {cut : Prop}
    (next : Lexeme → Reading α) :
    ((lexeme >>= next) input).Meets done failed cut ↔
      ∀ found, input.current.lexeme = found → (next found input).Meets done failed cut := by
  simp [lexeme]

theorem meets_position {done : α → Input → Prop} {failed : SyntaxError → Input → Prop} {cut : Prop}
    (next : Position → Reading α) :
    ((position >>= next) input).Meets done failed cut ↔
      (next input.current.position input).Meets done failed cut := by
  simp [position]

theorem ahead_ne_nil_of_plain (h : input.current.lexeme.isPlain) : input.ahead ≠ [] := by
  refine Input.ahead_ne_nil fun hend => ?_
  rw [hend] at h
  exact absurd h (by decide)

section

variable {post : Input → Prop} {n : Int} {opens fresh : Bool} {found : Lexeme}

/-- A token that has been looked at is taken, and its place with it. -/
theorem seen_reads (outlook : Outlook) (hfound : input.current.lexeme = found)
    (hplain : found.isPlain) (hpost : post input.advance) :
    Reads outlook input 1 [] ⟨fun _ => [input.current.position], fun _ => True⟩ post
      (fun _ => False) False (advance input) := by
  have hplain : input.current.lexeme.isPlain := hfound ▸ hplain
  have hahead := ahead_ne_nil_of_plain hplain
  obtain ⟨token, rest, hcons⟩ := List.exists_cons_of_ne_nil hahead
  refine ⟨⟨.move (.take hahead (.inl hplain)), ⟨[token], ?_, ?_⟩, fun _ => trivial⟩, hpost,
    Nat.le_of_eq (Input.advance_length hahead)⟩
  · rw [Input.advance_ahead, hcons]
    rfl
  · rw [Input.current_of_ahead hcons]
    exact .refl _

/-- A token that is neither a brace nor a semicolon is taken. -/
theorem take_reads (hfound : input.current.lexeme = found)
    (hinner : (found.isPlain && !found.endsPart) = true)
    (h : outlook.Braces ⟨n, opens, fresh⟩ input) :
    Reads outlook input 1 [] ⟨fun _ => [input.current.position], fun _ => True⟩
      (outlook.Braces ⟨n, opens, true⟩) (fun _ => False) False (advance input) := by
  rw [Bool.and_eq_true, Bool.not_eq_true'] at hinner
  exact seen_reads outlook hfound hinner.1 (h.take hfound hinner.2)

/-- An error that is recorded in some cases only, and what follows in all of them. -/
theorem reportIf_pass (outlook : Outlook) {β : Type} {closed : Bool} {fault : Lexeme → SyntaxFault}
    {next : Unit → Reading β} {done : β → Input → Prop} {lost : Input → Prop} {cut : Prop}
    (hreport : ∀ error, post input → post (input.report error)) (hpost : post input)
    (hnext : ∀ after, Reached outlook input [] after [] True → post after →
      after.ahead = input.ahead → after.current = input.current →
      (next () after).Meets done
        (fun error after => lost after ∧ input.Leads after ∧
          error.position = after.current.position) cut) :
    ((if closed = true then report fault >>= next else next ()) input).Meets done
      (fun error after => lost after ∧ input.Leads after ∧
        error.position = after.current.position) cut := by
  split
  · exact hnext (input.report _) (.of_leads (.report rfl)) (hreport _ hpost) rfl rfl
  · exact hnext input (.refl outlook [] input) hpost rfl rfl

/-- A token that does not belong here, and what follows it. -/
theorem stray_pass (outlook : Outlook) {β : Type} {fault : Lexeme → SyntaxFault} {next : Reading β}
    {done : β → Input → Prop} {lost : Input → Prop} {cut : Prop} (hahead : input.ahead ≠ [])
    (hnext : ∀ error after, after = (input.report error).advance →
      Reached outlook input [] after [] True → after.ahead.length + 1 ≤ input.ahead.length →
      (next after).Meets done
        (fun error after => lost after ∧ input.Leads after ∧
          error.position = after.current.position) cut) :
    ((do report fault; advance; next : Reading β) input).Meets done
      (fun error after => lost after ∧ input.Leads after ∧
        error.position = after.current.position) cut := by
  have hreport : input.Leads (input.report ⟨fault input.current.lexeme, input.current.position⟩) :=
    .report rfl
  refine hnext _ _ rfl (.of_leads (hreport.trans (.advance (Input.report_errors_ne _ _)))) ?_
  exact Nat.le_of_eq (Input.advance_length hahead)

/-- A malformed token is taken after its fault has been recorded. -/
theorem absorb_reads {fault : LexicalFault} (hfound : input.current.lexeme = .error fault)
    (h : outlook.Braces ⟨n, opens, fresh⟩ input) :
    Reads outlook input 1 []
      ⟨fun _ => [], fun _ => outlook.recorded ⟨.lexical fault, input.current.position⟩⟩
      (outlook.Braces ⟨n, opens, true⟩) (fun _ => False) False (absorb fault input) := by
  have hahead : input.ahead ≠ [] := Input.ahead_ne_nil (by simp [hfound])
  exact ⟨.report (.refl input) rfl (.advance (Input.report_errors_ne _ _)),
    (h.report _).take hfound rfl, Nat.le_of_eq (Input.advance_length hahead)⟩

theorem missing_reads (fault : Lexeme → SyntaxFault) (h : outlook.Braces ⟨n, opens, fresh⟩ input) :
    Reads outlook input 0 [] .nothing (outlook.Braces ⟨n, opens, fresh⟩) (fun _ => False) False
      (missing fault input) := by
  unfold missing Reads
  refine (meets_lexeme _).2 fun found hfound => ?_
  split
  · refine (absorb_reads hfound h).pass (.refl outlook [] input) fun _ _ hr hb l => ?_
    exact ⟨hr, hb.fresher, by omega⟩
  · exact ⟨.of_leads (.report rfl), h.report _, Nat.le_refl _⟩

/-- The given sign is taken, or recorded to be missing. -/
theorem expect_reads {sign : Symbol} (h : outlook.Braces ⟨n, opens, fresh⟩ input)
    (htake : input.current.lexeme = .symbol sign → post input.advance)
    (hmissing : ∀ after, outlook.Braces ⟨n, opens, fresh⟩ after → post after) :
    Reads outlook input 0 [] .nothing post (fun _ => False) False (expectSymbol sign input) := by
  unfold expectSymbol Reads
  simp only [atSymbol, Action.meets_bind, Action.meets_gets]
  split
  · next hsign =>
    have hfound := Lexeme.isSymbol_iff.1 hsign
    refine (seen_reads outlook hfound rfl (htake hfound)).pass (.refl outlook [] input)
      fun _ _ hr hb l => ?_
    exact ⟨hr, hb, by omega⟩
  · exact (missing_reads _ h).imp (Nat.le_refl _) hmissing (fun _ => id) id

/-- A sign that is neither a brace nor a semicolon. -/
theorem expectSymbol_reads {sign : Symbol} (hpart : (Lexeme.symbol sign).endsPart = false)
    (h : outlook.Braces ⟨n, opens, fresh⟩ input) :
    Reads outlook input 0 [] .nothing (outlook.Braces ⟨n, opens, fresh⟩) (fun _ => False) False
      (expectSymbol sign input) :=
  expect_reads h (fun hfound => (h.take hfound hpart).fresher) fun _ => id

theorem expectSemicolon_reads (h : outlook.Braces ⟨n, opens, fresh⟩ input) :
    Reads outlook input 0 [] .nothing (outlook.Braces (.loose n)) (fun _ => False) False
      (expectSymbol .semicolon input) :=
  expect_reads h (fun hfound => h.takeAny fun _ => by rw [hfound]; rfl)
    fun _ => Outlook.Braces.loosen

theorem expectOpen_reads (h : outlook.Braces ⟨n, true, fresh⟩ input) :
    Reads outlook input 0 [] .nothing (outlook.Held n) (fun _ => False) False
      (expectSymbol .leftBrace input) :=
  expect_reads h (fun hfound => .inl (h.takeOpen hfound)) fun _ hafter => .inr hafter.opened

theorem expectClose_reads (h : outlook.Braces (.loose (n + 1)) input) :
    Reads outlook input 0 [] .nothing (outlook.Braces (.loose n)) (fun _ => False) False
      (expectSymbol .rightBrace input) :=
  expect_reads h h.takeClose fun _ hafter => hafter.weaken (by omega)

theorem expectKeyword_reads (word : Keyword) (h : outlook.Braces ⟨n, opens, fresh⟩ input) :
    Reads outlook input 0 [] .nothing (outlook.Braces ⟨n, opens, fresh⟩) (fun _ => False) False
      (expectKeyword word input) := by
  unfold expectKeyword Reads
  simp only [atKeyword, Action.meets_bind, Action.meets_gets]
  split
  · next hword =>
    refine (take_reads (Lexeme.isKeyword_iff.1 hword) rfl h).pass (.refl outlook [] input)
      fun _ _ hr hb l => ?_
    exact ⟨hr, hb.fresher, by omega⟩
  · exact missing_reads _ h

theorem reject_reads {given : List Position} {product : Product α} {least : Nat}
    {post lost : Input → Prop} {cut : Prop} {fault : Lexeme → SyntaxFault} (hlost : lost input) :
    Reads outlook input least given product post lost cut (reject fault input) :=
  ⟨hlost, .refl input, rfl⟩

theorem expectName_reads (role : NameRole) (h : outlook.Braces ⟨n, opens, fresh⟩ input) :
    Reads outlook input 1 [] .nothing (outlook.Braces ⟨n, opens, true⟩)
      (outlook.Braces (.loose n)) False (expectName role input) := by
  unfold expectName Reads
  refine (meets_lexeme _).2 fun found hfound => ?_
  split
  · simp only [Action.meets_bind]
    refine (take_reads hfound rfl h).pass (.refl outlook [] input) fun _ after hr hb l => ?_
    exact ⟨hr, hb, l⟩
  · exact reject_reads h.loosen

/-! ### Heads of functions -/

theorem names_reads (role : NameRole) (fuel : Nat) (h : outlook.Braces (.loose n) input) :
    Reads outlook input 1 [] .nothing (outlook.Braces (.loose n)) (outlook.Braces (.loose n))
      (fuel < 16 * input.ahead.length + 1) (names role fuel input) := by
  induction fuel generalizing input with
  | zero => exact Nat.succ_pos _
  | succ fuel ih =>
    rw [names]
    simp only [Reads, position, atSymbol, Action.meets_bind, Action.meets_gets]
    refine (expectName_reads role h).step (.refl outlook [] input) (fun _ => id) False.elim
      fun _ i₁ h₁ b₁ l₁ => ?_
    split
    · next hcomma =>
      simp only [Action.meets_bind]
      refine (take_reads (Lexeme.isSymbol_iff.1 hcomma) rfl b₁).pass h₁ fun _ i₂ h₂ b₂ l₂ => ?_
      refine (ih b₂.loosen).step h₂ (fun _ => id) (by omega) fun _ i₃ h₃ b₃ l₃ => ?_
      exact ⟨h₃.imp (.refl _) fun _ => trivial, b₃, by omega⟩
    · exact ⟨h₁.imp (.refl _) fun _ => trivial, b₁.loosen, by omega⟩

theorem parameters_reads (fuel : Nat) (h : outlook.Braces (.loose n) input) :
    Reads outlook input 1 [] .nothing (outlook.Braces (.loose n)) (outlook.Braces (.loose n))
      (fuel < 16 * input.ahead.length + 1) (parameters fuel input) := by
  unfold parameters
  simp only [Reads, atSymbol, Action.meets_bind, Action.meets_gets]
  split
  · next hopen =>
    simp only [Action.meets_bind, Action.meets_gets]
    refine (take_reads (Lexeme.isSymbol_iff.1 hopen) rfl h).pass (.refl outlook [] input)
      fun _ i₁ h₁ b₁ l₁ => ?_
    have hclose : ∀ (found : List (String × Position)) (i₂ : Input),
        Reached outlook input [] i₂ [] True → outlook.Braces (.loose n) i₂ →
        i₂.ahead.length + 1 ≤ input.ahead.length →
        Reads outlook input 1 [] .nothing (outlook.Braces (.loose n)) (outlook.Braces (.loose n))
          (fuel < 16 * input.ahead.length + 1)
          ((do
            if ← atSymbol .rightParen then
              advance
              return found.map Prod.fst
            else reject .unclosedParameters : Reading (List String)) i₂) := by
      intro found i₂ h₂ b₂ l₂
      simp only [Reads, atSymbol, Action.meets_bind, Action.meets_gets]
      split
      · next hend =>
        simp only [Action.meets_bind]
        refine (take_reads (Lexeme.isSymbol_iff.1 hend) rfl b₂).pass h₂ fun _ i₃ h₃ b₃ l₃ => ?_
        exact ⟨h₃, b₃.loosen, by omega⟩
      · exact ⟨b₂, h₂.leads, rfl⟩
    split
    · exact hclose [] i₁ h₁ b₁.loosen l₁
    · simp only [Action.meets_bind]
      refine (names_reads .parameter fuel b₁.loosen).step h₁ (fun _ => id) (by omega)
        fun found i₂ h₂ b₂ l₂ => ?_
      exact hclose found i₂ (h₂.imp (.refl _) fun _ => trivial) b₂ (by omega)
  · exact reject_reads h

end

end

end Betty.Grammar
