import Betty.Proofs.Machine.Admits
import Betty.Proofs.Parser.Lexemes
import Betty.Proofs.Token.Partition

/-!
# Where errors are placed

An error of a run that belongs to a place is at a token of the source text. Most errors have
no place when they are raised, and get that of the innermost expression around them. From
there on nothing that is being evaluated changes them.

For this all positions of a program have to be those of tokens, which holds because the
program is like itself with respect to them, and every error has to be placed before it
leaves the node that raises it.

## Main definitions

* `CodePolicy.placed`: the policy that the positions of a program are good ones.
* `Passage.Blames`: an error is at a place that the innermost node accounts for, and has
  passed through all nodes unchanged.

## Main results

* `Plan.Lawful.blames`: so it is with the errors of lawful plans.
* `Source.program_placed`: the positions of a program are those of tokens.
* `run_error_located`: every error of a run is located.
-/

namespace Betty

/-! ### Good positions -/

variable {good : Position → Prop}

/-- The positions of the program are good ones. -/
def CodePolicy.placed (good : Position → Prop) : CodePolicy where
  name _ := True
  check := .placed good
  fault _ := True
  anonymous _ _ _ := trivial
  nested _ := ⟨trivial, fun _ _ => trivial⟩
  wellFormed _ := trivial
  malformedExpr _ := trivial
  malformedStmt _ := trivial

theorem Expr.Everywhere.position_good {expr : Expr} (h : expr.Everywhere (.placed good)) :
    good expr.position := by
  cases expr with
  | number | text | character | boolean | name | error => exact h
  | function position declaration => exact h.1.1
  | _ => exact h.1

theorem Branch.EverywhereAll.condition_good {branches : List Branch}
    (h : Branch.EverywhereAll (.placed good) branches) :
    ∀ branch ∈ branches, good branch.condition.position := by
  induction branches with
  | nil => exact List.forall_mem_nil _
  | cons branch rest ih =>
    cases branch
    exact List.forall_mem_cons.2 ⟨h.1.position_good, ih h.2.2⟩

theorem Clause.EverywhereAll.condition_good {clauses : List Clause}
    (h : Clause.EverywhereAll (.placed good) clauses) :
    ∀ clause ∈ clauses, good clause.condition.position := by
  induction clauses with
  | nil => exact List.forall_mem_nil _
  | cons clause rest ih =>
    cases clause
    exact List.forall_mem_cons.2 ⟨h.1.position_good, ih h.2.2⟩

theorem Expr.Everywhere.sites_good {expr : Expr} (h : expr.Everywhere (.placed good)) :
    ∀ place ∈ expr.sites, good place := by
  have hposition := h.position_good
  cases expr with
  | unary _ op _ operand =>
    have hoperand := List.forall_mem_singleton.2 h.2.position_good
    cases op with
    | increment => exact List.forall_mem_cons.2 ⟨hposition, hoperand⟩
    | decrement => exact List.forall_mem_cons.2 ⟨hposition, hoperand⟩
    | _ => exact List.forall_mem_singleton.2 hposition
  | ternary _ condition _ _ =>
    exact List.forall_mem_cons.2 ⟨hposition, List.forall_mem_singleton.2 h.2.1.position_good⟩
  | assign _ target _ _ =>
    exact List.forall_mem_cons.2 ⟨hposition, List.forall_mem_singleton.2 h.2.1.position_good⟩
  | choose _ condition _ branches _ =>
    obtain ⟨_, hcondition, _, hbranches, _⟩ := h
    refine List.forall_mem_cons.2 ⟨hposition, List.forall_mem_cons.2 ⟨?_, ?_⟩⟩
    · exact hcondition.position_good
    · exact List.forall_mem_map.2 hbranches.condition_good
  | switch _ subject _ =>
    exact List.forall_mem_cons.2 ⟨hposition, List.forall_mem_singleton.2 h.2.1.position_good⟩
  | _ => exact List.forall_mem_singleton.2 hposition

theorem Stmt.Everywhere.sites_good {statement : Stmt} (h : statement.Everywhere (.placed good)) :
    ∀ place ∈ statement.sites, good place := by
  cases statement with
  | branch condition _ clauses _ =>
    obtain ⟨_, hcondition, _, hclauses, _⟩ := h
    refine List.forall_mem_cons.2 ⟨hcondition.position_good, ?_⟩
    exact List.forall_mem_map.2 hclauses.condition_good
  | forLoop _ condition _ _ =>
    obtain ⟨_, _, hcondition, _⟩ := h
    cases condition with
    | none => exact List.forall_mem_nil _
    | some condition =>
      exact List.forall_mem_singleton.2 (Expr.Everywhere.position_good hcondition)
  | foreachLoop _ iterable _ => exact List.forall_mem_singleton.2 h.2.1.position_good
  | whileLoop condition _ => exact List.forall_mem_singleton.2 h.2.1.position_good
  | doWhileLoop _ condition => exact List.forall_mem_singleton.2 h.2.2.position_good
  | breakStmt _ => exact List.forall_mem_singleton.2 h
  | continueStmt _ => exact List.forall_mem_singleton.2 h
  | error _ _ => exact List.forall_mem_singleton.2 h
  | function _ => exact List.forall_mem_singleton.2 h.1
  | _ => exact List.forall_mem_nil _

theorem Expr.position_mem_sites (expr : Expr) : expr.position ∈ expr.sites := by
  cases expr with
  | unary _ op => cases op <;> simp [Expr.sites, Expr.position]
  | _ => simp [Expr.sites, Expr.position]

/-! ### Errors on their way -/

variable {α β : Type}

/-- The error as it leaves the node. An expression places it if it has no place yet. -/
def Node.place : Node → RuntimeError → RuntimeError
  | statement _, error => error
  | expr found, error => error.locate found.position

/-- The error has the same fault as before. -/
theorem Node.fault_place (node : Node) (error : RuntimeError) :
    (node.place error).fault = error.fault := by
  cases node with
  | statement found => rfl
  | expr found => exact error.fault_locate found.position

/-- An error with a known position is not placed anew. -/
theorem RuntimeError.locate_of_known {error : RuntimeError} (h : error.position.isKnown)
    (position : Position) : error.locate position = error := by
  unfold RuntimeError.locate Position.orElse
  rw [if_pos h]
  exact ite_self error

theorem Node.place_of_known (node : Node) {error : RuntimeError} (h : error.position.isKnown) :
    node.place error = error := by
  cases node with
  | statement found => rfl
  | expr found => exact error.locate_of_known h found.position

/-- An error that the node has raised is at one of its sites when it leaves. -/
theorem Node.Accepts.place {node : Node} {error : RuntimeError}
    (hknown : ∀ place ∈ node.sites, place.isKnown) (hplace : error.fault.hasPlace)
    (h : node.Accepts error.position) : (node.place error).position ∈ node.sites := by
  rcases h with hsite | ⟨⟨found, rfl⟩, hunknown⟩
  · rwa [node.place_of_known (hknown _ hsite)]
  · have hlocated : (error.locate found.position).position = found.position := by
      unfold RuntimeError.locate
      rw [if_pos hplace, hunknown]
      rfl
    exact hlocated.symm ▸ found.position_mem_sites

/-- The error has passed through the nodes unchanged. It is at a place that the innermost of
them accounts for, or at one of the given places if there are none. -/
structure Passage.Blames (good places : Position → Prop) (passages : List Passage)
    (error : RuntimeError) : Prop where
  unchanged : ∀ passage ∈ passages, passage.error = error
  site : match passages with
    | [] => places error.position
    | innermost :: _ => error.position ∈ innermost.node.sites ∧ good error.position

/-- An error leaves one more node. -/
theorem Passage.Blames.leave {node : Node} {passages : List Passage} {error : RuntimeError}
    (hgood : ∀ place, good place → place.isKnown) (hsites : ∀ place ∈ node.sites, good place)
    (hplace : error.fault.hasPlace) (h : Blames good node.Accepts passages error)
    (places : Position → Prop) :
    Blames good places (passages ++ [⟨node, node.place error⟩]) (node.place error) := by
  obtain ⟨hunchanged, hsite⟩ := h
  cases passages with
  | nil =>
    have hmem : (node.place error).position ∈ node.sites :=
      hsite.place (fun place hmem => hgood _ (hsites place hmem)) hplace
    exact ⟨List.forall_mem_singleton.2 rfl, hmem, hsites _ hmem⟩
  | cons innermost outer =>
    -- The error has been placed further inside, so the node lets it pass.
    rw [node.place_of_known (hgood _ hsite.2)]
    refine ⟨fun passage hmem => ?_, hsite⟩
    rcases List.mem_append.1 hmem with hearlier | hlast
    · exact hunchanged passage hearlier
    · rw [List.mem_singleton.1 hlast]

/-- Faults of the streams belong to no place. -/
theorem Console.write_unplaced (text : String) (console : Console) :
    (Console.write text console).Meets (fun _ _ => True) (fun fault _ => ¬ fault.hasPlace)
      True := by
  unfold Console.write
  split
  · trivial
  · exact Bool.false_ne_true

theorem Console.readLine_unplaced (console : Console) :
    (Console.readLine console).Meets (fun _ _ => True) (fun fault _ => ¬ fault.hasPlace)
      True := by
  unfold Console.readLine
  dsimp only
  split
  · trivial
  · exact Bool.false_ne_true

namespace Plan

/-- The errors of the plan that belong to a place are accounted for. -/
def Blamed (good places : Position → Prop) (plan : Plan α) (machine : Machine) : Prop :=
  (plan.run machine).Meets (fun _ _ => True) (fun error _ => error.fault.hasPlace →
    Passage.Blames good places (plan.passages machine) error) True

/-- No error, no nodes that it has passed through. -/
theorem passages_eq_nil {plan : Plan α} {machine : Machine}
    (h : (plan.run machine).error? = none) : plan.passages machine = [] := by
  unfold passages
  induction plan generalizing machine with
  | yield | perform | read | fetch | onHeap | setElement | extendList | close | assign | declare
  | write | readLine => rfl
  | andThen first second ihfirst ihsecond =>
    rw [run_andThen] at h
    rw [record]
    cases hran : first.run machine with
    | done value middle =>
      rw [hran] at h
      simp only [ihfirst (congrArg Outcome.error? hran), ihsecond value h, List.append_nil]
    | failed error after =>
      rw [hran] at h
      cases h
    | outOfFuel =>
      simp only [ihfirst (congrArg Outcome.error? hran), List.append_nil]
  | inControl enter exit plan ih =>
    rw [run_inControl, Outcome.error?_mapState] at h
    exact (Recorder.bracket_eq (fun _ _ _ => rfl) _ _ _ _ _ _).trans (ih h)
  | inBlock plan ih =>
    rw [run_inBlock, Outcome.error?_mapState] at h
    exact (Recorder.bracket_eq (fun _ _ _ => rfl) _ _ _ _ _ _).trans (ih h)
  | inCall closure arguments plan ih =>
    rw [run_inCall, Outcome.error?_mapState] at h
    exact (Recorder.bracket_eq (fun _ _ _ => rfl) _ _ _ _ _ _).trans (ih h)
  | located position plan ih =>
    rw [run_located] at h
    refine ih (?_ : (plan.run machine).error? = none)
    cases hran : plan.run machine with
    | failed error after =>
      rw [hran] at h
      cases h
    | _ => rfl
  | within node plan ih =>
    have hinner : (plan.run machine).error? = none := h
    simp only [record, ih hinner, hinner]
    rfl
  | holding values plan ih => exact ih h
  | owning values plan ih => exact ih h

namespace Blamed

variable {places : Position → Prop} {plan : Plan α} {machine : Machine}

/-- A single step whose errors are at the given places. -/
theorem step (hstep : plan.isStep)
    (h : (plan.run machine).Meets (fun _ _ => True)
      (fun error _ => error.fault.hasPlace → places error.position) True) :
    plan.Blamed good places machine := by
  have hpassages : plan.passages machine = [] := record_of_isStep _ hstep () machine
  refine h.imp (fun _ _ _ => trivial) (fun error _ hraised hplace => ?_) id
  rw [hpassages]
  exact ⟨List.forall_mem_nil _, hraised hplace⟩

theorem andThen {second : α → Plan β} (h : plan.Blamed good places machine)
    (h' : ∀ value middle, plan.run machine = .done value middle →
      (second value).Blamed good places middle) :
    (plan.andThen second).Blamed good places machine := by
  unfold Blamed passages
  rw [run_andThen, record]
  unfold Blamed at h
  cases hran : plan.run machine with
  | done value middle =>
    have hnone : plan.record .passages () machine = [] := passages_eq_nil (by rw [hran]; rfl)
    rw [hnone]
    exact h' value middle hran
  | failed error after =>
    rw [hran] at h
    simp only [List.append_nil]
    exact h
  | outOfFuel => trivial

/-- A jump without a goal is an error at its own position. -/
theorem jump {hasGoal : Control → Bool} {flow : Flow} {error : RuntimeError}
    (h : places error.position) : (Plan.jump hasGoal flow error).Blamed good places machine := by
  refine andThen (step rfl trivial) fun goal middle _ => ?_
  split
  · exact step rfl trivial
  · exact step rfl fun _ => h

/-- What follows a check of the flow. -/
theorem check {goes : α → Prop} {action : Eval α} {second : α → Plan β} {made : β → Prop}
    (h : action.Checks goes)
    (hgoes : ∀ value change, goes value → machine.control.Passes (change machine.control) →
      (second value).Blamed good places (machine.turn change))
    (hstops : ∀ value, ¬ goes value → ∃ result, (second value).idle? = some result ∧
      made result) :
    ((perform action).andThen second).Blamed good places machine := by
  obtain ⟨value, change, hran, hpasses, _⟩ := h.turns machine
  refine andThen (step rfl ?_) fun found middle hfound => ?_
  · change (action machine).Meets _ _ _
    rw [hran]
    trivial
  · cases hran.symm.trans hfound
    by_cases hgo : goes value
    · exact hgoes value change hgo hpasses
    · obtain ⟨result, hidle, _⟩ := hstops value hgo
      unfold Blamed
      rw [run_of_idle hidle]
      trivial

/-- What is around a plan has no errors of its own. -/
theorem around {outer : Plan α} {inside : Machine} {back : Machine → Machine}
    (h : plan.Blamed good places inside)
    (hran : outer.run machine = (plan.run inside).mapState back)
    (hpassages : outer.passages machine = plan.passages inside) :
    outer.Blamed good places machine := by
  unfold Blamed
  rw [hran, hpassages, Outcome.meets_mapState]
  exact h

/-- An error leaves a node. -/
theorem within (node : Node) {inner : Plan α} (hgood : ∀ place, good place → place.isKnown)
    (hsites : ∀ place ∈ node.sites, good place) (h : plan.Blamed good node.Accepts machine)
    (hran : inner.run machine = (plan.run machine).mapError node.place)
    (hpassages : inner.passages machine = plan.passages machine) (places : Position → Prop) :
    (Plan.within node inner).Blamed good places machine := by
  have hleft : (inner.run machine).Meets (fun _ _ => True) (fun error _ =>
      error.fault.hasPlace → Passage.Blames good places
        (plan.passages machine ++ [⟨node, error⟩]) error) True := by
    rw [hran, Outcome.meets_mapError]
    refine h.imp (fun _ _ _ => trivial) (fun error after hblames hplace => ?_) id
    rw [node.fault_place error] at hplace
    exact (hblames hplace).leave hgood hsites hplace places
  have hrecord : (Plan.within node inner).passages machine = plan.passages machine ++
      (inner.run machine).error?.toList.map fun error => ⟨node, error⟩ := by
    rw [← hpassages]
    rfl
  unfold Blamed
  rw [hrecord]
  change (inner.run machine).Meets _ _ _
  cases hended : inner.run machine with
  | failed error after =>
    rw [hended] at hleft
    exact hleft
  | _ => trivial

end Blamed

end Plan

/-- Faults of the streams belong to no place. -/
theorem Eval.meets_onConsole_unplaced {action : Action Fault Console α} {places : Position → Prop}
    (h : ∀ console, (action console).Meets (fun _ _ => True) (fun fault _ => ¬ fault.hasPlace) True)
    (machine : Machine) :
    (Eval.onConsole action machine).Meets (fun _ _ => True)
      (fun error _ => error.fault.hasPlace → places error.position) True := by
  refine Eval.meets_onConsole.2 ((h machine.console).imp (fun _ _ _ => trivial) ?_ id)
  exact fun _ _ hfault hplace => absurd hplace hfault

/-- Where the errors of lawful plans are. -/
theorem Plan.Lawful.blames (hgood : ∀ place, good place → place.isKnown) {mode : Mode}
    {places : Position → Prop} {made : α → Prop} {plan : Plan α}
    (h : plan.Lawful (.only (.placed good)) places mode made) {machine : Machine}
    (hm : (Policy.only (.placed good)).Holds machine) : plan.Blamed good places machine := by
  induction h generalizing machine with
  | yield => trivial
  | andThen hfirst _ ihfirst ihsecond =>
    refine (ihfirst hm).andThen fun value middle hran => ?_
    have hmiddle := hfirst.sound machine hm
    rw [hran] at hmiddle
    exact ihsecond value hmiddle.1 hmiddle.2.1.toHolds
  | leaf h =>
    refine .step h.isStep ((h.keeps machine hm).imp (fun _ _ _ => trivial) ?_ id)
    exact fun _ _ hfailed => hfailed.1.place
  -- Nothing is claimed of faults of the streams.
  | write text => exact .step rfl (Eval.meets_onConsole_unplaced (Console.write_unplaced text) _)
  | readLine => exact .step rfl (Eval.meets_onConsole_unplaced Console.readLine_unplaced _)
  | expr hexpr _ ih =>
    exact .within (.expr _) hgood hexpr.sites_good (ih hm) (run_located _ _ _) rfl _
  | statement hstatement _ _ _ ih =>
    exact .within (.statement _) hgood hstatement.sites_good (ih hm)
      (Outcome.mapError_id _).symm rfl _
  | jump hstatement _ hsite _ =>
    exact .within (.statement _) hgood hstatement.sites_good (.jump (.inl hsite))
      (Outcome.mapError_id _).symm rfl _
  | holding _ _ ih => exact ih hm
  | owning _ _ ih => exact ih hm
  | inBlock _ ih =>
    refine (ih hm.enterBlock).around (run_inBlock _ _) ?_
    exact Recorder.bracket_eq (fun _ _ _ => rfl) _ _ _ _ _ _
  | @inControl _ _ _ _ _ enter exit _ hbracket _ _ ih =>
    have henter : (Policy.only (.placed good)).Holds (machine.turn enter) :=
      hm.turn ((hbracket.enter_returned _).symm ▸ hm.returned)
    refine (ih henter).around (run_inControl _ _ _ _) ?_
    exact Recorder.bracket_eq (fun _ _ _ => rfl) _ _ _ _ _ _
  | @inCall places _ _ _ _ hclosure harguments _ ih =>
    have hbody := ih (hm.inBody hclosure harguments)
    have hlook : ∀ machine, (Plan.look fun machine => machine.control.result).Blamed good places
        machine := fun _ => .step rfl trivial
    refine (hbody.andThen fun _ middle _ => hlook middle).around (run_inCall _ _ _ _) ?_
    exact Recorder.bracket_eq (fun _ _ _ => rfl) _ _ _ _ _ _
  | afterwards hfirst hchecks _ hstops ihfirst ihgoes =>
    refine (ihfirst hm).andThen fun _ middle hran => ?_
    have hmiddle := hfirst.sound machine hm
    rw [hran] at hmiddle
    refine .check hchecks (fun value change hgo hpasses => ihgoes value hgo ?_) hstops
    exact hmiddle.2.1.toHolds.turn (hpasses.returned.symm ▸ hmiddle.2.1.returned)
  | endSwitch _ ih => exact (ih hm).andThen fun _ _ _ => .step rfl trivial
  | setReturn => exact .step rfl trivial
  | calm _ ih => exact ih hm

/-! ### Positions of programs -/

/-- Tokens have known positions. -/
theorem tokenize_known (text : String) : ∀ token ∈ tokenize text, 1 ≤ token.position.line := by
  intro token hmem
  obtain ⟨pieces, tail, hcuts⟩ := (Cursor.ofText text).exists_cuts
  have hplaces := congrArg (List.map Token.position)
    (hcuts.tokens (Nat.lt_succ_of_le hcuts.length_le))
  have hplace : token.position ∈ (tokenize text).map Token.position := List.mem_map_of_mem hmem
  -- Line zero ends before the text starts.
  have hstart : Position.Before ⟨0, token.position.column⟩ (Cursor.ofText text).position :=
    .inl Nat.zero_lt_one
  unfold tokenize at hplace
  rw [hplaces, List.map_append, List.map_map] at hplace
  rcases hcuts.before hstart token.position hplace with hline | ⟨_, hcolumn⟩
  · exact hline
  · exact absurd hcolumn (Nat.lt_irrefl _)

/-- The position is in the text, and a token starts there. -/
def Source.Marks (source : Source) (position : Position) : Prop :=
  1 ≤ position.line ∧ ∃ token ∈ tokenize source.text, token.position = position

namespace Source

variable (source : Source)

theorem marks_of_sameToken (position : Position)
    (h : SameToken source.text source.text position position) : source.Marks position := by
  obtain ⟨i, token, _, htoken, _, rfl, _⟩ := h
  have hmem := List.mem_of_getElem? htoken
  exact ⟨tokenize_known _ token hmem, token, hmem, rfl⟩

theorem Marks.isKnown {source : Source} {position : Position} (h : source.Marks position) :
    position.isKnown :=
  bne_iff_ne.2 (Nat.ne_of_gt h.1)

/-- The positions in a program are those of tokens. -/
theorem program_placed :
    (∀ declaration ∈ source.parse.program.functions,
      (CodePolicy.placed source.Marks).Allows declaration) ∧
    ∀ place ∈ source.parse.program.sites, source.Marks place := by
  obtain ⟨hglobals, hfunctions⟩ := (@parse_alike source source rfl).1
  rw [List.forall₂_same] at hglobals hfunctions
  refine ⟨fun declaration hmem => ⟨fun _ _ => trivial, ?_⟩, List.forall_mem_append.2 ⟨?_, ?_⟩⟩
  · exact Declaration.Alike.everywhere source.marks_of_sameToken declaration
      (hfunctions declaration hmem)
  · refine List.forall_mem_map.2 fun declared hmem => ?_
    exact source.marks_of_sameToken _ (hglobals declared hmem).2
  · refine List.forall_mem_map.2 fun declaration hmem => ?_
    exact source.marks_of_sameToken _ (hfunctions declaration hmem).position

end Source

/-- Every error of a run is located, the absence of `main` and faults of the streams apart.
Its position is known, and a token of the text starts there. The plan of the run shows who
places it: the innermost of the nodes that the error passes through, or the program itself if
there are none. None of these nodes changes the error, once it is placed. -/
theorem run_error_located (source : Source) (fuel : Nat) (console : Console)
    (error : RuntimeError) (after : Machine)
    (h : source.parse.program.run fuel (.initial console) = .failed error after)
    (hmain : error.fault ≠ .missingMain) (hstream : ∀ fault, error.fault ≠ .stream fault) :
    1 ≤ error.position.line ∧
      (∃ token ∈ tokenize source.text, token.position = error.position) ∧
      (source.parse.program.plan fuel).run = source.parse.program.run fuel ∧
      (∀ passage ∈ (source.parse.program.plan fuel).passages (.initial console),
        passage.error = error) ∧
      match (source.parse.program.plan fuel).passages (.initial console) with
      | [] => error.position ∈ source.parse.program.sites
      | innermost :: _ => error.position ∈ innermost.node.sites := by
  obtain ⟨hfunctions, hsites⟩ := source.program_placed
  have hplace : error.fault.hasPlace := by
    unfold Fault.hasPlace
    split
    · next hfault => exact absurd hfault hmain
    · next hfault => exact absurd hfault (hstream _)
    · rfl
  have hblames : ((source.parse.program.plan fuel).run (.initial console)).Meets _ _ _ :=
    (Program.plan_lawful_only hfunctions fuel).blames (fun _ hmarks => hmarks.isKnown)
      (Machine.only_initial console).holds
  change (source.parse.program.plan fuel).run (.initial console) = _ at h
  rw [h] at hblames
  -- From here on it only matters whether the error has passed through a node at all.
  generalize (source.parse.program.plan fuel).passages (.initial console) = passages
    at hblames ⊢
  obtain ⟨hunchanged, hsite⟩ := hblames hplace
  cases passages with
  | nil =>
    have hmarks := hsites _ hsite
    exact ⟨hmarks.1, hmarks.2, rfl, hunchanged, hsite⟩
  | cons innermost outer =>
    obtain ⟨hsite, hmarks⟩ := hsite
    exact ⟨hmarks.1, hmarks.2, rfl, hunchanged, hsite⟩

/-- The position of an error that belongs to a place. -/
def Outcome.place? {α : Type} : Outcome RuntimeError Machine α → Option Position
  | failed error _ => if error.fault.hasPlace then some error.position else none
  | _ => none

theorem Outcome.place?_eq_some {outcome : Outcome RuntimeError Machine α} {position : Position}
    (h : outcome.place? = some position) :
    ∃ error after, outcome = .failed error after ∧ error.position = position ∧
      error.fault.hasPlace := by
  cases outcome with
  | done value after => cases h
  | failed error after =>
    obtain ⟨hplace, hposition⟩ := Option.ite_none_right_eq_some.1 h
    exact ⟨error, after, rfl, Option.some.inj hposition, hplace⟩
  | outOfFuel => cases h

/-- A text with a fault inside of a list, in a function that another one calls. -/
def Source.faultyNegation : Source :=
  .ofText "func f(x) \x7b return [x, -x]; \x7d\nfunc main() \x7b print(f(true)); \x7d"

theorem run_error_located_faultyNegation :
    ∃ error after,
      Source.faultyNegation.parse.program.run 20 (.initial (.ofInput [])) = .failed error after ∧
      error.position = ⟨1, 24⟩ ∧
      (∃ token ∈ tokenize Source.faultyNegation.text, token.position = error.position) ∧
      ((Source.faultyNegation.parse.program.plan 20).passages (.initial (.ofInput []))).length =
        8 ∧
      ∀ passage ∈ (Source.faultyNegation.parse.program.plan 20).passages (.initial (.ofInput [])),
        passage.error = error := by
  have hplace : (Source.faultyNegation.parse.program.run 20
      (.initial (.ofInput []))).place? = some ⟨1, 24⟩ := by decide +kernel
  obtain ⟨error, after, hfailed, hposition, hplaced⟩ := Outcome.place?_eq_some hplace
  have hmain : error.fault ≠ .missingMain := fun h => by simp [h, Fault.hasPlace] at hplaced
  have hstream : ∀ fault, error.fault ≠ .stream fault :=
    fun _ h => by simp [h, Fault.hasPlace] at hplaced
  obtain ⟨_, htoken, _, hunchanged, _⟩ :=
    run_error_located .faultyNegation 20 (.ofInput []) error after hfailed hmain hstream
  exact ⟨error, after, hfailed, hposition, htoken, by decide +kernel, hunchanged⟩

end Betty
