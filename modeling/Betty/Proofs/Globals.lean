import Betty.Proofs.Machine.Admits

/-!
# Global variables

A name that is declared as a global variable, and as nothing else, is never bound in a
frame: an assignment finds it among the global variables before it would bind it. So all
parts of the program that use the name share the one variable.

## Main definitions

* `Environment.Shared`: the name is a global variable, and no frame binds it.
* `Policy.sharing`: the policy that it stays so.
* `Moment.Shares`: a step that uses the name uses the global variable, and no other step
  changes it.

## Main results

* `global_shared`: every step of a run does.
-/

namespace Betty

/-! ### Names that only the global variables bind -/

/-- No frame binds the name. -/
def Environment.Free (name : String) (env : Environment) : Prop :=
  ∀ ref, (env.frame ref).contains name = false

/-- The name is a global variable, and no frame binds it. -/
structure Environment.Shared (name : String) (env : Environment) : Prop where
  free : env.Free name
  declared : env.globals.contains name

namespace Environment.Shared

variable {env : Environment} {name : String}

theorem activate (h : env.Shared name) (chain : Chain) :
    { env with chain := chain }.Shared name :=
  ⟨h.free, h.declared⟩

theorem push (h : env.Shared name) : env.push.Shared name :=
  ⟨fun ref => (env.frame_push ref).symm ▸ h.free ref, h.declared⟩

theorem bindIn (h : env.Shared name) (ref : FrameRef) {other : String} (hother : other ≠ name)
    (value : Value) : (env.bindIn ref other value).Shared name := by
  refine ⟨fun found => Bool.eq_false_iff.2 fun hname => ?_, h.declared⟩
  rcases contains_of_contains_bindIn hname with ⟨_, heq⟩ | hname
  · exact hother heq.symm
  · exact Bool.eq_false_iff.1 (h.free found) hname

theorem bindGlobal (h : env.Shared name) (other : String) (value : Value) :
    (env.bindGlobal other value).Shared name := by
  refine ⟨h.free, ?_⟩
  unfold Environment.bindGlobal
  rw [Table.contains_put, h.declared, Bool.or_true]

theorem declareLocal (h : env.Shared name) {other : String} (hother : other ≠ name)
    (value : Value) : (env.declareLocal other value).Shared name :=
  Environment.declareLocal_induction (fun ref _ => h.bindIn ref hother value)
    (h.bindGlobal other value)

/-- An assignment to the name is one to the global variable. -/
theorem set_eq (h : env.Shared name) (value : Value) :
    env.set name value = env.bindGlobal name value := by
  -- Neither does a frame have the name, nor is it new.
  rcases env.set_cases name value with ⟨ref, _, hbound, _⟩ | ⟨_, ⟨_, heq⟩ | ⟨hundeclared, _⟩⟩
  · rw [h.free ref] at hbound
    cases hbound
  · exact heq
  · rw [h.declared] at hundeclared
    cases hundeclared

theorem set (h : env.Shared name) (other : String) (value : Value) :
    (env.set other value).Shared name := by
  by_cases hother : other = name
  · subst hother
    rw [h.set_eq]
    exact h.bindGlobal other value
  · exact Environment.set_induction (fun ref _ => h.bindIn ref hother value)
      (h.bindGlobal other value)

/-- The value of the name is that of the global variable. -/
theorem get?_eq (h : env.Shared name) :
    ∃ cell, env.globals.get? name = some cell ∧ env.get? name = some cell := by
  obtain ⟨cell, hcell⟩ := Option.isSome_iff_exists.1 h.declared
  have hlocal : env.local? name = none := by
    refine List.findSome?_eq_none_iff.2 fun ref _ => ?_
    exact Option.not_isSome_iff_eq_none.1 (Bool.eq_false_iff.1 (h.free ref))
  refine ⟨cell, hcell, ?_⟩
  unfold Environment.get?
  rw [hlocal, hcell]
  rfl

end Environment.Shared

/-! ### The value of a global variable -/

/-- If the name is a global variable, then it is one with the same value afterwards. -/
def Environment.KeepsGlobal (name : String) (before after : Environment) : Prop :=
  before.globals.contains name → after.globals.get? name = before.globals.get? name

namespace Environment

variable {name other : String}

theorem get?_bindGlobal_of_ne (env : Environment) (h : other ≠ name) (value : Value) :
    (env.bindGlobal other value).globals.get? name = env.globals.get? name := by
  unfold bindGlobal
  rw [Table.get?_put, if_neg h.symm]

theorem get?_declareLocal_of_ne (env : Environment) (h : other ≠ name) (value : Value) :
    (env.declareLocal other value).globals.get? name = env.globals.get? name :=
  @declareLocal_induction (fun after => after.globals.get? name = env.globals.get? name) env other
    value (fun _ _ => rfl) (env.get?_bindGlobal_of_ne h value)

theorem get?_set_of_ne (env : Environment) (h : other ≠ name) (value : Value) :
    (env.set other value).globals.get? name = env.globals.get? name :=
  @set_induction (fun after => after.globals.get? name = env.globals.get? name) env other value
    (fun _ _ => rfl) (env.get?_bindGlobal_of_ne h value)

theorem get?_declareAll_of_ne (env : Environment) {bindings : List (String × Value)}
    (h : ∀ binding ∈ bindings, binding.1 ≠ name) :
    (bindings.foldl (fun env (name, value) => env.declareLocal name value) env).globals.get? name =
      env.globals.get? name := by
  induction bindings generalizing env with
  | nil => rfl
  | cons binding rest ih =>
    obtain ⟨hbinding, hrest⟩ := List.forall_mem_cons.1 h
    exact (ih _ hrest).trans (env.get?_declareLocal_of_ne hbinding binding.2)

theorem get?_inBody (env : Environment) {closure : Closure} (arguments : List Value)
    (h : ∀ parameter ∈ closure.declaration.parameters, parameter ≠ name) :
    (env.inBody closure arguments).globals.get? name = env.globals.get? name :=
  (env.enterCall closure.chain).get?_declareAll_of_ne fun _ hbinding =>
    h _ (List.of_mem_zip hbinding).1

/-- A global variable is not declared twice. -/
theorem keepsGlobal_bindGlobal (env : Environment) (h : ¬ env.globals.contains other)
    (value : Value) : env.KeepsGlobal name (env.bindGlobal other value) := by
  intro hold
  have hother : other ≠ name := by
    rintro rfl
    exact h hold
  exact env.get?_bindGlobal_of_ne hother value

theorem Moves.keepsGlobal {before after : Environment} (h : before.Moves (· ≠ name) after) :
    before.KeepsGlobal name after := by
  intro hold
  cases h with
  | stay => rfl
  | push => rfl
  | enter closure arguments hparameters => exact before.get?_inBody arguments hparameters
  | leave chain => rfl
  | declare value hother => exact before.get?_declareLocal_of_ne hother value
  | global value hnew => exact before.keepsGlobal_bindGlobal hnew value hold

end Environment

/-! ### The policy -/

/-- The program declares only names that are allowed. -/
def CodePolicy.declaring (allowed : String → Prop) : CodePolicy where
  name := allowed
  check := .declares allowed
  fault _ := True
  anonymous h := h
  nested h := h
  wellFormed _ := trivial
  malformedExpr _ := trivial
  malformedStmt _ := trivial

/-- The function has no parameter of the given name, and no function in it has one or is
called so. -/
abbrev Declaration.Avoids (name : String) (declaration : Declaration) : Prop :=
  (CodePolicy.declaring (· ≠ name)).Allows declaration

/-- The policy that the name is a global variable and bound nowhere else. -/
def Policy.sharing (name : String) : Policy where
  toHeapPolicy := .only (Declaration.Avoids name)
  toCodePolicy := .declaring (· ≠ name)
  environment env := env.Only (Declaration.Avoids name) ∧ env.Shared name
  function h := h
  define h := h
  close _ _ h := h
  get? henv hget := henv.1.get? hget
  set other _ henv hnew := ⟨henv.1.set other hnew, henv.2.set other _⟩
  declareLocal henv hother hnew := ⟨henv.1.declareLocal _ hnew, henv.2.declareLocal hother _⟩
  push henv := ⟨henv.1.push, henv.2.push⟩
  enterCall henv _ := ⟨henv.1.enterCall _, (henv.2.activate _).push⟩
  restore _ hafter := ⟨⟨hafter.1.frames, hafter.1.globals⟩, hafter.2.activate _⟩

/-! ### Steps -/

/-- The step starts and ends without a frame that binds the name. If it looks up the name it
finds the value of the global variable, and if it assigns to the name it assigns to the
global variable. No other step changes the value of the variable. -/
structure Moment.Shares (name : String) (moment : Moment) : Prop where
  before : moment.before.environment.Free name
  after : ∀ machine, moment.after = some machine → machine.environment.Free name
  reads : ∀ found, moment.act = .read name found →
    ∃ cell, moment.before.environment.globals.get? name = some cell ∧ found = .ok cell
  assigns : ∀ value, moment.act = .assign name value →
    moment.after = some { moment.before with
      environment := moment.before.environment.bindGlobal name value }
  keeps : (∀ value, moment.act ≠ .assign name value) → ∀ machine, moment.after = some machine →
    moment.before.environment.KeepsGlobal name machine.environment

/-- A step that is no assignment to the name does not change the variable. -/
theorem Moment.Genuine.keepsGlobal {name : String} {moment : Moment}
    (h : moment.Genuine (· ≠ name)) (hact : ∀ value, moment.act ≠ .assign name value)
    {after : Machine} (hafter : moment.after = some after) :
    moment.before.environment.KeepsGlobal name after.environment := by
  obtain ⟨act, before, ends⟩ := moment
  cases act with
  | read other found =>
    obtain ⟨_, hsame⟩ := h
    cases hsame.symm.trans hafter
    exact fun _ => rfl
  | assign other value =>
    have hset : ends = _ := h
    have hother : other ≠ name := fun heq => hact value (heq ▸ rfl)
    cases hset.symm.trans hafter
    exact fun _ => before.environment.get?_set_of_ne hother value
  | _ => exact (h after hafter).keepsGlobal

theorem Policy.Shows.shares {name : String} {moment : Moment}
    (h : (Policy.sharing name).Shows moment) : moment.Shares name := by
  have hshared : moment.before.environment.Shared name := h.before.environment.2
  have hgenuine := h.genuine
  refine ⟨hshared.free, fun machine hafter => ?_, fun found hact => ?_, fun value hact => ?_,
    fun hact _ hafter => h.genuine.keepsGlobal hact hafter⟩
  · exact (h.after machine hafter).environment.2.free
  · obtain ⟨cell, hcell, hget⟩ := hshared.get?_eq
    refine ⟨cell, hcell, ?_⟩
    unfold Moment.Genuine at hgenuine
    rw [hact] at hgenuine
    rcases hgenuine.1 with hfound | hfound
    · rw [hfound]
      unfold Betty.variableValue
      rw [hget]
    · rw [hfound]
      unfold Environment.lookup
      rw [hget]
  · unfold Moment.Genuine at hgenuine
    rw [hact] at hgenuine
    dsimp only at hgenuine
    rw [hgenuine, hshared.set_eq]

/-! ### The start of a run -/

/-- The machine before the function `main` is called: there are no frames yet, and all
functions avoid the name. -/
structure Machine.Starting (name : String) (machine : Machine) : Prop where
  only : machine.Only (Declaration.Avoids name)
  frames : machine.environment.frames = #[]

namespace Machine.Starting

variable {name : String} {machine after : Machine}

theorem free (h : machine.Starting name) : machine.environment.Free name := by
  intro ref
  have hempty : machine.environment.frame ref = .empty :=
    Environment.frame_eq_empty (by simp [h.frames])
  rw [hempty]
  rfl

theorem initial (name : String) (console : Console) : (initial console).Starting name :=
  ⟨only_initial console, rfl⟩

/-- A step between such machines, if it is neither a lookup nor an assignment. -/
theorem shares (h : machine.Starting name) {after : Option Machine}
    (h' : ∀ found, after = some found → found.Starting name ∧
      machine.environment.KeepsGlobal name found.environment) :
    Moment.Shares name ⟨.other, machine, after⟩ := by
  refine ⟨h.free, fun found hafter => (h' found hafter).1.free, ?_, ?_,
    fun _ found hafter => (h' found hafter).2⟩
  · intro found hact
    cases hact
  · intro value hact
    cases hact

end Machine.Starting

/-- How the plan ends, and that all its steps share the name. -/
structure Plan.Shares {α : Type} (name : String) (plan : Plan α) (machine : Machine)
    (done failed : Machine → Prop) : Prop where
  ends : (plan.run machine).Meets (fun _ after => done after) (fun _ after => failed after) True
  moments : ∀ moment ∈ plan.moments machine, moment.Shares name

theorem Plan.Shares.andThen {α β : Type} {name : String} {first : Plan α} {second : α → Plan β}
    {machine : Machine} {middle done failed : Machine → Prop}
    (h : first.Shares name machine middle failed)
    (h' : ∀ value after, middle after → (second value).Shares name after done failed) :
    (first.andThen second).Shares name machine done failed := by
  refine ⟨(Action.meets_bind _ _ _).2 ?_, fun moment hmoment => ?_⟩
  · exact h.ends.imp (fun value after hmiddle => (h' value after hmiddle).ends)
      (fun _ _ hfailed => hfailed) id
  · rcases mem_record_andThen.1 hmoment with hmoment | ⟨value, after, hran, hmoment⟩
    · exact h.moments moment hmoment
    · have hmiddle := h.ends
      rw [hran] at hmiddle
      exact (h' value after hmiddle).moments moment hmoment

/-- A declaration of a global variable, possibly of the name. -/
theorem declareGlobal_shares {name declared : String} (position : Position) {machine : Machine}
    (h : machine.Starting name) :
    (Plan.perform (declareGlobal declared position)).Shares name machine
      (fun after => after.Starting name ∧
        after.environment.globals = machine.environment.globals.put declared .none)
      (Machine.Starting name) := by
  have hbound : Machine.Starting name { machine with
      environment := machine.environment.bindGlobal declared .none } :=
    ⟨⟨h.only.environment.bindGlobal declared trivial, h.only.heap, h.only.returned,
      h.only.functions⟩, h.frames⟩
  have hends : (declareGlobal declared position machine).Meets
      (fun _ after => (after.Starting name ∧
        after.environment.globals = machine.environment.globals.put declared .none) ∧
        machine.environment.KeepsGlobal name after.environment)
      (fun _ after => after.Starting name ∧
        machine.environment.KeepsGlobal name after.environment) True := by
    rw [declareGlobal_eq]
    split
    · exact ⟨h, fun _ => rfl⟩
    · next hnew => exact ⟨⟨hbound, rfl⟩, machine.environment.keepsGlobal_bindGlobal hnew _⟩
  refine ⟨hends.imp (fun _ _ hdone => hdone.1) (fun _ _ hfailed => hfailed.1) id, ?_⟩
  refine List.forall_mem_singleton.2 (h.shares fun after hafter => ?_)
  exact (hends.imp (fun _ _ hdone => ⟨hdone.1.1, hdone.2⟩) (fun _ _ hfailed => hfailed) id).state?
    hafter

/-- The global variables are declared one after another. Once all are, the name is one of
them. -/
theorem declareGlobals_shares {name : String} (globals : List (String × Position))
    {machine : Machine} (h : machine.Starting name)
    (hname : machine.environment.globals.contains name ∨ name ∈ globals.map Prod.fst) :
    (Plan.declareGlobals globals).Shares name machine
      (fun after => after.Starting name ∧ after.environment.globals.contains name)
      (Machine.Starting name) := by
  -- The name is declared already, or it is still to come.
  induction globals generalizing machine with
  | nil =>
    exact ⟨⟨h, hname.resolve_right List.not_mem_nil⟩, fun moment hmoment => nomatch hmoment⟩
  | cons first rest ih =>
    obtain ⟨declared, position⟩ := first
    refine (declareGlobal_shares position h).andThen fun _ after hafter => ih hafter.1 ?_
    rw [hafter.2, Table.contains_put, Bool.or_eq_true, decide_eq_true_eq]
    rcases hname with hold | hname
    · exact .inl (.inr hold)
    · exact (List.mem_cons.1 hname).imp .inl id

/-! ### Runs -/

/-- From the start of `main` on the policy holds. -/
theorem Machine.Starting.holds {name : String} {machine : Machine} (h : machine.Starting name)
    (hname : machine.environment.globals.contains name) : (Policy.sharing name).Holds machine :=
  ⟨⟨h.only.environment, h.free, hname⟩, h.only.heap, h.only.returned, h.only.functions⟩

theorem Program.plan_shares {program : Program} {name : String}
    (hname : name ∈ program.globals.map Prod.fst)
    (hfunctions : ∀ declaration ∈ program.functions, declaration.Avoids name) (fuel : Nat)
    (console : Console) :
    (program.plan fuel).Shares name (.initial console) (·.environment.Free name)
      (·.environment.Free name) := by
  have hglobals := declareGlobals_shares program.globals (.initial name console) (.inr hname)
  have hlawful : (program.mainPlan fuel).Lawful (.sharing name) (· ∈ program.sites) .calm
      (Policy.sharing name).value := Program.mainPlan_lawful hfunctions fuel
  refine Plan.Shares.andThen ⟨hglobals.ends.imp (fun _ _ hdone => hdone)
    (fun _ _ hfailed => hfailed.free) id, hglobals.moments⟩ fun _ after hafter => ?_
  have hholds := hafter.1.holds hafter.2
  refine ⟨(hlawful.keeps hholds).imp ?_ ?_ id, fun moment hmoment => ?_⟩
  · exact fun _ _ hdone => hdone.2.environment.2.free
  · exact fun _ _ hfailed => hfailed.2.environment.2.free
  · exact (hlawful.shows after hholds moment hmoment).shares

/-- A declared global variable is really global. If no parameter and no function inside a
function is called like it, then in every state that a run passes through no frame binds the
name, and every lookup of the name and every assignment to it, wherever it stands in the
program, is one of the global variable. Nothing but these assignments changes its value. -/
theorem global_shared (program : Program) (name : String)
    (hname : name ∈ program.globals.map Prod.fst)
    (hparameters : ∀ declaration ∈ program.functions, name ∉ declaration.parameters)
    (hnested : program.Everywhere (.declares (· ≠ name))) (fuel : Nat) (console : Console) :
    (program.plan fuel).run = program.run fuel ∧
      (program.run fuel (.initial console)).Meets
        (fun _ after => after.environment.Free name) (fun _ after => after.environment.Free name)
        True ∧
      ∀ moment ∈ (program.plan fuel).moments (.initial console), moment.Shares name := by
  have hfunctions : ∀ declaration ∈ program.functions, declaration.Avoids name := by
    intro declaration hmem
    refine ⟨fun parameter hparameter heq => ?_, hnested declaration hmem⟩
    exact hparameters declaration hmem (heq ▸ hparameter)
  obtain ⟨hends, hmoments⟩ := Program.plan_shares hname hfunctions fuel console
  exact ⟨rfl, hends, hmoments⟩

/-- A program that uses its global variable in a function inside of `main` and as the element
of a loop. -/
def Program.globalInClosure : Program :=
  ⟨[("total", ⟨1, 8⟩)], [⟨0, ⟨2, 1⟩, some "main", [], .block [
    .expr (.assign ⟨3, 3⟩ (.name ⟨3, 3⟩ "total") none (.text ⟨3, 11⟩ "a")),
    .function ⟨0, ⟨4, 3⟩, some "add", ["item"], .block [
      .expr (.assign ⟨5, 5⟩ (.name ⟨5, 5⟩ "total") (some .add) (.name ⟨5, 14⟩ "item"))]⟩,
    .foreachLoop "item" (.text ⟨6, 20⟩ "bc")
      (.expr (.call ⟨7, 5⟩ (.named "add") [.name ⟨7, 9⟩ "item"])),
    .foreachLoop "total" (.text ⟨8, 21⟩ "de") .empty]⟩]⟩

/-- Does the step look up the name or assign to it? -/
def Moment.uses (name : String) (moment : Moment) : Bool :=
  match moment.act with
  | .read found _ | .assign found _ => found == name
  | _ => false

theorem global_shared_inClosure :
    (((Program.globalInClosure.plan 30).moments (.initial (.ofInput []))).filter
      (·.uses "total")).length = 7 ∧
    ∀ moment ∈ (Program.globalInClosure.plan 30).moments (.initial (.ofInput [])),
      moment.Shares "total" := by
  have hnested : Program.globalInClosure.Everywhere (.declares (· ≠ "total")) := by
    simp [Program.globalInClosure, Program.Everywhere, Declaration.Everywhere, Stmt.Everywhere,
      Stmt.EverywhereAll, Expr.Everywhere, Expr.EverywhereAll, Callee.Everywhere,
      NodeCheck.declares, Declaration.displayName]
  have hshared := global_shared Program.globalInClosure "total" (by decide) (by
    simp [Program.globalInClosure]) hnested 30 (.ofInput [])
  exact ⟨by decide +kernel, hshared.2.2⟩

end Betty
