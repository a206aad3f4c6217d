import Betty.Proofs.Globals
import Mathlib.Data.List.Induction

/-!
# How a program starts

Before `main` is called, the global variables are declared and the functions are registered.
Four things can go wrong, and the first of them that does decides the outcome; nothing has been
written or read by then. The function that is called, and every function that a name refers to
later, is the last one with its name.

## Main definitions

* `Program.RepeatsGlobal`, `Program.ReservesName`: the declaration at which the start fails.
* `Program.Defines`: the last definition of a name.
* `Program.started`: the machine on which `main` is called.

## Main results

* `Program.function?_eq_some_iff`, `Program.get?_functionTable`: the search among the functions
  of a program and the table of functions both give the last definition.
* `declareGlobals_done`, `registerFunctions_done`: the two steps when nothing goes wrong.
* `program_startup`: how every program starts.
-/

namespace Betty

/-! ### Declarations of a program -/

/-- Does the function have the name of an intrinsic function? -/
def Declaration.isReserved (declaration : Declaration) : Bool :=
  declaration.name.any Intrinsic.isReserved

namespace Program

/-- The names of the global variables, in the order of their declarations. -/
def globalNames (program : Program) : List String :=
  program.globals.map Prod.fst

/-- The first declaration of a global variable whose name has been declared before it. -/
def RepeatsGlobal (program : Program) (name : String) (position : Position) : Prop :=
  ∃ front back, program.globals = front ++ (name, position) :: back ∧
    (front.map Prod.fst).Nodup ∧ name ∈ front.map Prod.fst

/-- The first function with the name of an intrinsic function. -/
def ReservesName (program : Program) (name : String) (declaration : Declaration) : Prop :=
  ∃ front back, program.functions = front ++ declaration :: back ∧
    (∀ earlier ∈ front, earlier.isReserved = false) ∧
    declaration.name = some name ∧ Intrinsic.isReserved name

/-- The last function with the name. -/
def Defines (program : Program) (name : String) (declaration : Declaration) : Prop :=
  ∃ front back, program.functions = front ++ declaration :: back ∧
    declaration.name = some name ∧ ∀ later ∈ back, later.name ≠ some name

/-- If a name is repeated, then one of its declarations is the first that repeats a name. -/
theorem exists_repeatsGlobal {program : Program} (h : ¬ program.globalNames.Nodup) :
    ∃ name position, program.RepeatsGlobal name position := by
  unfold globalNames at h
  unfold RepeatsGlobal
  generalize program.globals = globals at h
  induction globals using List.reverseRecOn with
  | nil => exact absurd List.nodup_nil h
  | append_singleton front last ih =>
    by_cases hfront : (front.map Prod.fst).Nodup
    · refine ⟨last.1, last.2, front, [], rfl, hfront, ?_⟩
      refine Decidable.byContradiction fun hnew => h ?_
      rw [List.map_append, List.nodup_append]
      refine ⟨hfront, by simp, fun name hname other hother => ?_⟩
      rw [List.mem_singleton.1 hother]
      exact fun hsame => hnew (hsame ▸ hname)
    · obtain ⟨name, position, before, back, rfl, hbefore⟩ := ih hfront
      exact ⟨name, position, before, back ++ [last], by simp, hbefore⟩

theorem exists_reservesName {program : Program}
    (h : ∃ declaration ∈ program.functions, declaration.isReserved) :
    ∃ name declaration, program.ReservesName name declaration := by
  obtain ⟨declaration, hfirst⟩ := Option.isSome_iff_exists.1 (List.find?_isSome.2 h)
  obtain ⟨hreserved, front, back, hsplit, hfront⟩ := List.find?_eq_some_iff_append.1 hfirst
  unfold Declaration.isReserved at hreserved
  cases hname : declaration.name with
  | none => simp [hname] at hreserved
  | some name =>
    exact ⟨name, declaration, front, back, hsplit, by simpa using hfront, hname,
      by simpa [hname] using hreserved⟩

/-- The search from the end finds the last definition. -/
theorem function?_eq_some_iff {program : Program} {name : String} {declaration : Declaration} :
    program.function? name = some declaration ↔ program.Defines name declaration := by
  unfold function? Defines
  rw [List.find?_eq_some_iff_append]
  constructor
  · rintro ⟨hname, back, front, hsplit, hback⟩
    refine ⟨front.reverse, back.reverse, ?_, by simpa using hname, by simpa using hback⟩
    simpa using congrArg List.reverse hsplit
  · rintro ⟨front, back, hsplit, hname, hback⟩
    exact ⟨by simpa using hname, back.reverse, front.reverse, by simp [hsplit],
      by simpa using hback⟩

theorem exists_defines {program : Program} {name : String}
    (h : ∃ declaration ∈ program.functions, declaration.name = some name) :
    ∃ declaration, program.Defines name declaration := by
  obtain ⟨declaration, hmem, hname⟩ := h
  have hfound : (program.function? name).isSome := by
    unfold function?
    rw [List.find?_isSome]
    exact ⟨declaration, List.mem_reverse.2 hmem, by simpa using hname⟩
  obtain ⟨last, hlast⟩ := Option.isSome_iff_exists.1 hfound
  exact ⟨last, function?_eq_some_iff.1 hlast⟩

/-! ### The machine that is started -/

/-- The functions of the program under their names, each put in the place of an earlier one. -/
def functionTable (program : Program) : Table Declaration :=
  program.functions.foldl register .empty
where
  /-- The table with a further function. -/
  register (table : Table Declaration) (declaration : Declaration) : Table Declaration :=
    match declaration.name with
    | some name => table.put name declaration
    | none => table

/-- The machine on which `main` is called: no frame is active, the global variables hold nothing,
and the functions are registered. -/
def started (program : Program) (console : Console) : Machine :=
  { Machine.initial console with
    environment := { Environment.empty with globals := holdingNothing program.globalNames .empty }
    functions := program.functionTable }
where
  /-- The global variables together with further ones that hold nothing. -/
  holdingNothing (names : List String) (globals : Frame) : Frame :=
    names.foldl (fun globals name => globals.put name .none) globals

/-- A table in which functions have been registered one after another has the last one of each
name. -/
theorem get?_foldl_register (functions : List Declaration) (table : Table Declaration)
    (name : String) :
    (functions.foldl functionTable.register table).get? name =
      ((functions.reverse.find? fun d => d.name = some name) <|> table.get? name) := by
  induction functions generalizing table with
  | nil => rfl
  | cons first rest ih =>
    rw [List.foldl_cons, ih, List.reverse_cons, List.find?_append]
    cases rest.reverse.find? fun d => d.name = some name with
    | some later => rfl
    | none =>
      unfold functionTable.register
      cases hfirst : first.name with
      | none => simp [hfirst]
      | some other =>
        rw [Table.get?_put]
        by_cases hsame : name = other
        · simp [hfirst, hsame]
        · simp [hfirst, hsame, Ne.symm hsame]

/-- The table of functions agrees with the search among them. -/
theorem get?_functionTable (program : Program) (name : String) :
    program.functionTable.get? name = program.function? name := by
  unfold functionTable function?
  rw [get?_foldl_register]
  cases program.functions.reverse.find? fun d => d.name = some name <;> rfl

theorem get?_holdingNothing (names : List String) (globals : Frame) (name : String) :
    (started.holdingNothing names globals).get? name =
      if name ∈ names then some .none else globals.get? name := by
  unfold started.holdingNothing
  induction names generalizing globals with
  | nil => simp
  | cons first rest ih =>
    rw [List.foldl_cons, ih, Table.get?_put]
    by_cases hrest : name ∈ rest
    · simp [hrest]
    · simp [hrest]

end Program

/-! ### The steps -/

theorem run_declareGlobals_cons (first : String × Position) (rest : List (String × Position)) :
    (Plan.declareGlobals (first :: rest)).run =
      declareGlobal first.1 first.2 >>= fun _ => (Plan.declareGlobals rest).run := rfl

theorem run_registerFunctions_cons (first : Declaration) (rest : List Declaration) :
    (Plan.registerFunctions (first :: rest)).run =
      registerFunction first >>= fun _ => (Plan.registerFunctions rest).run := rfl

/-- What is done in turn on a row is done on its front and then on its back. -/
theorem inTurn_append {α : Type} {plan : List α → Plan Unit} {step : α → Eval Unit}
    (hnil : (plan []).run = pure ())
    (hcons : ∀ first rest, (plan (first :: rest)).run = step first >>= fun _ => (plan rest).run)
    (front back : List α) :
    (plan (front ++ back)).run = (plan front).run >>= fun _ => (plan back).run := by
  induction front with
  | nil => simp [hnil]
  | cons first rest ih =>
    rw [List.cons_append, hcons first (rest ++ back), hcons first rest, ih, bind_assoc]

/-- New global variables are declared. -/
theorem declareGlobals_done {globals : List (String × Position)} {machine : Machine}
    (hnodup : (globals.map Prod.fst).Nodup)
    (hnew : ∀ name ∈ globals.map Prod.fst, machine.environment.globals.contains name = false) :
    (Plan.declareGlobals globals).run machine = .done ()
      { machine with
        environment := { machine.environment with
          globals := Program.started.holdingNothing (globals.map Prod.fst)
            machine.environment.globals } } := by
  induction globals generalizing machine with
  | nil => rfl
  | cons first rest ih =>
    obtain ⟨name, position⟩ := first
    rw [List.map_cons, List.nodup_cons] at hnodup
    rw [List.map_cons, List.forall_mem_cons] at hnew
    rw [run_declareGlobals_cons]
    change Action.bind (declareGlobal name position) _ machine = _
    unfold Action.bind
    rw [declareGlobal_eq, if_neg (by simp [hnew.1])]
    refine ih hnodup.2 fun other hother => ?_
    have hne : other ≠ name := fun hsame => hnodup.1 (hsame ▸ hother)
    simp [Environment.bindGlobal, Table.contains_put, hne, hnew.2 other hother]

/-- The declaration of a global variable that exists already fails. -/
theorem declareGlobals_repeated {name : String} {machine : Machine}
    (h : machine.environment.globals.contains name) (position : Position)
    (rest : List (String × Position)) :
    (Plan.declareGlobals ((name, position) :: rest)).run machine =
      .failed ((RuntimeError.unplaced (.duplicateGlobal name)).locate position) machine := by
  rw [run_declareGlobals_cons]
  change Action.bind (declareGlobal name position) _ machine = _
  unfold Action.bind
  rw [declareGlobal_eq, if_pos h]

/-- Functions whose names are free are registered. -/
theorem registerFunctions_done {functions : List Declaration}
    (h : ∀ declaration ∈ functions, declaration.isReserved = false) (machine : Machine) :
    (Plan.registerFunctions functions).run machine = .done ()
      { machine with
        functions := functions.foldl Program.functionTable.register machine.functions } := by
  induction functions generalizing machine with
  | nil => rfl
  | cons first rest ih =>
    obtain ⟨hfirst, hrest⟩ := List.forall_mem_cons.1 h
    unfold Declaration.isReserved at hfirst
    rw [run_registerFunctions_cons, registerFunction, List.foldl_cons]
    unfold Program.functionTable.register
    cases hname : first.name with
    | none => exact ih hrest machine
    | some name =>
      have hfree : Intrinsic.isReserved name = false := by simpa [hname] using hfirst
      simp only [hfree, Bool.false_eq_true, if_false]
      exact ih hrest { machine with functions := machine.functions.put name first }

/-- A function with the name of an intrinsic function cannot be registered. -/
theorem registerFunctions_reserved {name : String} {declaration : Declaration}
    (hname : declaration.name = some name) (hreserved : Intrinsic.isReserved name)
    (rest : List Declaration) (machine : Machine) :
    (Plan.registerFunctions (declaration :: rest)).run machine =
      .failed ⟨.reservedName name, declaration.position⟩ machine := by
  rw [run_registerFunctions_cons, registerFunction, hname]
  simp only [hreserved, if_true]
  rfl

/-! ### The start of a run -/

/-- The computation fails with the error and has used none of the streams. -/
def Outcome.FailsUnheard {α : Type} (outcome : Outcome RuntimeError Machine α) (console : Console)
    (error : RuntimeError) : Prop :=
  ∃ after : Machine, outcome = .failed error after ∧ after.console = console

namespace Program

/-- The last step of a run: the call of `main`. -/
def callMain (fuel : Nat) (program : Program) : Eval Value :=
  match program.function? "main" with
  | none => Eval.fault .missingMain
  | some main =>
    if main.parameters.isEmpty then callFunction fuel (.ofProgram main) []
    else Action.fail ⟨.mainHasParameters, main.position⟩

/-- The steps of a run. -/
theorem run_eq (fuel : Nat) (program : Program) :
    program.run fuel = (Plan.declareGlobals program.globals).run >>= fun _ =>
      (Plan.registerFunctions program.functions).run >>= fun _ => program.callMain fuel := by
  change (_ >>= fun _ => _ >>= fun _ => Plan.run (match program.function? "main" with
    | none => _
    | some main => _)) = _
  unfold callMain
  cases program.function? "main" with
  | none => rfl
  | some main =>
    dsimp only
    rw [apply_ite Plan.run]
    rfl

variable {program : Program} {fuel : Nat} {console : Console}

theorem run_repeatsGlobal {name : String} {position : Position}
    (h : program.RepeatsGlobal name position) :
    (program.run fuel (.initial console)).FailsUnheard console
      ⟨.duplicateGlobal name, position⟩ := by
  obtain ⟨front, back, hsplit, hnodup, hmem⟩ := h
  have hfront := @declareGlobals_done front (.initial console) hnodup fun _ _ => rfl
  refine ⟨{ Machine.initial console with
    environment := { Environment.empty with
      globals := started.holdingNothing (front.map Prod.fst) .empty } }, ?_, rfl⟩
  rw [run_eq, hsplit, inTurn_append rfl run_declareGlobals_cons]
  change Action.bind (Action.bind (Plan.declareGlobals front).run _) _
    (Machine.initial console) = _
  unfold Action.bind
  rw [hfront]
  dsimp only
  rw [declareGlobals_repeated]
  · rfl
  · unfold Table.contains
    rw [get?_holdingNothing, if_pos hmem]
    rfl

/-- Once the global variables are declared, the functions are registered. -/
theorem run_of_nodup (h : program.globalNames.Nodup) :
    program.run fuel (.initial console) =
      ((Plan.registerFunctions program.functions).run >>= fun _ => program.callMain fuel)
        { program.started console with functions := .empty } := by
  have hglobals := @declareGlobals_done program.globals (.initial console) h fun _ _ => rfl
  rw [run_eq]
  change Action.bind (Plan.declareGlobals program.globals).run _ (Machine.initial console) = _
  unfold Action.bind
  rw [hglobals]
  rfl

theorem run_reservesName (hnodup : program.globalNames.Nodup) {name : String}
    {declaration : Declaration} (h : program.ReservesName name declaration) :
    (program.run fuel (.initial console)).FailsUnheard console
      ⟨.reservedName name, declaration.position⟩ := by
  obtain ⟨front, back, hsplit, hfront, hname, hreserved⟩ := h
  refine ⟨{ program.started console with
    functions := front.foldl functionTable.register .empty }, ?_, rfl⟩
  rw [run_of_nodup hnodup, hsplit, inTurn_append rfl run_registerFunctions_cons]
  change Action.bind (Action.bind (Plan.registerFunctions front).run _) _ _ = _
  unfold Action.bind
  rw [registerFunctions_done hfront]
  dsimp only
  rw [registerFunctions_reserved hname hreserved]

section Free

variable (hnodup : program.globalNames.Nodup)
  (hfree : ∀ declaration ∈ program.functions, declaration.isReserved = false)

include hnodup hfree

/-- Once the functions are registered as well, it is up to `main`. -/
theorem run_of_free :
    program.run fuel (.initial console) = program.callMain fuel (program.started console) := by
  rw [run_of_nodup hnodup]
  change Action.bind (Plan.registerFunctions program.functions).run _ _ = _
  unfold Action.bind
  rw [registerFunctions_done hfree]
  rfl

theorem run_missingMain (h : ∀ declaration ∈ program.functions, declaration.name ≠ some "main") :
    (program.run fuel (.initial console)).FailsUnheard console (.unplaced .missingMain) := by
  have hnone : program.function? "main" = none := by simpa [function?] using h
  refine ⟨program.started console, ?_, rfl⟩
  rw [run_of_free hnodup hfree, callMain, hnone]
  rfl

theorem run_mainHasParameters {main : Declaration} (h : program.Defines "main" main)
    (hparameters : main.parameters ≠ []) :
    (program.run fuel (.initial console)).FailsUnheard console
      ⟨.mainHasParameters, main.position⟩ := by
  refine ⟨program.started console, ?_, rfl⟩
  rw [run_of_free hnodup hfree, callMain, function?_eq_some_iff.2 h]
  dsimp only
  rw [if_neg (by simpa using hparameters)]
  rfl

theorem run_main {main : Declaration} (h : program.Defines "main" main)
    (hparameters : main.parameters = []) :
    program.run fuel (.initial console) =
      callFunction fuel (.ofProgram main) [] (program.started console) := by
  rw [run_of_free hnodup hfree, callMain, function?_eq_some_iff.2 h]
  dsimp only
  rw [if_pos (by simp [hparameters])]

end Free

end Program

/-- How every program starts, on a new machine with any streams. If a global variable is
declared twice, the run fails at the first declaration that repeats a name. Otherwise, if there
is a function with the name of an intrinsic function, it fails at the first one. Otherwise it
fails if there is no `main`, or if the last one has parameters. In these four cases nothing has
been written or read. Otherwise the run is the call of the last `main` without arguments, on a
machine on which all global variables hold nothing, and every name refers to the last function
with this name. -/
theorem program_startup (program : Program) (fuel : Nat) (console : Console) :
    let outcome := program.run fuel (.initial console)
    let started := program.started console
    (¬ program.globalNames.Nodup → ∃ name position, program.RepeatsGlobal name position ∧
      outcome.FailsUnheard console ⟨.duplicateGlobal name, position⟩) ∧
    (program.globalNames.Nodup →
      ((∃ declaration ∈ program.functions, declaration.isReserved) →
        ∃ name declaration, program.ReservesName name declaration ∧
          outcome.FailsUnheard console ⟨.reservedName name, declaration.position⟩) ∧
      ((∀ declaration ∈ program.functions, declaration.isReserved = false) →
        ((∀ declaration ∈ program.functions, declaration.name ≠ some "main") →
          outcome.FailsUnheard console (.unplaced .missingMain)) ∧
        ((∃ declaration ∈ program.functions, declaration.name = some "main") →
          ∃ main, program.Defines "main" main ∧
            (main.parameters ≠ [] →
              outcome.FailsUnheard console ⟨.mainHasParameters, main.position⟩) ∧
            (main.parameters = [] → outcome = callFunction fuel (.ofProgram main) [] started)))) ∧
    (∀ name, started.functions.get? name = program.function? name) ∧
    (∀ name declaration, program.Defines name declaration →
      started.functions.get? name = some declaration) ∧
    (∀ name ∈ program.globalNames, started.environment.globals.get? name = some .none) ∧
    started.console = console ∧ started.environment.chain = [] := by
  intro outcome started
  refine ⟨fun hrepeated => ?_, fun hnodup => ⟨fun hreserved => ?_, fun hfree =>
    ⟨Program.run_missingMain hnodup hfree, fun hmain => ?_⟩⟩, program.get?_functionTable,
    fun name declaration hdefines => ?_, fun name hname => ?_, rfl, rfl⟩
  · obtain ⟨name, position, hrepeats⟩ := Program.exists_repeatsGlobal hrepeated
    exact ⟨name, position, hrepeats, Program.run_repeatsGlobal hrepeats⟩
  · obtain ⟨name, declaration, hreserves⟩ := Program.exists_reservesName hreserved
    exact ⟨name, declaration, hreserves, Program.run_reservesName hnodup hreserves⟩
  · obtain ⟨main, hdefines⟩ := Program.exists_defines hmain
    exact ⟨main, hdefines, Program.run_mainHasParameters hnodup hfree hdefines,
      Program.run_main hnodup hfree hdefines⟩
  · exact (program.get?_functionTable name).trans (Program.function?_eq_some_iff.2 hdefines)
  · exact (Program.get?_holdingNothing _ _ name).trans (if_pos hname)

/-- A program that defines `main` twice, with parameters only the first time. -/
def Program.redefining : Program where
  globals := [("count", ⟨1, 8⟩)]
  functions := [⟨0, ⟨2, 1⟩, some "main", ["argument"], .empty⟩,
    ⟨0, ⟨3, 1⟩, some "step", [], .empty⟩, ⟨0, ⟨4, 1⟩, some "main", [], .empty⟩]

/-- The second `main` is called. -/
theorem program_startup_redefining :
    let program := Program.redefining
    let main : Declaration := ⟨0, ⟨4, 1⟩, some "main", [], .empty⟩
    let started := program.started (.ofInput [])
    program.globalNames.Nodup ∧
    (∀ declaration ∈ program.functions, declaration.isReserved = false) ∧
    program.Defines "main" main ∧ started.functions.get? "main" = some main ∧
    started.environment.globals.get? "count" = some .none ∧
    ∀ fuel, program.run fuel (.initial (.ofInput [])) =
      callFunction fuel (.ofProgram main) [] started := by
  intro program main started
  have hnodup : program.globalNames.Nodup := by decide
  have hfree : ∀ declaration ∈ program.functions, declaration.isReserved = false := by decide
  have hdefines : program.Defines "main" main := Program.function?_eq_some_iff.1 rfl
  obtain ⟨-, -, -, htable, hglobals, -, -⟩ := program_startup program 0 (.ofInput [])
  refine ⟨hnodup, hfree, hdefines, htable "main" main hdefines, hglobals "count" (by decide),
    fun fuel => ?_⟩
  obtain ⟨-, hstart, -⟩ := program_startup program fuel (.ofInput [])
  obtain ⟨last, hlast, -, hcall⟩ := ((hstart hnodup).2 hfree).2 ⟨main, by simp [program, main,
    Program.redefining], rfl⟩
  -- both are what the search finds
  have hsame : last = main := Option.some.inj
    ((Program.function?_eq_some_iff.2 hlast).symm.trans (Program.function?_eq_some_iff.2 hdefines))
  subst hsame
  exact hcall rfl

end Betty
