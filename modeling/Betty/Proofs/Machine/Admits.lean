import Betty.Proofs.Machine.Lawful

/-!
# The evaluation of programs is lawful

The plans of expressions and statements are lawful for every policy, on all trees whose nodes
pass its check, by induction on the fuel. One case for each form of the syntax shows that the
form puts together nothing but lawful parts, in the ways that the laws allow.

## Main definitions

* `Policy.Admits`: the plans of expressions and statements are lawful.

## Main results

* `Policy.admits`: with any fuel.
* `Program.plan_lawful`: so is the plan of a run.
-/

namespace Betty

variable {α β : Type} {policy : Policy} {places : Position → Prop}

/-! ### Parts of expressions -/

/-- An ordinary fault whose place is known. -/
theorem RuntimeError.Regular.placed {fault : Fault} {position : Position} (h : fault.isOrdinary)
    (hplace : places position) : RuntimeError.Regular policy places ⟨fault, position⟩ :=
  ⟨policy.wellFormed (Fault.not_isMalformed h), Fault.jump?_of_isOrdinary h, fun _ => hplace⟩

namespace Plan.Lawful

variable {mode : Mode} {made : α → Prop}

/-- A look at the machine, and what follows it. -/
theorem peek {view : Machine → α} {made : β → Prop} {second : α → Plan β}
    (hview : ∀ machine console, view (Machine.withConsole console machine) = view machine)
    (h : ∀ value, (second value).Lawful policy places mode made) :
    (Plan.look view >>= second).Lawful policy places mode made :=
  .seq (.leaf (.look (fun _ _ => trivial) hview)) h

theorem fail {error : RuntimeError} (h : error.Regular policy places) :
    (Plan.fail error).Lawful policy places .calm made :=
  .leaf (.fail h)

theorem exhausted : (Plan.exhausted : Plan α).Lawful policy places mode made := by
  cases mode with
  | calm => exact .leaf (.perform .exhausted)
  | inside counted here => exact .calm (.leaf (.perform .exhausted))

theorem forget (values : List Value) :
    (Plan.forget values).Lawful policy places .calm fun _ => True :=
  .holding values (.yield trivial)

/-- An ordinary fault at a position. -/
theorem faultAt {fault : Fault} {position : Position} (h : fault.isOrdinary)
    (hplace : places position) :
    (Plan.located position (Plan.fault fault)).Lawful policy places .calm made :=
  .leaf (.located hplace (.fault h (.inl rfl)))

end Plan.Lawful

theorem combine_lawful (op : BinaryOp) {current value : Value} (hunknown : places .unknown)
    (hcurrent : policy.value current) (hvalue : policy.value value) :
    (Plan.combine op current value).Lawful policy places .calm policy.value := by
  unfold Plan.combine
  split
  · have hadded : (Plan.look fun machine => addedItems machine.heap value).Leaf policy places
        fun extra => ∀ item ∈ extra, policy.value item :=
      .look (fun _ hm => policy.addedItems hm.heap hvalue) fun _ _ => rfl
    refine .bind (.leaf hadded) fun _ hextra => ?_
    exact .seq (.leaf (.extendList hcurrent hextra)) fun _ => .pure hcurrent
  · exact .holding _ (.leaf (.onHeap hunknown (applyBinary_respects op hcurrent hvalue)))

theorem assignedValue_lawful (op : Option BinaryOp) {current : Plan Value} {value : Value}
    (hunknown : places .unknown) (hcurrent : current.Lawful policy places .calm policy.value)
    (hvalue : policy.value value) :
    (Plan.assignedValue op current value).Lawful policy places .calm policy.value := by
  cases op with
  | none => exact .pure hvalue
  | some op =>
    exact .holding _ (.bind hcurrent fun _ hold => combine_lawful op hunknown hold hvalue)

theorem unary_lawful (op : UnaryOp) {operand : Value} (hunknown : places .unknown)
    (hoperand : policy.value operand) :
    (Plan.unary op operand).Lawful policy places .calm policy.value := by
  unfold Plan.unary
  split
  · exact .pure hoperand
  · exact .holding _ (.leaf (.perform (.ofTyped hunknown fun _ => policy.unary hoperand)))

theorem stepValue_lawful (up : Bool) (old : Value) (hunknown : places .unknown) :
    (Plan.perform (Eval.ofTyped (stepValue up old))).Lawful policy places .calm policy.value :=
  .leaf (.perform (.ofTyped hunknown fun _ hnew => policy.plain (stepValue_plain hnew)))

theorem elementPlace_leaf (refusal : Kind → TypeFault) {collection : Value} (index : Value)
    (hunknown : places .unknown) (hcollection : policy.value collection) :
    (Plan.perform (Eval.query fun machine =>
      elementPlace machine.heap refusal collection index)).Leaf policy places
        fun place => policy.value (.list place.1) :=
  .perform (.query hunknown (fun _ _ _ => policy.elementPlace hcollection)
    (fun _ _ => elementPlace_fault) fun _ _ => rfl)

theorem elementValue_leaf {ref : ListRef} (position : Nat) (hlist : policy.value (.list ref)) :
    (Plan.fetch (fun machine => .ok (elementValue machine ref position))
      fun element => [element]).Leaf policy places policy.value :=
  .fetchOk (fun _ hm => policy.getD hm.heap hlist position) fun _ _ => rfl

theorem readText_lawful (hunknown : places .unknown) :
    Intrinsic.readLine.Lawful policy places .calm policy.value :=
  .seq .readLine fun _ => .leaf (.onHeap hunknown (.newText _))

theorem Intrinsic.plan_lawful (fuel : Nat) (intrinsic : Intrinsic) {arguments : List Value}
    (hunknown : places .unknown) (h : ∀ value ∈ arguments, policy.value value) :
    (intrinsic.plan fuel arguments).Lawful policy places .calm policy.value := by
  unfold Intrinsic.plan
  split
  · exact .peek (fun _ _ => rfl) fun text => .seq (.write text) fun _ => .pure (policy.plain rfl)
  · exact .peek (fun _ _ => rfl) fun text => .seq (.write _) fun _ => .pure (policy.plain rfl)
  · exact readText_lawful hunknown
  · exact .peek (fun _ _ => rfl) fun text => .seq (.write text) fun _ => readText_lawful hunknown
  · exact .leaf (.onHeap hunknown (Intrinsic.onHeap_respects fuel _ h))

/-! ### Expressions and statements -/

/-- With the given fuel the plans of expressions and statements are lawful, on trees whose nodes
pass the check of the policy. Those that raise errors of their own say where these are placed,
and statements have to stand at a place. -/
structure Policy.Admits (policy : Policy) (fuel : Nat) : Prop where
  evaluate : ∀ {places expr}, expr.Everywhere policy.check →
    (Plan.evaluate fuel expr).Lawful policy places .calm policy.value
  evaluateAll : ∀ {places exprs}, Expr.EverywhereAll policy.check exprs →
    (Plan.evaluateAll fuel exprs).Lawful policy places .calm
      fun values => ∀ value ∈ values, policy.value value
  test : ∀ {places : Position → Prop} {expr}, expr.Everywhere policy.check →
    places expr.position → (Plan.test fuel expr).Lawful policy places .calm fun _ => True
  choose : ∀ {places : Position → Prop} {branches otherwise},
    Branch.EverywhereAll policy.check branches → otherwise.Everywhere policy.check →
    (∀ branch ∈ branches, places branch.condition.position) →
    (Plan.choose fuel branches otherwise).Lawful policy places .calm policy.value
  equalArm : ∀ {places subject arms}, Arm.EverywhereAll policy.check arms →
    (Plan.equalArm fuel subject arms).Lawful policy places .calm
      fun result => ∀ value ∈ result, policy.value value
  equalCase : ∀ {places subject cases} position, Case.EverywhereAll policy.check cases →
    (Plan.equalCase fuel subject cases position).Lawful policy places .calm fun _ => True
  assignTo : ∀ {places : Position → Prop} {target op value}, target.Everywhere policy.check →
    value.Everywhere policy.check → places .unknown → places target.position →
    (Plan.assignTo fuel target op value).Lawful policy places .calm policy.value
  step : ∀ {places : Position → Prop} {up fixity operand}, operand.Everywhere policy.check →
    places .unknown → places operand.position →
    (Plan.step fuel up fixity operand).Lawful policy places .calm policy.value
  call : ∀ {places : Position → Prop} {callee arguments}, callee.Everywhere policy.check →
    Expr.EverywhereAll policy.check arguments → places .unknown →
    (Plan.call fuel callee arguments).Lawful policy places .calm policy.value
  /-- A call with the wrong number of arguments is refused without a place. -/
  callFunction : ∀ {places : Position → Prop} {closure arguments},
    policy.value (.function closure) → (∀ value ∈ arguments, policy.value value) →
    (arguments.length ≠ closure.declaration.parameters.length → places .unknown) →
    (Plan.callFunction fuel closure arguments).Lawful policy places .calm policy.value
  execute : ∀ {places} {place : Place} {statement}, statement.Everywhere policy.check →
    place.Holds statement →
    (Plan.execute fuel statement).Lawful policy places (.inside place place) fun _ => True
  executeAll : ∀ {places} {place : Place} {statements},
    Stmt.EverywhereAll policy.check statements → (∀ statement ∈ statements, place.Holds statement) →
    (Plan.executeAll fuel statements).Lawful policy places (.inside place place) fun _ => True
  executeClauses : ∀ {places : Position → Prop} {place : Place} {clauses otherwise},
    Clause.EverywhereAll policy.check clauses → Stmt.EverywhereOption policy.check otherwise →
    (∀ clause ∈ clauses, places clause.condition.position) →
    (∀ clause ∈ clauses, place.Holds clause.body) →
    (∀ statement ∈ otherwise, place.Holds statement) →
    (Plan.executeClauses fuel clauses otherwise).Lawful policy places (.inside place place)
      fun _ => True
  executeCases : ∀ {places} {place : Place} {cases}, Case.EverywhereAll policy.check cases →
    (∀ chosen ∈ cases, ∀ statement ∈ chosen.body, place.Holds statement) →
    (Plan.executeCases fuel cases).Lawful policy places (.inside place place) fun _ => True
  whileRounds : ∀ {places : Position → Prop} {place : Place} {condition body},
    condition.Everywhere policy.check → body.Everywhere policy.check →
    places condition.position → place.Holds body →
    (Plan.whileRounds fuel condition body).Lawful policy places (.inside place place) fun _ => True
  doRounds : ∀ {places : Position → Prop} {place : Place} {body condition},
    body.Everywhere policy.check → condition.Everywhere policy.check →
    places condition.position → place.Holds body →
    (Plan.doRounds fuel body condition).Lawful policy places (.inside place place) fun _ => True
  forRounds : ∀ {places : Position → Prop} {place : Place} {condition step body},
    Expr.EverywhereOption policy.check condition → Expr.EverywhereOption policy.check step →
    body.Everywhere policy.check → (∀ expr ∈ condition, places expr.position) →
    place.Holds body →
    (Plan.forRounds fuel condition step body).Lawful policy places (.inside place place)
      fun _ => True
  testOptional : ∀ {places : Position → Prop} {condition},
    Expr.EverywhereOption policy.check condition → (∀ expr ∈ condition, places expr.position) →
    (Plan.testOptional fuel condition).Lawful policy places .calm fun _ => True
  evaluateOptional : ∀ {places expr}, Expr.EverywhereOption policy.check expr →
    (Plan.evaluateOptional fuel expr).Lawful policy places .calm fun _ => True
  foreachRounds : ∀ {places} {place : Place} {element items body},
    (∀ value ∈ items, policy.value value) → body.Everywhere policy.check → place.Holds body →
    (Plan.foreachRounds fuel element items body).Lawful policy places (.inside place place)
      fun _ => True

namespace Policy.Admits

variable {fuel : Nat} {place : Place}

/-! #### Expressions -/

theorem evaluate_succ (ih : policy.Admits fuel) {expr : Expr}
    (h : expr.Everywhere policy.check) :
    (Plan.evaluate (fuel + 1) expr).Lawful policy places .calm policy.value := by
  rw [Plan.evaluate.eq_def]
  refine .expr h ?_
  -- Errors that have no place yet are left to the expression.
  have hunknown := Node.accepts_unknown expr
  have hsite : ∀ place ∈ expr.sites, (Node.expr expr).Accepts place := fun _ => .inl
  cases expr with
  | number _ value => exact .pure (policy.plain rfl)
  | text _ value => exact .leaf (.onHeap hunknown (.newText value))
  | character _ value => exact .pure (policy.plain rfl)
  | boolean _ value => exact .pure (policy.plain rfl)
  | name _ name => exact .leaf (.readVariable name hunknown)
  | list _ items =>
    refine .bind (ih.evaluateAll h.2) fun values hvalues =>
      .holding _ (.leaf (.onHeap hunknown (.newList fun value hvalue => ?_)))
    exact hvalues value (List.mem_toArray.1 hvalue)
  | index _ collection index =>
    refine .bind (ih.evaluate h.2.1) fun collection hcollection => ?_
    refine .bind (.owning _ (ih.evaluate h.2.2)) fun index _ => .holding _ (.leaf (.fetch ?_))
    exact .query hunknown (fun _ _ hm => policy.elementAt hm.heap hcollection)
      (fun _ _ => elementAt_fault) fun _ _ => rfl
  | binary _ left op right =>
    refine .bind (ih.evaluate h.2.1) fun left hleft => ?_
    refine .bind (.owning _ (ih.evaluate h.2.2)) fun right hright => ?_
    exact .holding _ (.leaf (.onHeap hunknown (applyBinary_respects op hleft hright)))
  | unary _ op fixity operand =>
    cases op with
    | increment => exact ih.step h.2 hunknown (hsite _ (by simp [Expr.sites]))
    | decrement => exact ih.step h.2 hunknown (hsite _ (by simp [Expr.sites]))
    | _ => exact .bind (ih.evaluate h.2) fun _ hoperand => unary_lawful _ hunknown hoperand
  | ternary _ condition yes no =>
    have hcondition := hsite condition.position (by simp [Expr.sites])
    exact .seq (ih.test h.2.1 hcondition) fun _ =>
      .ite (ih.evaluate h.2.2.1) (ih.evaluate h.2.2.2)
  | assign _ target op value =>
    exact ih.assignTo h.2.1 h.2.2 hunknown (hsite target.position (by simp [Expr.sites]))
  | call _ callee arguments => exact ih.call h.2.1 h.2.2 hunknown
  | function _ declaration => exact .leaf (.close ⟨policy.anonymous h.1, h.2⟩)
  | choose _ condition yes branches otherwise =>
    obtain ⟨_, hcondition, hyes, hbranches, hotherwise⟩ := h
    have hplace := hsite condition.position (by simp [Expr.sites])
    have hplaces : ∀ branch ∈ branches, (Node.expr _).Accepts branch.condition.position :=
      fun branch hbranch => hsite _ (by
        simp only [Expr.sites, List.mem_cons, List.mem_map]
        exact .inr (.inr ⟨branch, hbranch, rfl⟩))
    exact .seq (ih.test hcondition hplace) fun _ =>
      .ite (ih.evaluate hyes) (ih.choose hbranches hotherwise hplaces)
  | switch _ subject arms =>
    obtain ⟨_, hsubject, harms⟩ := h
    refine .bind (ih.evaluate hsubject) fun value _ => .holding _ ?_
    refine .bind (ih.equalArm harms) fun result hresult => ?_
    cases result with
    | some result => exact .pure (hresult result rfl)
    | none =>
      dsimp only
      split
      · next fallback hfallback =>
        have hmem := List.mem_of_find?_eq_some hfallback
        exact ih.evaluate (Arm.everywhereAll_iff.1 harms fallback hmem).2
      · refine .peek (fun _ _ => rfl) fun _ => .fail (.placed rfl ?_)
        exact hsite subject.position (by simp [Expr.sites])
  | error position fault =>
    refine .fail ⟨policy.malformedExpr h, rfl, fun _ => ?_⟩
    exact hsite position (by simp [Expr.sites, Expr.position])

theorem evaluateAll_succ (ih : policy.Admits fuel) {exprs : List Expr}
    (h : Expr.EverywhereAll policy.check exprs) :
    (Plan.evaluateAll (fuel + 1) exprs).Lawful policy places .calm
      fun values => ∀ value ∈ values, policy.value value := by
  cases exprs with
  | nil =>
    rw [Plan.evaluateAll]
    exact .pure (List.forall_mem_nil _)
  | cons expr rest =>
    rw [Plan.evaluateAll]
    refine .bind (ih.evaluate h.1) fun value hvalue => ?_
    refine .bind (.owning _ (ih.evaluateAll h.2)) fun values hvalues => ?_
    exact .pure (List.forall_mem_cons.2 ⟨hvalue, hvalues⟩)

theorem test_succ (ih : policy.Admits fuel) {expr : Expr} (h : expr.Everywhere policy.check)
    (hplace : places expr.position) :
    (Plan.test (fuel + 1) expr).Lawful policy places .calm fun _ => True := by
  rw [Plan.test]
  refine .bind (ih.evaluate h) fun value _ => ?_
  split
  · exact .pure trivial
  · exact .holding _ (.faultAt rfl hplace)

theorem choose_succ (ih : policy.Admits fuel) {branches : List Branch} {otherwise : Expr}
    (h : Branch.EverywhereAll policy.check branches) (h' : otherwise.Everywhere policy.check)
    (hplaces : ∀ branch ∈ branches, places branch.condition.position) :
    (Plan.choose (fuel + 1) branches otherwise).Lawful policy places .calm policy.value := by
  cases branches with
  | nil =>
    rw [Plan.choose]
    exact ih.evaluate h'
  | cons branch rest =>
    obtain ⟨condition, result⟩ := branch
    obtain ⟨hplace, hrest⟩ := List.forall_mem_cons.1 hplaces
    rw [Plan.choose]
    exact .seq (ih.test h.1 hplace) fun _ => .ite (ih.evaluate h.2.1) (ih.choose h.2.2 h' hrest)

theorem equalArm_succ (ih : policy.Admits fuel) {subject : Value} {arms : List Arm}
    (h : Arm.EverywhereAll policy.check arms) :
    (Plan.equalArm (fuel + 1) subject arms).Lawful policy places .calm
      fun result => ∀ value ∈ result, policy.value value := by
  cases arms with
  | nil =>
    rw [Plan.equalArm]
    exact .pure (fun _ hvalue => nomatch hvalue)
  | cons arm rest =>
    obtain ⟨pattern, result⟩ := arm
    obtain ⟨hpattern, hresult, hrest⟩ := h
    rw [Plan.equalArm]
    cases pattern with
    | none => exact ih.equalArm hrest
    | some pattern =>
      refine .bind (ih.evaluate hpattern) fun candidate _ => .peek (fun _ _ => rfl) fun _ =>
        .ite ?_ ?_
      · refine .bind (.holding _ (ih.evaluate hresult)) fun value hvalue => .pure ?_
        rintro _ ⟨⟩
        exact hvalue
      · exact .seq (.forget _) fun _ => ih.equalArm hrest

theorem equalCase_succ (ih : policy.Admits fuel) {subject : Value} {cases : List Case}
    (position : Nat) (h : Case.EverywhereAll policy.check cases) :
    (Plan.equalCase (fuel + 1) subject cases position).Lawful policy places .calm
      fun _ => True := by
  cases cases with
  | nil =>
    rw [Plan.equalCase]
    exact .pure trivial
  | cons first rest =>
    obtain ⟨pattern, body⟩ := first
    obtain ⟨hpattern, _, hrest⟩ := h
    rw [Plan.equalCase]
    cases pattern with
    | none => exact ih.equalCase _ hrest
    | some pattern =>
      refine .bind (ih.evaluate hpattern) fun candidate _ => .peek (fun _ _ => rfl) fun _ => ?_
      exact .seq (.forget _) fun _ => .ite (.pure trivial) (ih.equalCase _ hrest)

theorem assignTo_succ (ih : policy.Admits fuel) {target : Expr} {op : Option BinaryOp}
    {value : Expr} (h : target.Everywhere policy.check) (h' : value.Everywhere policy.check)
    (hunknown : places .unknown) (hplace : places target.position) :
    (Plan.assignTo (fuel + 1) target op value).Lawful policy places .calm policy.value := by
  rw [Plan.assignTo]
  refine .bind (ih.evaluate h') fun value hvalue => ?_
  split
  · next position name =>
    have hcurrent : (Plan.located position (.read name fun machine =>
        machine.environment.lookup name)).Lawful policy places .calm policy.value :=
      .leaf (.located hplace (.readLocal name (.inl rfl)))
    refine .bind (assignedValue_lawful op hunknown hcurrent hvalue) fun _ hnew => ?_
    exact .seq (.leaf (.assign name hnew)) fun _ => .pure hnew
  · next position collection index =>
    refine .bind (.owning _ (ih.evaluate h.2.1)) fun _ hcollection => ?_
    refine .bind (.owning _ (ih.evaluate h.2.2)) fun _ _ => .holding _ ?_
    refine .bind (.owning _ (.leaf (.located hplace
      (elementPlace_leaf _ _ (.inl rfl) hcollection)))) fun found hfound => ?_
    refine .bind (assignedValue_lawful op hunknown
      (.leaf (elementValue_leaf _ hfound)) hvalue) fun _ hnew => ?_
    exact .seq (.leaf (.setElement hfound _ hnew)) fun _ => .pure hnew
  · exact .holding _ (.fail (.placed rfl hplace))

theorem step_succ (ih : policy.Admits fuel) {up : Bool} {fixity : Fixity} {operand : Expr}
    (h : operand.Everywhere policy.check) (hunknown : places .unknown)
    (hplace : places operand.position) :
    (Plan.step (fuel + 1) up fixity operand).Lawful policy places .calm policy.value := by
  have hresult : ∀ {new old : Value}, policy.value new → policy.value old →
      policy.value (if fixity = .leading then new else old) := by
    intro new old hnew hold
    split <;> assumption
  rw [Plan.step.eq_def]
  dsimp only
  split
  · next position name =>
    refine .bind (.leaf (.located hplace (.readLocal name (.inl rfl)))) fun old hold => ?_
    refine .bind (.owning _ (stepValue_lawful up old hunknown)) fun _ hnew => ?_
    exact .seq (.leaf (.assign name hnew)) fun _ => .pure (hresult hnew hold)
  · next position collection index =>
    refine .bind (ih.evaluate h.2.1) fun _ hcollection => ?_
    refine .bind (.owning _ (ih.evaluate h.2.2)) fun _ _ => .holding _ ?_
    refine .bind (.leaf (elementPlace_leaf _ _ hunknown hcollection)) fun found hfound => ?_
    refine .bind (.leaf (elementValue_leaf _ hfound)) fun old hold => ?_
    refine .bind (.owning _ (stepValue_lawful up old hunknown)) fun _ hnew => ?_
    exact .seq (.leaf (.setElement hfound _ hnew)) fun _ => .pure (hresult hnew hold)
  · exact .fail (.placed rfl hplace)

theorem call_succ (ih : policy.Admits fuel) {callee : Callee} {arguments : List Expr}
    (h : callee.Everywhere policy.check) (h' : Expr.EverywhereAll policy.check arguments)
    (hunknown : places .unknown) :
    (Plan.call (fuel + 1) callee arguments).Lawful policy places .calm policy.value := by
  cases callee with
  | named name =>
    rw [Plan.call]
    split
    · next intrinsic _ =>
      have harity : (Plan.perform (Eval.ofExcept (intrinsic.checkArity arguments.length))).Leaf
          policy places fun _ => True :=
        .perform (.ofExcept hunknown (fun _ _ => trivial) fun _ => Intrinsic.checkArity_fault)
      exact .seq (.leaf harity) fun _ => .bind (ih.evaluateAll h') fun _ hvalues =>
        .holding _ (Intrinsic.plan_lawful fuel intrinsic hunknown hvalues)
    · have hresolve : (Plan.fetch (fun machine => Betty.resolveFunction machine name)
          fun closure => [.function closure]).Leaf policy places
            fun closure => policy.value (.function closure) :=
        .fetch (.query hunknown (fun _ _ hm => policy.resolveFunction hm)
          (fun _ _ => resolveFunction_fault) fun _ _ => rfl)
      refine .bind (.leaf hresolve) fun closure hclosure => .holding _ ?_
      exact .bind (ih.evaluateAll h') fun _ hvalues =>
        ih.callFunction hclosure hvalues fun _ => hunknown
  | computed function =>
    rw [Plan.call]
    refine .bind (ih.evaluate h) fun value hvalue => ?_
    split
    · exact .holding _ (.bind (ih.evaluateAll h') fun _ hvalues =>
        ih.callFunction hvalue hvalues fun _ => hunknown)
    · exact .holding _ (.leaf (.fault rfl hunknown))

theorem callFunction_succ (ih : policy.Admits fuel) {closure : Closure} {arguments : List Value}
    (h : policy.value (.function closure)) (h' : ∀ value ∈ arguments, policy.value value)
    (hunknown : arguments.length ≠ closure.declaration.parameters.length → places .unknown) :
    (Plan.callFunction (fuel + 1) closure arguments).Lawful policy places .calm policy.value := by
  have hbody := Declaration.everywhere_iff.1 (policy.function h).body
  rw [Plan.callFunction]
  split
  · exact .inCall h h' (ih.execute hbody .root)
  · next hrefused => exact .holding _ (.leaf (.fault rfl (hunknown hrefused)))

/-! #### Statements -/

theorem inLoop {plan : Plan Unit} {statement : Stmt} (hloop : statement.isLoop)
    (h : plan.Lawful policy places (.inside (place.within statement) (place.within statement))
      fun _ => True) :
    plan.inLoop.Lawful policy places (.inside place (place.within statement)) fun _ => True :=
  .inBlock (.inControl Control.bracket_loop (fun _ hfits => hfits.enterLoop hloop) h)

theorem inSwitch {plan : Plan Unit} {statement : Stmt} (hswitch : statement.isSwitch)
    (h : plan.Lawful policy places (.inside (place.within statement) (place.within statement))
      fun _ => True) :
    plan.inSwitch.Lawful policy places (.inside place (place.within statement)) fun _ => True :=
  .inBlock (.inControl Control.bracket_switch (fun _ hfits => hfits.enterSwitch hswitch) h)

theorem execute_succ (ih : policy.Admits fuel) {statement : Stmt}
    (h : statement.Everywhere policy.check) (hplace : place.Holds statement) :
    (Plan.execute (fuel + 1) statement).Lawful policy places (.inside place place)
      fun _ => True := by
  rw [Plan.execute.eq_def]
  have hsite : ∀ place ∈ statement.sites, (Node.statement statement).Accepts place :=
    fun _ => .inl
  have hinside : ∀ inner ∈ statement.children, (place.within statement).Holds inner :=
    fun _ hinner => .inside hplace hinner
  cases statement with
  | expr expr =>
    exact .statement h hplace rfl (.bind (ih.evaluate h.2) fun _ _ => .calm (.forget _))
  | block body => exact .statement h hplace rfl (.inBlock (ih.executeAll h.2 hinside))
  | branch condition yes clauses otherwise =>
    refine .statement h hplace rfl ?_
    obtain ⟨_, hcondition, hyes, hclauses, hotherwise⟩ := h
    refine .seq (ih.test hcondition (hsite _ (by simp [Stmt.sites]))) fun _ => .ite ?_ ?_
    · exact ih.execute hyes (hinside yes List.mem_cons_self)
    · refine ih.executeClauses hclauses hotherwise (fun clause hclause => hsite _ ?_) ?_ ?_
      · simp only [Stmt.sites, List.mem_cons, List.mem_map]
        exact .inr ⟨clause, hclause, rfl⟩
      · intro clause hclause
        exact hinside _ (.tail _ (List.mem_append_left _ (List.mem_map_of_mem hclause)))
      · intro statement hstatement
        exact hinside _ (.tail _ (List.mem_append_right _ (Option.mem_toList.2 hstatement)))
  | whileLoop condition body =>
    exact .statement h hplace rfl (inLoop rfl (ih.whileRounds h.2.1 h.2.2
      (hsite _ (by simp [Stmt.sites])) (hinside body List.mem_cons_self)))
  | doWhileLoop body condition =>
    exact .statement h hplace rfl (inLoop rfl (ih.doRounds h.2.1 h.2.2
      (hsite _ (by simp [Stmt.sites])) (hinside body List.mem_cons_self)))
  | forLoop start condition step body =>
    refine .statement h hplace rfl (inLoop rfl ?_)
    obtain ⟨_, hstart, hcondition, hstep, hbody⟩ := h
    refine .seq (ih.evaluateOptional hstart) fun _ =>
      ih.forRounds hcondition hstep hbody (fun expr hexpr => hsite _ ?_)
        (hinside body List.mem_cons_self)
    simp only [Stmt.sites, List.mem_map, Option.mem_toList]
    exact ⟨expr, hexpr, rfl⟩
  | foreachLoop element iterable body =>
    refine .statement h hplace rfl ?_
    obtain ⟨_, hiterable, hbody⟩ := h
    refine .bind (ih.evaluate hiterable) fun collection hcollection => .holding _ ?_
    have hfetch : (Plan.fetch (fun machine => .ok (machine.heap.elements? collection))
        fun items => items.getD []).Leaf policy
          (Node.statement (.foreachLoop element iterable body)).Accepts
          fun items => ∀ found ∈ items, ∀ value ∈ found, policy.value value :=
      .fetchOk (fun _ hm _ hitems => policy.elements? hm.heap hcollection hitems) fun _ _ => rfl
    refine .bind (.leaf hfetch) fun items hitems => ?_
    split
    · next items =>
      exact inLoop rfl (ih.foreachRounds (hitems items rfl) hbody
        (hinside body List.mem_cons_self))
    · exact .calm (.faultAt rfl (hsite _ (by simp [Stmt.sites])))
  | switch subject cases =>
    refine .statement h hplace rfl ?_
    obtain ⟨_, hsubject, hcases⟩ := h
    refine .bind (ih.evaluate hsubject) fun value _ => .holding _ ?_
    refine .seq (ih.equalCase 0 hcases) fun start => ?_
    split
    · next position _ =>
      refine .endSwitch (inSwitch rfl (ih.executeCases ?_ fun chosen hchosen => ?_))
      · exact Case.everywhereAll_iff.2 fun chosen hchosen =>
          Case.everywhereAll_iff.1 hcases chosen (List.mem_of_mem_drop hchosen)
      · exact fun statement hstatement => hinside statement
          (List.mem_flatMap.2 ⟨chosen, List.mem_of_mem_drop hchosen, hstatement⟩)
    · exact .calm (.pure trivial)
  | breakStmt position =>
    refine .jump h hplace (by simp [Stmt.sites]) fun machine hfits => ?_
    rw [hfits.canBreak]
    rfl
  | continueStmt position =>
    refine .jump h hplace (by simp [Stmt.sites]) fun machine hfits => ?_
    rw [hfits.canContinue]
    rfl
  | returnStmt value =>
    refine .statement h hplace rfl ?_
    cases value with
    | none => exact .setReturn (policy.plain rfl)
    | some expr => exact .bind (ih.evaluate h.2) fun _ hvalue => .setReturn hvalue
  | function declaration =>
    obtain ⟨hname, hparameters⟩ := policy.nested h.1
    refine .statement h hplace rfl (.calm (.ite (.fail (.placed rfl ?_)) ?_))
    · exact hsite declaration.position (by simp [Stmt.sites])
    · exact .bind (.leaf (.close ⟨hparameters, h.2⟩)) fun _ hfunction =>
        .holding _ (.leaf (.declare hname hfunction))
  | empty => exact .statement h hplace rfl (.calm (.pure trivial))
  | error position fault =>
    refine .statement h hplace rfl (.calm (.fail ⟨policy.malformedStmt h, rfl, fun _ => ?_⟩))
    exact hsite position (by simp [Stmt.sites])

/-- A plan that goes on if the flow is normal. -/
theorem ifNormal {first second : Plan Unit}
    (hfirst : first.Lawful policy places (.inside place place) fun _ => True)
    (hsecond : second.Lawful policy places (.inside place place) fun _ => True) :
    (first >>= fun _ => Plan.look (fun machine => machine.control.isNormal) >>= fun normal =>
      if normal then second else pure ()).Lawful policy places (.inside place place)
        fun _ => True := by
  refine .afterwards hfirst Eval.checks_isNormal (fun normal hnormal => ?_) fun normal hstop => ?_
  · rw [if_pos hnormal]
    exact hsecond
  · rw [if_neg hstop]
    exact ⟨(), rfl, trivial⟩

/-- The end of a round, after which the next one may follow. -/
theorem nextRound {first again stop : Plan Unit}
    (hfirst : first.Lawful policy places (.inside place place) fun _ => True)
    (hagain : again.Lawful policy places (.inside place place) fun _ => True)
    (hstop : stop.idle? = some ()) :
    (first >>= fun _ => Plan.perform Eval.endIteration >>= fun stops =>
      if stops then stop else again).Lawful policy places (.inside place place)
        fun _ => True := by
  refine .afterwards hfirst Eval.checks_endIteration (fun stops hgo => ?_) fun stops hstops => ?_
  · rw [if_neg (by simp [hgo])]
    exact hagain
  · rw [if_pos (by simpa using hstops)]
    exact ⟨(), hstop, trivial⟩

theorem executeAll_succ (ih : policy.Admits fuel) {statements : List Stmt}
    (h : Stmt.EverywhereAll policy.check statements)
    (hplace : ∀ statement ∈ statements, place.Holds statement) :
    (Plan.executeAll (fuel + 1) statements).Lawful policy places (.inside place place)
      fun _ => True := by
  cases statements with
  | nil =>
    rw [Plan.executeAll]
    exact .calm (.pure trivial)
  | cons statement rest =>
    obtain ⟨hfirst, hrest⟩ := List.forall_mem_cons.1 hplace
    rw [Plan.executeAll]
    exact ifNormal (ih.execute h.1 hfirst) (ih.executeAll h.2 hrest)

theorem executeClauses_succ (ih : policy.Admits fuel) {clauses : List Clause}
    {otherwise : Option Stmt} (h : Clause.EverywhereAll policy.check clauses)
    (h' : Stmt.EverywhereOption policy.check otherwise)
    (hplaces : ∀ clause ∈ clauses, places clause.condition.position)
    (hplace : ∀ clause ∈ clauses, place.Holds clause.body)
    (hotherwise : ∀ statement ∈ otherwise, place.Holds statement) :
    (Plan.executeClauses (fuel + 1) clauses otherwise).Lawful policy places (.inside place place)
      fun _ => True := by
  cases clauses with
  | nil =>
    cases otherwise with
    | none =>
      rw [Plan.executeClauses]
      exact .calm (.pure trivial)
    | some statement =>
      rw [Plan.executeClauses]
      exact ih.execute h' (hotherwise statement rfl)
  | cons clause rest =>
    obtain ⟨condition, body⟩ := clause
    obtain ⟨hcondition, hconditions⟩ := List.forall_mem_cons.1 hplaces
    obtain ⟨hfirst, hrest⟩ := List.forall_mem_cons.1 hplace
    rw [Plan.executeClauses]
    exact .seq (ih.test h.1 hcondition) fun _ =>
      .ite (ih.execute h.2.1 hfirst) (ih.executeClauses h.2.2 h' hconditions hrest hotherwise)

theorem executeCases_succ (ih : policy.Admits fuel) {cases : List Case}
    (h : Case.EverywhereAll policy.check cases)
    (hplace : ∀ chosen ∈ cases, ∀ statement ∈ chosen.body, place.Holds statement) :
    (Plan.executeCases (fuel + 1) cases).Lawful policy places (.inside place place)
      fun _ => True := by
  cases cases with
  | nil =>
    rw [Plan.executeCases]
    exact .calm (.pure trivial)
  | cons first rest =>
    obtain ⟨pattern, body⟩ := first
    obtain ⟨hfirst, hrest⟩ := List.forall_mem_cons.1 hplace
    rw [Plan.executeCases]
    exact ifNormal (ih.executeAll h.2.1 hfirst) (ih.executeCases h.2.2 hrest)

theorem whileRounds_succ (ih : policy.Admits fuel) {condition : Expr} {body : Stmt}
    (h : condition.Everywhere policy.check) (h' : body.Everywhere policy.check)
    (hcondition : places condition.position) (hbody : place.Holds body) :
    (Plan.whileRounds (fuel + 1) condition body).Lawful policy places (.inside place place)
      fun _ => True := by
  rw [Plan.whileRounds]
  refine .seq (ih.test h hcondition) fun _ => .ite ?_ (.calm (.pure trivial))
  exact nextRound (ih.execute h' hbody) (ih.whileRounds h h' hcondition hbody) rfl

theorem doRounds_succ (ih : policy.Admits fuel) {body : Stmt} {condition : Expr}
    (h : body.Everywhere policy.check) (h' : condition.Everywhere policy.check)
    (hcondition : places condition.position) (hbody : place.Holds body) :
    (Plan.doRounds (fuel + 1) body condition).Lawful policy places (.inside place place)
      fun _ => True := by
  rw [Plan.doRounds]
  refine nextRound (ih.execute h hbody) (.seq (ih.test h' hcondition) fun _ => ?_) rfl
  exact .ite (ih.doRounds h h' hcondition hbody) (.calm (.pure trivial))

theorem forRounds_succ (ih : policy.Admits fuel) {condition step : Option Expr} {body : Stmt}
    (h : Expr.EverywhereOption policy.check condition)
    (h' : Expr.EverywhereOption policy.check step) (h'' : body.Everywhere policy.check)
    (hcondition : ∀ expr ∈ condition, places expr.position) (hbody : place.Holds body) :
    (Plan.forRounds (fuel + 1) condition step body).Lawful policy places (.inside place place)
      fun _ => True := by
  rw [Plan.forRounds]
  refine .seq (ih.testOptional h hcondition) fun _ => .ite ?_ (.calm (.pure trivial))
  refine nextRound (ih.execute h'' hbody) (.seq (ih.evaluateOptional h') fun _ => ?_) rfl
  exact ih.forRounds h h' h'' hcondition hbody

theorem testOptional_succ (ih : policy.Admits fuel) {condition : Option Expr}
    (h : Expr.EverywhereOption policy.check condition)
    (hcondition : ∀ expr ∈ condition, places expr.position) :
    (Plan.testOptional (fuel + 1) condition).Lawful policy places .calm fun _ => True := by
  cases condition with
  | none =>
    rw [Plan.testOptional]
    exact .pure trivial
  | some condition =>
    rw [Plan.testOptional]
    exact ih.test h (hcondition condition rfl)

theorem evaluateOptional_succ (ih : policy.Admits fuel) {expr : Option Expr}
    (h : Expr.EverywhereOption policy.check expr) :
    (Plan.evaluateOptional (fuel + 1) expr).Lawful policy places .calm fun _ => True := by
  cases expr with
  | none =>
    rw [Plan.evaluateOptional]
    exact .pure trivial
  | some expr =>
    rw [Plan.evaluateOptional]
    exact .bind (ih.evaluate h) fun _ _ => .forget _

theorem foreachRounds_succ (ih : policy.Admits fuel) {element : String} {items : List Value}
    {body : Stmt} (h : ∀ value ∈ items, policy.value value) (h' : body.Everywhere policy.check)
    (hbody : place.Holds body) :
    (Plan.foreachRounds (fuel + 1) element items body).Lawful policy places (.inside place place)
      fun _ => True := by
  cases items with
  | nil =>
    rw [Plan.foreachRounds]
    exact .calm (.pure trivial)
  | cons item rest =>
    obtain ⟨hitem, hrest⟩ := List.forall_mem_cons.1 h
    rw [Plan.foreachRounds]
    refine .seq (.holding _ (.leaf (.assign element hitem))) fun _ => ?_
    exact nextRound (.owning _ (ih.execute h' hbody)) (ih.foreachRounds hrest h' hbody) rfl

end Policy.Admits

/-- The plans of all expressions and statements are lawful. -/
theorem Policy.admits (policy : Policy) : ∀ fuel, policy.Admits fuel
  | 0 => by constructor <;> intros <;> exact .exhausted
  | fuel + 1 => by
    have ih := policy.admits fuel
    exact {
      evaluate := ih.evaluate_succ
      evaluateAll := ih.evaluateAll_succ
      test := ih.test_succ
      choose := ih.choose_succ
      equalArm := ih.equalArm_succ
      equalCase := ih.equalCase_succ
      assignTo := ih.assignTo_succ
      step := ih.step_succ
      call := ih.call_succ
      callFunction := ih.callFunction_succ
      execute := ih.execute_succ
      executeAll := ih.executeAll_succ
      executeClauses := ih.executeClauses_succ
      executeCases := ih.executeCases_succ
      whileRounds := ih.whileRounds_succ
      doRounds := ih.doRounds_succ
      forRounds := ih.forRounds_succ
      testOptional := ih.testOptional_succ
      evaluateOptional := ih.evaluateOptional_succ
      foreachRounds := ih.foreachRounds_succ }

/-! #### What expressions and statements do -/

theorem Plan.Lawful.keeps {mode : Mode} {made : α → Prop} {plan : Plan α}
    (h : plan.Lawful policy places mode made) {machine : Machine} (hm : policy.Holds machine) :
    (plan.run machine).Meets (fun value after => made value ∧ policy.Keeps machine after)
      (fun error after => policy.fault error.fault ∧ policy.Keeps machine after) True :=
  (h.sound machine hm).imp (fun _ _ hdone => ⟨hdone.1, hdone.2.1⟩)
    (fun _ _ hfailed => ⟨hfailed.1, hfailed.2.1⟩) id

section

variable (policy) (fuel : Nat) {machine : Machine} (hm : policy.Holds machine)

include hm

theorem Policy.evaluate_keeps {expr : Expr} (h : expr.Everywhere policy.check) :
    (evaluate fuel expr machine).Meets
      (fun value after => policy.value value ∧ policy.Keeps machine after)
      (fun error after => policy.fault error.fault ∧ policy.Keeps machine after) True :=
  have hlawful : (Plan.evaluate fuel expr).Lawful policy (fun _ => True) .calm policy.value :=
    (policy.admits fuel).evaluate h
  hlawful.keeps hm

/-- A statement on its own is the body of a function. -/
theorem Policy.execute_keeps {statement : Stmt} (h : statement.Everywhere policy.check) :
    (execute fuel statement machine).Meets (fun _ after => policy.Keeps machine after)
      (fun error after => policy.fault error.fault ∧ policy.Keeps machine after) True :=
  have hlawful : (Plan.execute fuel statement).Lawful policy (fun _ => True)
      (.inside (.start ⟨0, .unknown, none, [], statement⟩)
        (.start ⟨0, .unknown, none, [], statement⟩)) fun _ => True :=
    (policy.admits fuel).execute h .root
  (hlawful.keeps hm).imp (fun _ _ hdone => hdone.2) (fun _ _ hfailed => hfailed) id

end

/-! #### Plans of which nothing is asked -/

namespace Plan

variable (fuel : Nat)

theorem evaluate_lawful (expr : Expr) :
    (evaluate fuel expr).Lawful (.only .any) (fun _ => True) .calm (Policy.only .any).value :=
  ((Policy.only .any).admits fuel).evaluate (expr.everywhere_of_vacuous CodePolicy.any_vacuous)

theorem test_lawful (expr : Expr) :
    (test fuel expr).Lawful (.only .any) (fun _ => True) .calm fun _ => True :=
  ((Policy.only .any).admits fuel).test (expr.everywhere_of_vacuous CodePolicy.any_vacuous) trivial

theorem testOptional_lawful (expr : Option Expr) :
    (testOptional fuel expr).Lawful (.only .any) (fun _ => True) .calm fun _ => True :=
  ((Policy.only .any).admits fuel).testOptional
    (Expr.everywhereOption_of_vacuous CodePolicy.any_vacuous expr) fun _ _ => trivial

theorem evaluateOptional_lawful (expr : Option Expr) :
    (evaluateOptional fuel expr).Lawful (.only .any) (fun _ => True) .calm fun _ => True :=
  ((Policy.only .any).admits fuel).evaluateOptional
    (Expr.everywhereOption_of_vacuous CodePolicy.any_vacuous expr)

theorem equalCase_lawful (subject : Value) (cases : List Case) (position : Nat) :
    (equalCase fuel subject cases position).Lawful (.only .any) (fun _ => True) .calm
      fun _ => True :=
  ((Policy.only .any).admits fuel).equalCase position
    (Case.everywhereAll_of_vacuous CodePolicy.any_vacuous cases)

/-- A statement on its own is the body of a function. -/
theorem execute_lawful (statement : Stmt) :
    let place := Place.start ⟨0, .unknown, none, [], statement⟩
    (execute fuel statement).Lawful (.only .any) (fun _ => True) (.inside place place)
      fun _ => True :=
  ((Policy.only .any).admits fuel).execute
    (statement.everywhere_of_vacuous CodePolicy.any_vacuous) .root

end Plan

/-! ### Runs -/

theorem Program.mem_of_function? {program : Program} {name : String} {found : Declaration}
    (h : program.function? name = some found) : found ∈ program.functions :=
  List.mem_reverse.1 (List.mem_of_find?_eq_some h)

/-- A global variable is declared unless there is one of that name. -/
theorem declareGlobal_eq (name : String) (position : Position) (machine : Machine) :
    declareGlobal name position machine =
      if machine.environment.globals.contains name then
        .failed ((RuntimeError.unplaced (.duplicateGlobal name)).locate position) machine
      else .done () { machine with environment := machine.environment.bindGlobal name .none } := by
  simp only [declareGlobal, Eval.located, Environment.declareGlobal]
  cases machine.environment.globals.contains name <;> rfl

theorem declareGlobal_leaf {name : String} {position : Position} (hplace : places position)
    (hbind : ∀ {env}, policy.environment env → policy.environment (env.bindGlobal name .none)) :
    (Plan.perform (declareGlobal name position)).Leaf policy places fun _ => True := by
  refine ⟨rfl, fun machine hm => ?_, fun machine _ => ?_, fun machine console => ?_, fun _ => rfl⟩
  · change (declareGlobal name position machine).Meets _ _ _
    rw [declareGlobal_eq]
    split
    · exact ⟨.locate (.unplaced rfl (.inl rfl)) hplace, hm.keeps, rfl⟩
    · exact ⟨trivial, ⟨⟨hbind hm.environment, hm.heap, hm.returned, hm.functions⟩, rfl⟩, rfl⟩
  · intro after hafter
    change (declareGlobal name position machine).state? = _ at hafter
    rw [declareGlobal_eq] at hafter
    split at hafter
    · cases hafter
      exact .stay
    · next hnew =>
      cases hafter
      exact .global .none hnew
  · change declareGlobal name position _ = (declareGlobal name position machine).mapState _
    rw [declareGlobal_eq, declareGlobal_eq]
    change (if machine.environment.globals.contains name then _ else _) = _
    split <;> rfl

theorem registerFunction_leaf {declaration : Declaration} (h : policy.Allows declaration)
    (hplace : places declaration.position) :
    (Plan.perform (registerFunction declaration)).Leaf policy places fun _ => True := by
  refine .perform ?_
  unfold registerFunction
  split
  · exact .pure trivial
  · split
    · exact .fail (.placed rfl hplace)
    · refine ⟨fun machine hm => ⟨trivial, ⟨?_, rfl, rfl⟩⟩, fun _ _ => rfl⟩
      exact ⟨hm.environment, hm.heap, hm.returned, hm.functions.put _ h⟩

theorem declareGlobals_lawful {names : List (String × Position)}
    (hplaces : ∀ declared ∈ names, places declared.2)
    (hbind : ∀ {env} name, policy.environment env →
      policy.environment (env.bindGlobal name .none)) :
    (Plan.declareGlobals names).Lawful policy places .calm fun _ => True := by
  induction names with
  | nil => exact .pure trivial
  | cons declared rest ih =>
    obtain ⟨name, position⟩ := declared
    obtain ⟨hplace, hrest⟩ := List.forall_mem_cons.1 hplaces
    exact .seq (.leaf (declareGlobal_leaf hplace (hbind name))) fun _ => ih hrest

theorem registerFunctions_lawful {declarations : List Declaration}
    (h : ∀ declaration ∈ declarations, policy.Allows declaration)
    (hplaces : ∀ declaration ∈ declarations, places declaration.position) :
    (Plan.registerFunctions declarations).Lawful policy places .calm fun _ => True := by
  induction declarations with
  | nil => exact .pure trivial
  | cons declaration rest ih =>
    obtain ⟨hallowed, hrest⟩ := List.forall_mem_cons.1 h
    obtain ⟨hplace, hothers⟩ := List.forall_mem_cons.1 hplaces
    exact .seq (.leaf (registerFunction_leaf hallowed hplace)) fun _ => ih hrest hothers

theorem Program.mainPlan_lawful {program : Program}
    (h : ∀ declaration ∈ program.functions, policy.Allows declaration) (fuel : Nat) :
    (program.mainPlan fuel).Lawful policy (· ∈ program.sites) .calm policy.value := by
  have hplaces : ∀ declaration ∈ program.functions, declaration.position ∈ program.sites :=
    fun _ hdeclaration => List.mem_append_right _ (List.mem_map_of_mem hdeclaration)
  refine .seq (registerFunctions_lawful h hplaces) fun _ => ?_
  split
  · exact .leaf (.perform (.fail ⟨policy.wellFormed rfl, rfl, fun hplace => nomatch hplace⟩))
  · next main hmain =>
    have hmem := program.mem_of_function? hmain
    split
    · next hparameters =>
      refine (policy.admits fuel).callFunction (policy.define (h main hmem)) (by simp)
        fun harity => ?_
      simp [Closure.ofProgram, List.isEmpty_iff.1 hparameters] at harity
    · exact .fail (.placed rfl (hplaces main hmem))

/-- The plan of a run is lawful if the policy allows the functions of the program, and global
variables that hold nothing. -/
theorem Program.plan_lawful {program : Program}
    (h : ∀ declaration ∈ program.functions, policy.Allows declaration)
    (hbind : ∀ {env} name, policy.environment env → policy.environment (env.bindGlobal name .none))
    (fuel : Nat) :
    (program.plan fuel).Lawful policy (· ∈ program.sites) .calm policy.value := by
  have hplaces : ∀ declared ∈ program.globals, declared.2 ∈ program.sites :=
    fun _ hdeclared => List.mem_append_left _ (List.mem_map_of_mem hdeclared)
  exact .seq (declareGlobals_lawful hplaces hbind) fun _ => Program.mainPlan_lawful h fuel

/-- The plan of a run is lawful if the functions of the program are what may be at hand. -/
theorem Program.plan_lawful_only {code : CodePolicy} {program : Program}
    (h : ∀ declaration ∈ program.functions, code.Allows declaration) (fuel : Nat) :
    (program.plan fuel).Lawful (.only code) (· ∈ program.sites) .calm (Policy.only code).value := by
  have hnone : Value.none.Only code.Allows := trivial
  exact plan_lawful h (fun name henv => Environment.Only.bindGlobal henv name hnone) fuel

end Betty
