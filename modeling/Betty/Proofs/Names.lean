import Betty.Proofs.Machine.Admits

/-!
# Where names are bound

A name is bound in the innermost frame, unless it is bound already and only changes its
value. The innermost frame is the one that was innermost before, or one that is new since
then: blocks and calls bring a new one, and they take it away again. So a statement binds
names in no other frame that existed before it, and one that is a block of its own binds
none in any of them.

## Main definitions

* `Environment.Binds`: what has happened to the names since an earlier environment.
* `Policy.naming`: the policy that names are bound in new frames and in a given one only.
* `Stmt.opensBlock`: a statement that is a block of its own.

## Main results

* `names_stay_in_block`: no statement and no expression binds names elsewhere.
-/

namespace Betty

/-! ### Names in frames -/

/-- Since the earlier environment no frame has lost a name, the global variables are the
same, and of the frames that there were only those that are open have gained names. -/
structure Environment.Binds (before : Environment) (isOpen : FrameRef → Prop)
    (after : Environment) : Prop where
  kept : ∀ ref name, (before.frame ref).contains name → (after.frame ref).contains name
  globals : ∀ name, after.globals.contains name = before.globals.contains name
  gained : ∀ ref < before.frames.size, ¬isOpen ref →
    ∀ name, (after.frame ref).contains name → (before.frame ref).contains name

namespace Environment.Binds

variable {before env : Environment} {isOpen : FrameRef → Prop}

theorem refl (env : Environment) : env.Binds isOpen env :=
  ⟨fun _ _ h => h, fun _ => rfl, fun _ _ _ _ h => h⟩

theorem push (h : before.Binds isOpen env) : before.Binds isOpen env.push := by
  refine ⟨fun ref name hname => ?_, h.globals, fun ref hold hopen name hname => ?_⟩
  · rw [frame_push]
    exact h.kept ref name hname
  · rw [frame_push] at hname
    exact h.gained ref hold hopen name hname

theorem activate (h : before.Binds isOpen env) (chain : Chain) :
    before.Binds isOpen { env with chain := chain } :=
  ⟨h.kept, h.globals, h.gained⟩

/-- A binding in a frame that is open or new. -/
theorem bindIn (h : before.Binds isOpen env) {ref : FrameRef}
    (href : isOpen ref ∨ before.frames.size ≤ ref) (name : String) (value : Value) :
    before.Binds isOpen (env.bindIn ref name value) := by
  refine ⟨fun other found hfound => ?_, h.globals, fun other hold hopen found hfound => ?_⟩
  · exact contains_bindIn (h.kept other found hfound) ref name value
  · rcases contains_of_contains_bindIn hfound with ⟨rfl, _⟩ | hfound
    · rcases href with href | hnew
      · exact absurd href hopen
      · exact absurd hold (Nat.not_lt.2 hnew)
    · exact h.gained other hold hopen found hfound

/-- A new value of a name that the frame has already. -/
theorem rebindIn (h : before.Binds isOpen env) {ref : FrameRef} {name : String}
    (hname : (env.frame ref).contains name) (value : Value) :
    before.Binds isOpen (env.bindIn ref name value) := by
  refine ⟨fun other found hfound => ?_, h.globals, fun other hold hopen found hfound => ?_⟩
  · exact contains_bindIn (h.kept other found hfound) ref name value
  · have hhad : (env.frame other).contains found := by
      rcases contains_of_contains_bindIn hfound with ⟨rfl, rfl⟩ | hfound
      · exact hname
      · exact hfound
    exact h.gained other hold hopen found hhad

/-- A new value of a global variable. -/
theorem rebindGlobal (h : before.Binds isOpen env) {name : String}
    (hname : env.globals.contains name) (value : Value) :
    before.Binds isOpen (env.bindGlobal name value) := by
  refine ⟨h.kept, fun found => ?_, h.gained⟩
  rw [← h.globals found]
  exact Table.contains_put_of_contains hname found value

end Environment.Binds

/-! ### The policy -/

/-- Names have been bound in open and new frames only, and the innermost active frame is one
of these. -/
structure Environment.Naming (origin : Environment) (isOpen : FrameRef → Prop)
    (env : Environment) : Prop extends origin.Binds isOpen env where
  size : origin.frames.size ≤ env.frames.size
  innermost : ∃ ref rest, env.chain = ref :: rest ∧ (isOpen ref ∨ origin.frames.size ≤ ref)

namespace Environment.Naming

variable {origin env : Environment} {isOpen : FrameRef → Prop}

theorem push (h : origin.Binds isOpen env) (hsize : origin.frames.size ≤ env.frames.size) :
    origin.Naming isOpen env.push :=
  ⟨h.push, (env.size_push).symm ▸ Nat.le_succ_of_le hsize, _, _, rfl, .inr hsize⟩

theorem declareLocal (h : origin.Naming isOpen env) (name : String) (value : Value) :
    origin.Naming isOpen (env.declareLocal name value) := by
  obtain ⟨ref, rest, hchain, href⟩ := h.innermost
  have hsame : env.declareLocal name value = env.bindIn ref name value := by
    unfold Environment.declareLocal
    rw [hchain]
  rw [hsame]
  refine ⟨h.toBinds.bindIn href name value, ?_, ref, rest, hchain, href⟩
  rw [size_bindIn]
  exact h.size

theorem set (h : origin.Naming isOpen env) (name : String) (value : Value) :
    origin.Naming isOpen (env.set name value) := by
  rcases env.set_cases name value with ⟨ref, _, hname, heq⟩ | ⟨_, ⟨hglobal, heq⟩ | ⟨_, heq⟩⟩
  -- The frame may be any active one, but it has the name already.
  · rw [heq]
    refine ⟨h.toBinds.rebindIn hname value, ?_, h.innermost⟩
    rw [size_bindIn]
    exact h.size
  · rw [heq]
    exact ⟨h.toBinds.rebindGlobal hglobal value, h.size, h.innermost⟩
  · rw [heq]
    exact h.declareLocal name value

end Environment.Naming

/-- The policy that names are bound in new frames and in open ones only. -/
def Policy.naming (origin : Environment) (isOpen : FrameRef → Prop) : Policy where
  toCodePolicy := .any
  value _ := True
  heap _ := True
  plain _ := trivial
  items _ _ _ _ := trivial
  alloc _ _ := ⟨trivial, trivial⟩
  modify _ _ _ := trivial
  intern _ _ := trivial
  number _ := trivial
  environment := origin.Naming isOpen
  function {closure} _ := CodePolicy.any_allows closure.declaration
  define _ := trivial
  close _ _ _ := trivial
  get? _ _ := trivial
  set name _ henv _ := henv.set name _
  declareLocal henv _ _ := henv.declareLocal _ _
  push henv := .push henv.toBinds henv.size
  enterCall henv _ := .push (henv.toBinds.activate _) henv.size
  restore hbefore hafter := ⟨hafter.toBinds.activate _, hafter.size, hbefore.innermost⟩

variable {origin : Environment} {isOpen : FrameRef → Prop}

theorem Policy.naming_holds {machine : Machine}
    (h : origin.Naming isOpen machine.environment) : (naming origin isOpen).Holds machine :=
  ⟨h, trivial, trivial, fun entry _ => CodePolicy.any_allows entry.2⟩

/-! ### Blocks -/

/-- Is the statement a block of its own? A loop over a collection is not one, because the
collection is evaluated outside of its block. -/
def Stmt.opensBlock : Stmt → Bool
  | block _ | forLoop _ _ _ _ | whileLoop _ _ | doWhileLoop _ _ => true
  | _ => false

/-- A statement that is a block of its own executes something in a block. -/
theorem Stmt.opensBlock_inBlock (fuel : Nat) {statement : Stmt} (h : statement.opensBlock) :
    ∃ plan : Plan Unit,
      Plan.execute (fuel + 1) statement = .within (.statement statement) (.inBlock plan) ∧
      ∀ policy : Policy, statement.Everywhere policy.check →
        ∃ mode, plan.Lawful policy (fun _ => True) mode fun _ => True := by
  let place := Place.start ⟨0, .unknown, none, [], statement⟩
  have hinside : ∀ inner ∈ statement.children, (place.within statement).Holds inner :=
    fun _ hinner => .inside .root hinner
  have hloop : ∀ {policy : Policy} {plan : Plan Unit}, statement.isLoop →
      plan.Lawful policy (fun _ => True)
        (.inside (place.within statement) (place.within statement)) (fun _ => True) →
      ∃ mode, (Plan.inControl Control.enterLoop Control.exitLoop plan).Lawful policy
        (fun _ => True) mode fun _ => True :=
    fun hstatement hplan => ⟨.inside place _, .inControl Control.bracket_loop
      (fun _ hfits => hfits.enterLoop hstatement) hplan⟩
  cases statement with
  | block body =>
    exact ⟨_, by rw [Plan.execute.eq_def], fun policy hs =>
      ⟨_, (policy.admits fuel).executeAll hs.2 hinside⟩⟩
  | forLoop start condition step body =>
    refine ⟨_, by rw [Plan.execute.eq_def]; rfl, fun policy hs => hloop rfl ?_⟩
    obtain ⟨_, hstart, hcondition, hstep, hbody⟩ := hs
    exact .seq ((policy.admits fuel).evaluateOptional hstart) fun _ =>
      (policy.admits fuel).forRounds hcondition hstep hbody (fun _ _ => trivial)
        (hinside body List.mem_cons_self)
  | whileLoop condition body =>
    refine ⟨_, by rw [Plan.execute.eq_def]; rfl, fun policy hs => hloop rfl ?_⟩
    exact (policy.admits fuel).whileRounds hs.2.1 hs.2.2 trivial (hinside body List.mem_cons_self)
  | doWhileLoop body condition =>
    refine ⟨_, by rw [Plan.execute.eq_def]; rfl, fun policy hs => hloop rfl ?_⟩
    exact (policy.admits fuel).doRounds hs.2.1 hs.2.2 trivial (hinside body List.mem_cons_self)
  | _ => cases h

/-- A statement that is a block of its own binds no name in a frame that existed before. -/
theorem execute_opensBlock (fuel : Nat) {statement : Stmt} (h : statement.opensBlock)
    (machine : Machine) :
    (execute fuel statement machine).Meets
      (fun _ after => machine.environment.Binds (fun _ => False) after.environment)
      (fun _ after => machine.environment.Binds (fun _ => False) after.environment) True := by
  cases fuel with
  | zero => trivial
  | succ fuel =>
    obtain ⟨plan, hexecute, hlawful⟩ := statement.opensBlock_inBlock fuel h
    -- Seen from inside the block, no frame that existed before it is innermost.
    let policy := Policy.naming machine.environment fun _ => False
    have hinside : policy.Holds machine.enterBlock :=
      Policy.naming_holds (.push (.refl _) (Nat.le_refl _))
    obtain ⟨_, hplan⟩ := hlawful policy (statement.everywhere_of_vacuous CodePolicy.any_vacuous)
    unfold execute
    rw [hexecute, Plan.run, Plan.run_inBlock, Outcome.meets_mapState]
    exact (hplan.keeps hinside).imp (fun _ _ h => h.2.environment.toBinds.activate _)
      (fun _ _ h => h.2.environment.toBinds.activate _) id

/-- No block leaks a binding. However a statement or an expression ends: no frame loses a
name, there are no new global variables, and of the frames that there were only the one that
was innermost can have gained names. A statement that is a block of its own has not added
names to that one either. -/
theorem names_stay_in_block (fuel : Nat) (machine : Machine) (ref : FrameRef) (rest : Chain)
    (h : machine.environment.chain = ref :: rest) :
    (∀ expr, (evaluate fuel expr machine).Meets
      (fun _ after => machine.environment.Binds (· = ref) after.environment)
      (fun _ after => machine.environment.Binds (· = ref) after.environment) True) ∧
    (∀ statement, (execute fuel statement machine).Meets
      (fun _ after => machine.environment.Binds (· = ref) after.environment)
      (fun _ after => machine.environment.Binds (· = ref) after.environment) True) ∧
    (∀ statement : Stmt, statement.opensBlock → (execute fuel statement machine).Meets
      (fun _ after => machine.environment.Binds (fun _ => False) after.environment)
      (fun _ after => machine.environment.Binds (fun _ => False) after.environment) True) := by
  let policy := Policy.naming machine.environment (· = ref)
  have hholds : policy.Holds machine :=
    Policy.naming_holds ⟨.refl _, Nat.le_refl _, ref, rest, h, .inl rfl⟩
  refine ⟨fun expr => ?_, fun statement => ?_, fun statement hopens => ?_⟩
  · have hcheck := expr.everywhere_of_vacuous CodePolicy.any_vacuous
    exact (policy.evaluate_keeps fuel hholds hcheck).imp (fun _ _ h => h.2.environment.toBinds)
      (fun _ _ h => h.2.environment.toBinds) id
  · have hcheck := statement.everywhere_of_vacuous CodePolicy.any_vacuous
    exact (policy.execute_keeps fuel hholds hcheck).imp (fun _ _ h => h.environment.toBinds)
      (fun _ _ h => h.2.environment.toBinds) id
  · exact execute_opensBlock fuel hopens machine

/-- A function that assigns to a name, bound in the frame that it has captured. -/
def Environment.withFunction : Environment :=
  empty.push.bindIn 0 "f" (.function ⟨⟨0, ⟨1, 5⟩, none, [],
    .expr (.assign ⟨1, 14⟩ (.name ⟨1, 14⟩ "y") none (.boolean ⟨1, 18⟩ true))⟩, [0], some 0⟩)

/-- A block that calls the function and assigns to another name. -/
def Stmt.callInBlock : Stmt :=
  .block [.expr (.call ⟨2, 3⟩ (.named "f") []),
    .expr (.assign ⟨3, 3⟩ (.name ⟨3, 3⟩ "x") none (.boolean ⟨3, 7⟩ true))]

theorem names_stay_in_block_callInBlock :
    ∃ after, execute 12 Stmt.callInBlock
        { Machine.initial (.ofInput []) with environment := .withFunction } = .done () after ∧
      after.environment.frames.size = 3 ∧
      ∀ name, (after.environment.frame 0).contains name → name = "f" := by
  refine ⟨_, rfl, ?_, fun name hname => ?_⟩
  · rfl
  have hbinds := (names_stay_in_block 12
    { Machine.initial (.ofInput []) with environment := .withFunction } 0 [] rfl).2.2
    Stmt.callInBlock rfl
  have hold := hbinds.gained 0 (by decide) not_false name hname
  rcases Environment.contains_of_contains_bindIn hold with ⟨_, heq⟩ | hempty
  · exact heq
  · cases hempty

end Betty
