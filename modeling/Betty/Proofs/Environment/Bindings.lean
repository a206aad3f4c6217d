import Betty.Proofs.Environment.Tree
import Betty.Proofs.Handles
import Betty.Run

/-!
# What reading and writing of names have to do with each other

A name can be bound in several frames of the active chain and among the global variables at
once. An assignment looks for the place that receives the value, and reading looks for the
place that has it; these are two searches, and they agree. Declarations in a new frame are
gone when the frame is left.

An assignment that replaces a value gives this value up while the frame is lent out. So it does
not return if this is the end of a function that has kept the frame.

## Main definitions

* `Environment.Place`, `Environment.bindings`: a frame or the global variables, and what is bound
  there.
* `Environment.Receives`: the place that an assignment goes to.
* `Environment.Rebinds`: a name has a new value in one place, and nothing else is different.

## Main results

* `Environment.set_rebinds`, `Environment.declareLocal_rebinds`: assignments and declarations
  change one place, at one name.
* `Environment.leaveCall_forgets`: declarations in a new frame do not show after it is left.
* `bindings_change_in_one_place`: the laws of reading and writing, after any operations.
-/

namespace Betty

/-- Where names are bound: in a frame, or among the global variables. -/
inductive Environment.Place where
  | frame (ref : FrameRef)
  | globals

namespace Environment

/-! ### Places -/

/-- What is bound in a place. -/
def bindings (env : Environment) : Place → Frame
  | .frame ref => env.frame ref
  | .globals => env.globals

/-- The innermost active frame, or the global variables if no frame is active. -/
def innermost (env : Environment) : Place :=
  match env.chain with
  | ref :: _ => .frame ref
  | [] => .globals

/-- The frame that is the place. -/
def Place.frame? : Place → Option FrameRef
  | .frame ref => some ref
  | .globals => none

/-- Binds a name in a place. -/
def bindAt (env : Environment) (name : String) (value : Value) : Place → Environment
  | .frame ref => env.bindIn ref name value
  | .globals => env.bindGlobal name value

/-- An assignment to the name goes to the place: the innermost active frame that binds the
name, or else the global variables if the name is one of them, or else the innermost frame. -/
inductive Receives (env : Environment) (name : String) : Place → Prop
  | active {inside outside : Chain} {ref : FrameRef} (hchain : env.chain = inside ++ ref :: outside)
      (hinside : ∀ inner ∈ inside, (env.frame inner).get? name = none)
      (hbound : (env.frame ref).contains name) : Receives env name (.frame ref)
  | global (hactive : ∀ ref ∈ env.chain, (env.frame ref).get? name = none)
      (hbound : env.globals.contains name) : Receives env name .globals
  | new (hactive : ∀ ref ∈ env.chain, (env.frame ref).get? name = none)
      (hglobal : env.globals.get? name = none) : Receives env name env.innermost

/-- The name has the value in the place afterwards. All other names have there what they had,
all other places are as they were, and the same frames are active. -/
structure Rebinds (before : Environment) (place : Place) (name : String) (value : Value)
    (after : Environment) : Prop where
  chain : after.chain = before.chain
  size : after.frames.size = before.frames.size
  here : (after.bindings place).get? name = some value
  elsewhere : ∀ other found, other ≠ place ∨ found ≠ name →
    (after.bindings other).get? found = (before.bindings other).get? found

/-- All frames of the active chain exist. -/
def ChainExists (env : Environment) : Prop :=
  ∀ ref ∈ env.chain, ref < env.frames.size

variable {env before after : Environment} {name : String} {value : Value} {place : Place}

/-! ### Reading -/

/-- Reading depends on what the active frames and the global variables have for the name. -/
theorem local?_congr (hchain : after.chain = before.chain)
    (hframe : ∀ ref ∈ before.chain, (after.frame ref).get? name = (before.frame ref).get? name) :
    after.local? name = before.local? name := by
  unfold local?
  rw [hchain]
  generalize before.chain = chain at hframe
  induction chain with
  | nil => rfl
  | cons ref rest ih =>
    obtain ⟨hhere, hthere⟩ := List.forall_mem_cons.1 hframe
    rw [List.findSome?_cons, List.findSome?_cons, hhere, ih hthere]

theorem get?_congr (hlocal : after.local? name = before.local? name)
    (hglobal : after.globals.get? name = before.globals.get? name) :
    after.get? name = before.get? name := by
  unfold get?
  rw [hlocal, hglobal]

/-- Frames without the name are passed over. -/
theorem local?_of_inside {inside outside : Chain} {ref : FrameRef}
    (hchain : env.chain = inside ++ ref :: outside)
    (hinside : ∀ inner ∈ inside, (env.frame inner).get? name = none)
    (hhere : (env.frame ref).get? name = some value) : env.local? name = some value := by
  unfold local?
  rw [hchain, List.findSome?_append, List.findSome?_eq_none_iff.2 hinside, List.findSome?_cons,
    hhere]
  rfl

/-- A name that no active frame has is read among the global variables. -/
theorem get?_of_inactive (hactive : ∀ ref ∈ env.chain, (env.frame ref).get? name = none) :
    env.get? name = env.globals.get? name := by
  unfold get? local?
  rw [List.findSome?_eq_none_iff.2 hactive]
  rfl

/-! ### Writing -/

/-- What is bound in a place that exists changes at the name only, and nothing changes in
another place. -/
theorem bindAt_rebinds (hplace : ∀ ref, place = .frame ref → ref < env.frames.size)
    (name : String) (value : Value) :
    env.Rebinds place name value (env.bindAt name value place) := by
  cases place with
  | frame ref =>
    have hexists : ref < env.frames.size := hplace ref rfl
    refine ⟨rfl, env.size_bindIn ref name value, ?_, fun other found hother => ?_⟩
    · simp only [bindAt, bindings, frame_bindIn, hexists, and_self, if_true, Table.get?_put]
    · cases other with
      | frame other =>
        simp only [bindAt, bindings, frame_bindIn, hexists, and_true]
        split
        · next heq =>
          subst heq
          rw [Table.get?_put, if_neg (hother.resolve_left (not_not_intro rfl))]
        · rfl
      | globals => rfl
  | globals =>
    refine ⟨rfl, rfl, ?_, fun other found hother => ?_⟩
    · simp only [bindAt, bindings, bindGlobal, Table.get?_put, if_true]
    · cases other with
      | frame other => rfl
      | globals =>
        simp only [bindAt, bindings, bindGlobal]
        rw [Table.get?_put, if_neg (hother.resolve_left (not_not_intro rfl))]

theorem declareLocal_eq_bindAt (env : Environment) (name : String) (value : Value) :
    env.declareLocal name value = env.bindAt name value env.innermost := by
  unfold declareLocal innermost
  cases env.chain <;> rfl

/-- The value that a change replaces is the one that the name has in the place. -/
def Replaced (env : Environment) (name : String) (place : Place)
    (replaced : Option FrameRef × Option Value) : Prop :=
  replaced.2 = (env.bindings place).get? name ∧
    ∀ found ∈ (env.bindings place).get? name, replaced.1 = place.frame?

theorem replacedLocal_replaced (env : Environment) (name : String) :
    env.Replaced name env.innermost (env.replacedLocal name) := by
  unfold Replaced replacedLocal innermost
  cases env.chain with
  | nil => exact ⟨rfl, fun _ _ => rfl⟩
  | cons ref rest => exact ⟨rfl, fun _ _ => rfl⟩

/-- An assignment binds the name in the place that receives it. -/
theorem exists_receives (env : Environment) (name : String) (value : Value) :
    ∃ place, env.Receives name place ∧ env.set name value = env.bindAt name value place ∧
      env.Replaced name place (env.replaced name) := by
  have hunbound : ∀ {table : Frame}, table.contains name = false → table.get? name = none :=
    fun h => Option.isSome_eq_false_iff.1 h |> Option.isNone_iff_eq_none.1
  unfold set replaced
  cases hholder : env.holder? name with
  | some ref =>
    obtain ⟨hbound, inside, outside, hchain, hinside⟩ := List.find?_eq_some_iff_append.1 hholder
    refine ⟨.frame ref, .active hchain (fun inner hinner => hunbound ?_) hbound, rfl, rfl,
      fun _ _ => rfl⟩
    simpa using hinside inner hinner
  | none =>
    have hactive : ∀ ref ∈ env.chain, (env.frame ref).get? name = none := fun ref href =>
      hunbound (Bool.eq_false_iff.2 (List.find?_eq_none.1 hholder ref href))
    by_cases hglobal : env.globals.contains name
    · exact ⟨.globals, .global hactive hglobal, by simp [hglobal, bindAt], rfl, fun _ _ => rfl⟩
    · have hnone := hunbound (Bool.eq_false_iff.2 hglobal)
      have hnew : (env.bindings env.innermost).get? name = none := by
        unfold innermost
        cases hchain : env.chain with
        | nil => exact hnone
        | cons ref rest => exact hactive ref (hchain ▸ List.mem_cons_self)
      refine ⟨env.innermost, .new hactive hnone, by simp [hglobal, declareLocal_eq_bindAt],
        hnone.trans hnew.symm, fun found hfound => ?_⟩
      rw [hnew] at hfound
      cases hfound

/-- The innermost frame exists, if there is one. -/
theorem ChainExists.innermost (h : env.ChainExists) :
    ∀ ref, env.innermost = .frame ref → ref < env.frames.size := by
  unfold Environment.innermost
  cases hchain : env.chain with
  | nil => simp
  | cons inner rest =>
    rintro ref ⟨⟩
    exact h inner (hchain ▸ List.mem_cons_self)

theorem Receives.exists (h : env.Receives name place) (hexists : env.ChainExists) :
    ∀ ref, place = .frame ref → ref < env.frames.size := by
  intro ref hplace
  cases h with
  | active hchain hinside hbound =>
    cases hplace
    exact hexists ref (hchain ▸ List.mem_append_right _ List.mem_cons_self)
  | global hactive hbound => cases hplace
  | new hactive hglobal => exact hexists.innermost ref hplace

/-- A declaration changes the innermost place, at its name. -/
theorem declareLocal_rebinds (h : env.ChainExists) (name : String) (value : Value) :
    env.Rebinds env.innermost name value (env.declareLocal name value) := by
  rw [declareLocal_eq_bindAt]
  exact bindAt_rebinds h.innermost name value

/-- An assignment changes the place that receives it, at its name. -/
theorem set_rebinds (h : env.ChainExists) (name : String) (value : Value) :
    ∃ place, env.Receives name place ∧ env.Rebinds place name value (env.set name value) ∧
      env.Replaced name place (env.replaced name) := by
  obtain ⟨place, hreceives, hset, hreplaced⟩ := env.exists_receives name value
  rw [hset]
  exact ⟨place, hreceives, bindAt_rebinds (hreceives.exists h) name value, hreplaced⟩

namespace Rebinds

/-- The other names are read as before. -/
theorem local?_of_ne (h : before.Rebinds place name value after) {other : String}
    (hother : other ≠ name) : after.local? other = before.local? other :=
  local?_congr h.chain fun ref _ => h.elsewhere (.frame ref) other (.inr hother)

theorem get?_of_ne (h : before.Rebinds place name value after) {other : String}
    (hother : other ≠ name) : after.get? other = before.get? other :=
  get?_congr (h.local?_of_ne hother) (h.elsewhere .globals other (.inr hother))

/-- The search for the value of a name ends in the place that an assignment goes to. -/
theorem get?_self (h : before.Rebinds place name value after)
    (hreceives : before.Receives name place) : after.get? name = some value := by
  have hunbound : ∀ {ref}, place ≠ .frame ref → (before.frame ref).get? name = none →
      (after.frame ref).get? name = none := fun hne hnone =>
    (h.elsewhere (.frame _) name (.inl hne.symm)).trans hnone
  cases hreceives with
  | @active inside outside ref hchain hinside hbound =>
    -- a frame further inside does not bind the name, so it is another one
    have hlocal : after.local? name = some value := by
      refine local?_of_inside (h.chain.trans hchain) (fun inner hinner => ?_) h.here
      refine hunbound (fun hsame => ?_) (hinside inner hinner)
      cases hsame
      simp [Table.contains, hinside ref hinner] at hbound
    unfold Environment.get?
    rw [hlocal]
    rfl
  | global hactive hbound =>
    rw [get?_of_inactive fun ref href => hunbound (by simp) (hactive ref (h.chain ▸ href))]
    exact h.here
  | new hactive hglobal =>
    have hhere := h.here
    unfold innermost at hhere
    cases hchain : before.chain with
    | nil =>
      rw [hchain] at hhere
      rw [get?_of_inactive (by simp [h.chain, hchain])]
      exact hhere
    | cons ref rest =>
      rw [hchain] at hhere
      have hlocal : after.local? name = some value :=
        @local?_of_inside after name value [] rest ref (h.chain.trans hchain) (by simp) hhere
      unfold Environment.get?
      rw [hlocal]
      rfl

end Rebinds

/-! ### Names of a new frame -/

/-- Declares names one after another. -/
def declareAll (env : Environment) (bindings : List (String × Value)) : Environment :=
  bindings.foldl (fun env (name, value) => env.declareLocal name value) env

/-- Only the given frame may be different. -/
structure SameOutside (ref : FrameRef) (before after : Environment) : Prop where
  chain : after.chain = before.chain
  frame : ∀ other, other ≠ ref → after.frame other = before.frame other
  globals : after.globals = before.globals

/-- Declarations change the innermost frame only. -/
theorem declareAll_sameOutside {ref : FrameRef} {rest : Chain} (hchain : env.chain = ref :: rest)
    (bindings : List (String × Value)) : SameOutside ref env (env.declareAll bindings) := by
  induction bindings generalizing env with
  | nil => exact ⟨rfl, fun _ _ => rfl, rfl⟩
  | cons binding bindings ih =>
    have hfirst : env.declareLocal binding.1 binding.2 = env.bindIn ref binding.1 binding.2 := by
      unfold declareLocal
      rw [hchain]
    have hrest : SameOutside ref (env.bindIn ref binding.1 binding.2)
        (env.declareAll (binding :: bindings)) := hfirst ▸ ih (by rw [declareLocal_chain, hchain])
    refine ⟨hrest.chain, fun other hother => (hrest.frame other hother).trans ?_, hrest.globals⟩
    rw [frame_bindIn, if_neg fun hsame => hother hsame.1]

/-- When a call is left, whatever has been declared in its frame, names are read as before. -/
theorem leaveCall_forgets (h : env.ChainExists) (captured : Chain)
    (bindings : List (String × Value)) (name : String) :
    (((env.enterCall captured).declareAll bindings).leaveCall env.chain).get? name =
        env.get? name ∧
      (((env.enterCall captured).declareAll bindings).leaveCall env.chain).local? name =
        env.local? name := by
  have hsame : SameOutside env.frames.size (env.enterCall captured)
      ((env.enterCall captured).declareAll bindings) := declareAll_sameOutside rfl bindings
  have hlocal : (((env.enterCall captured).declareAll bindings).leaveCall env.chain).local? name =
      env.local? name := by
    refine local?_congr rfl fun ref href => ?_
    -- the frame of the call is new, so it is none of those that were active
    have hold : ref ≠ env.frames.size := Nat.ne_of_lt (h ref href)
    unfold leaveCall
    rw [frame_chain, hsame.frame ref hold, enterCall, frame_push, frame_chain]
  refine ⟨get?_congr hlocal ?_, hlocal⟩
  exact congrArg (fun globals : Frame => globals.get? name) hsame.globals

/-- Leaving a block leads back to the chain around it. -/
theorem pop_declareAll_push (env : Environment) (bindings : List (String × Value)) :
    (env.push.declareAll bindings).pop =
      ((env.enterCall env.chain).declareAll bindings).leaveCall env.chain := by
  have hsame : SameOutside env.frames.size env.push (env.push.declareAll bindings) :=
    declareAll_sameOutside rfl bindings
  change { env.push.declareAll bindings with
    chain := (env.push.declareAll bindings).chain.tail } = _
  rw [hsame.chain]
  rfl

end Environment

/-- The frames that are active after any operations exist. -/
theorem Scopes.run_chainExists (ops : List ScopeOp) : (run ops).environment.ChainExists := by
  obtain ⟨outer, hnested⟩ := run_nested ops
  exact (hnested ops List.prefix_rfl).1.frames _ List.mem_cons_self

/-- The laws of reading and writing names, in the environment after any operations. An
assignment gives the name the value, leaves the values of all other names as they are, and
changes the one place that receives it, at this name only. A declaration, and so the
introduction of a parameter, changes the innermost place, at its name only. Whatever names are
declared in a block or as parameters of a call, they do not show any more when the block or
the call is left.

This is the environment that assignments and declarations leave when they return, on a store
with this environment and with any handles. They end, and they return unless they have crashed:
`Store.Replaces` says when they do, of the value that the name had in the place. -/
theorem bindings_change_in_one_place (ops : List ScopeOp) (name : String) (value : Value) :
    let env := (Scopes.run ops).environment
    (env.set name value).get? name = some value ∧
    (∀ other, other ≠ name → (env.set name value).get? other = env.get? other ∧
      (env.set name value).local? other = env.local? other) ∧
    (∃ place, env.Receives name place ∧ env.Rebinds place name value (env.set name value) ∧
      ∀ store : Store, store.machine.environment = env →
        Store.Replaces (fun fuel => Store.assign fuel name value) store place.frame?
          ((env.bindings place).get? name) value
          { store.machine with environment := env.set name value }) ∧
    (env.Rebinds env.innermost name value (env.declareLocal name value) ∧
      ∀ store : Store, store.machine.environment = env →
        Store.Replaces (fun fuel => Store.declare fuel name value) store env.innermost.frame?
          ((env.bindings env.innermost).get? name) value
          { store.machine with environment := env.declareLocal name value }) ∧
    (∀ bindings found, (env.push.declareAll bindings).pop.get? found = env.get? found ∧
      (env.push.declareAll bindings).pop.local? found = env.local? found) ∧
    ∀ captured bindings found,
      (((env.enterCall captured).declareAll bindings).leaveCall env.chain).get? found =
          env.get? found ∧
        (((env.enterCall captured).declareAll bindings).leaveCall env.chain).local? found =
          env.local? found := by
  intro env
  have hexists : env.ChainExists := Scopes.run_chainExists ops
  obtain ⟨place, hreceives, hrebinds, hreplaced⟩ := Environment.set_rebinds hexists name value
  refine ⟨hrebinds.get?_self hreceives,
    fun other hother => ⟨hrebinds.get?_of_ne hother, hrebinds.local?_of_ne hother⟩,
    ⟨place, hreceives, hrebinds, fun store hstore => ?_⟩,
    ⟨Environment.declareLocal_rebinds hexists name value, fun store hstore => ?_⟩,
    fun bindings found => ?_, Environment.leaveCall_forgets hexists⟩
  · rw [← hstore] at hreplaced ⊢
    exact Store.rebind_replaces hreplaced.1 hreplaced.2 value
  · have hlocal := env.replacedLocal_replaced name
    rw [← hstore] at hlocal ⊢
    exact Store.rebind_replaces hlocal.1 hlocal.2 value
  · rw [Environment.pop_declareAll_push]
    exact Environment.leaveCall_forgets hexists env.chain bindings found

/-- A function is called in whose frames a global variable is shadowed. -/
def ScopeOp.callUnderShadow : List ScopeOp :=
  [.declareGlobal "x" .none, .declareGlobal "y" .none, .push, .declareLocal "x" (.boolean true),
    .capture, .pop, .enterCall 0]

/-- The assignment goes to the frame that the function has kept, and returns. The global variable
of the same name keeps its value, as do all other names. -/
theorem bindings_change_in_one_place_callUnderShadow :
    let env := (Scopes.run ScopeOp.callUnderShadow).environment
    env.chain = [1, 0] ∧ env.get? "x" = some (.boolean true) ∧
    env.globals.get? "x" = some .none ∧ env.Receives "x" (.frame 0) ∧
    (env.set "x" (.boolean false)).get? "x" = some (.boolean false) ∧
    (env.set "x" (.boolean false)).globals.get? "x" = some .none ∧
    (env.set "x" (.boolean false)).get? "y" = some .none ∧
    (∃ after, Store.assign 1 "x" (.boolean false)
        ⟨{ Machine.initial (.ofInput []) with environment := env }, .none⟩ = .done () after ∧
      after.machine.environment = env.set "x" (.boolean false)) ∧
    (env.push.declareAll [("x", .none), ("y", .boolean true)]).pop.get? "x" =
      some (.boolean true) := by
  intro env
  obtain ⟨hself, hothers, ⟨place, _, _, hreplaces⟩, -, hblock, -⟩ :=
    bindings_change_in_one_place ScopeOp.callUnderShadow "x" (.boolean false)
  have hframe : env.Receives "x" (.frame 0) :=
    @Environment.Receives.active env "x" [1] [] 0 rfl (by decide) rfl
  have hreplaces := hreplaces ⟨{ Machine.initial (.ofInput []) with environment := env }, .none⟩ rfl
  refine ⟨rfl, rfl, rfl, hframe, hself, rfl, (hothers "y" (by decide)).1, ?_, (hblock _ "x").1⟩
  have hreturns : ∃ after, Store.assign 1 "x" (.boolean false)
      ⟨{ Machine.initial (.ofInput []) with environment := env }, .none⟩ = .done () after :=
    ⟨_, rfl⟩
  obtain ⟨after, hafter⟩ := hreturns
  exact ⟨after, hafter, congrArg Machine.environment (hreplaces.returned 1 after hafter)⟩

/-- `func main() { f = func() { return 1; }; f = 2; }` -/
def Program.overwriting : Program where
  globals := []
  functions := [⟨0, ⟨1, 1⟩, some "main", [], .block [
    .expr (.assign ⟨1, 15⟩ (.name ⟨1, 15⟩ "f") none (.function ⟨1, 19⟩ ⟨0, ⟨1, 19⟩, none, [],
      .block [.returnStmt (some (.number ⟨1, 35⟩ 1))]⟩)),
    .expr (.assign ⟨1, 41⟩ (.name ⟨1, 41⟩ "f") none (.number ⟨1, 45⟩ 2))]⟩]

/-- The second assignment does not return: it would be the end of a function that has kept the
frame which the assignment changes. By the laws alone the program would come to its end. -/
theorem overwritten_function_crashes :
    (∃ after, Program.overwriting.run 20 (.initial (.ofInput [])) = .done .none after) ∧
    ∃ after, (Program.overwriting.plan 20).onStore 20 (.initial (.ofInput [])) =
      .failed .crash after :=
  ⟨⟨_, rfl⟩, Outcome.crashes_iff.1 (by decide +kernel)⟩

end Betty
