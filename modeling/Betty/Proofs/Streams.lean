import Betty.Proofs.Machine.Admits
import Betty.Proofs.Text.Lines

/-!
# The streams of a run

A run reads and writes in the order that its plan tells. What it has written is what stands in
its output, and what it has read is what its input has lost. Nothing else of a run depends on
the streams.

So an output that has room for a limited number of bytes makes no difference up to the first
text that does not fit. There the run ends with the fault of the stream, which nothing on the
way out changes, and nothing is read or written any more.

## Main definitions

* `StreamEvent.written`, `StreamEvent.lines`: what has been written and read.
* `Machine.Accounts`: what has happened to the streams accounts for how they are.
* `Machine.withLimit`: the machine with a limited output.
* `Plan.Unhindered`, `Plan.Stopped`: what a limited output does to a computation.

## Main results

* `Plan.Lawful.streams`: the events of a plan account for its streams, and a limited output
  does nothing to a computation or stops it.
* `run_limited_output`: what a limited output does to a run.
-/

namespace Betty

variable {α β : Type} {policy : Policy} {places : Position → Prop}

/-! ### Events -/

namespace StreamEvent

/-- The texts that have been written, one after another. -/
def written : List StreamEvent → String
  | [] => ""
  | wrote text :: rest => text ++ written rest
  | _ :: rest => written rest

/-- The lines that have been read, with their ends. -/
def lines : List StreamEvent → List (List UInt8)
  | [] => []
  | read line :: rest => line :: lines rest
  | _ :: rest => lines rest

theorem written_append (events later : List StreamEvent) :
    written (events ++ later) = written events ++ written later := by
  induction events with
  | nil => exact (String.empty_append).symm
  | cons event rest ih =>
    cases event with
    | wrote text => exact (congrArg (text ++ ·) ih).trans (String.append_assoc).symm
    | refused text => exact ih
    | read line => exact ih

theorem lines_append (events later : List StreamEvent) :
    lines (events ++ later) = lines events ++ lines later := by
  induction events with
  | nil => rfl
  | cons event rest ih =>
    cases event with
    | wrote text => exact ih
    | refused text => exact ih
    | read line => exact congrArg (line :: ·) ih

end StreamEvent

/-- Between two machines there have been these events: the output has what has been written,
and the lines that have been read are missing from the input. -/
structure Machine.Accounts (events : List StreamEvent) (machine after : Machine) : Prop where
  capacity : after.console.capacity = machine.console.capacity
  output : after.console.output = machine.console.output ++ StreamEvent.written events
  input : Console.ReadsOff machine.console.input (StreamEvent.lines events) after.console.input

theorem Machine.Accounts.refl {machine after : Machine} (h : after.console = machine.console) :
    machine.Accounts [] after := by
  refine ⟨congrArg _ h, ?_, ?_⟩
  · rw [h]
    exact (String.append_empty).symm
  · rw [h]
    exact .nil _

theorem Machine.Accounts.trans {events later : List StreamEvent} {machine middle after : Machine}
    (h : machine.Accounts events middle) (h' : middle.Accounts later after) :
    machine.Accounts (events ++ later) after := by
  refine ⟨h'.capacity.trans h.capacity, ?_, ?_⟩
  · rw [h'.output, h.output, StreamEvent.written_append, String.append_assoc]
  · rw [StreamEvent.lines_append]
    exact h.input.trans h'.input

/-- A step that has nothing to do with the streams leaves them as they are. -/
theorem Eval.Quiet.console {action : Eval α} (h : action.Quiet) (machine : Machine) :
    (action machine).Meets (fun _ after => after.console = machine.console)
      (fun _ after => after.console = machine.console) True := by
  have hsame := h machine machine.console
  change action machine = _ at hsame
  rw [hsame]
  cases action machine <;> trivial

/-- The machine with an output that has room for so many bytes in all. -/
def Machine.withLimit (limit : Nat) (machine : Machine) : Machine :=
  machine.withConsole { machine.console with capacity := some limit }

/-- Changes of the machine around a computation: `enter` before it, and `back` after it. They
have nothing to do with the streams. -/
structure Machine.Bystander (enter : Machine → Machine) (back : Machine → Machine → Machine) :
    Prop where
  enter_withConsole : ∀ machine console,
    enter (Machine.withConsole console machine) = (enter machine).withConsole console
  back_withConsole : ∀ machine after console console',
    back (Machine.withConsole console machine) (Machine.withConsole console' after) =
      (back machine after).withConsole console'

namespace Machine.Bystander

variable {enter : Machine → Machine} {back : Machine → Machine → Machine}

theorem enter_console (h : Bystander enter back) (machine : Machine) :
    (enter machine).console = machine.console := by
  have hsame := congrArg Machine.console (h.enter_withConsole machine machine.console)
  exact hsame

theorem back_console (h : Bystander enter back) (machine after : Machine) :
    (back machine after).console = after.console := by
  have hsame := congrArg Machine.console
    (h.back_withConsole machine after machine.console after.console)
  exact hsame

theorem enter_withLimit (h : Bystander enter back) (limit : Nat) (machine : Machine) :
    enter (machine.withLimit limit) = (enter machine).withLimit limit := by
  rw [Machine.withLimit, h.enter_withConsole, Machine.withLimit, h.enter_console]

theorem back_withLimit (h : Bystander enter back) (limit : Nat) (machine after : Machine) :
    back (machine.withLimit limit) (after.withLimit limit) =
      (back machine after).withLimit limit := by
  rw [Machine.withLimit, Machine.withLimit, h.back_withConsole, Machine.withLimit, h.back_console]

theorem block : Bystander Machine.enterBlock fun _ => Machine.leaveBlock :=
  ⟨fun _ _ => rfl, fun _ _ _ _ => rfl⟩

theorem control (enter exit : Control → Control) :
    Bystander (Machine.turn enter) fun _ => Machine.turn exit :=
  ⟨fun _ _ => rfl, fun _ _ _ _ => rfl⟩

theorem call (closure : Closure) (arguments : List Value) :
    Bystander (fun machine => machine.inBody closure arguments) Machine.leaveBody :=
  ⟨fun _ _ => rfl, fun _ _ _ _ => rfl⟩

end Machine.Bystander

namespace Plan

/-- A step that has nothing to do with the streams leaves no event. -/
theorem events_of_silent {plan : Plan α} (hstep : plan.isStep)
    (h : ∀ machine, (plan.act machine).concernsStreams = false) (machine : Machine) :
    plan.events machine = [] := by
  unfold events
  rw [record_of_isStep _ hstep]
  have hsilent := h machine
  cases hact : plan.act machine with
  | write text =>
    rw [hact] at hsilent
    cases hsilent
  | readLine =>
    rw [hact] at hsilent
    cases hsilent
  | _ => rfl

/-- The plan does to another machine, with something around, what it is to do. -/
structure Around (enter : Machine → Machine) (back : Machine → Machine → Machine)
    (outer plan : Plan α) : Prop where
  bystander : Machine.Bystander enter back
  run : ∀ machine, outer.run machine = (plan.run (enter machine)).mapState (back machine)
  events : ∀ machine, outer.events machine = plan.events (enter machine)

theorem around_inBlock (plan : Plan α) :
    Around Machine.enterBlock (fun _ => Machine.leaveBlock) (inBlock plan) plan :=
  ⟨.block, run_inBlock plan, fun _ => Recorder.bracket_eq (fun _ _ _ => rfl) _ _ _ _ _ _⟩

theorem around_inControl (enter exit : Control → Control) (plan : Plan α) :
    Around (Machine.turn enter) (fun _ => Machine.turn exit) (inControl enter exit plan) plan :=
  ⟨.control enter exit, run_inControl enter exit plan,
    fun _ => Recorder.bracket_eq (fun _ _ _ => rfl) _ _ _ _ _ _⟩

theorem around_inCall (closure : Closure) (arguments : List Value) (plan : Plan α) :
    Around (fun machine => machine.inBody closure arguments) Machine.leaveBody
      (inCall closure arguments plan) plan :=
  ⟨.call closure arguments, run_inCall closure arguments plan,
    fun _ => Recorder.bracket_eq (fun _ _ _ => rfl) _ _ _ _ _ _⟩

theorem events_within (node : Node) (plan : Plan α) (machine : Machine) :
    (within node plan).events machine = plan.events machine := by
  change [] ++ plan.events machine ++ [] = _
  simp

end Plan

/-! ### Limited output -/

/-- The error of a text that does not fit. -/
def RuntimeError.outputFull : RuntimeError :=
  .unplaced (.stream .outputFull)

namespace Plan

variable {limit : Nat}

/-- Everything fits, and the limit makes no difference. -/
structure Unhindered (limit : Nat) (plan : Plan α) (machine : Machine) : Prop where
  room : (machine.console.output ++ StreamEvent.written (plan.events machine)).utf8ByteSize ≤
    limit
  run : plan.run (machine.withLimit limit) = (plan.run machine).mapState (Machine.withLimit limit)
  events : plan.events (machine.withLimit limit) = plan.events machine

/-- The text is the first that does not fit. The limit makes no difference before, and stops
the computation there. -/
structure StopsAt (limit : Nat) (plan : Plan α) (machine : Machine) (before : List StreamEvent)
    (text : String) (later : List StreamEvent) (after : Machine) : Prop where
  split : plan.events machine = before ++ .wrote text :: later
  room : (machine.console.output ++ StreamEvent.written before).utf8ByteSize ≤ limit
  full : limit < (machine.console.output ++ StreamEvent.written before ++ text).utf8ByteSize
  run : plan.run (machine.withLimit limit) = .failed .outputFull after
  events : plan.events (machine.withLimit limit) = before ++ [.refused text]

/-- The limit makes no difference, or stops the computation at some text. -/
def Limited (limit : Nat) (plan : Plan α) (machine : Machine) : Prop :=
  plan.Unhindered limit machine ∨
    ∃ before text later after, plan.StopsAt limit machine before text later after

theorem Unhindered.of_quiet {plan : Plan α} {machine : Machine} (hquiet : plan.run.Quiet)
    (hevents : ∀ machine, plan.events machine = [])
    (hroom : machine.console.output.utf8ByteSize ≤ limit) : plan.Unhindered limit machine := by
  refine ⟨?_, ?_, (hevents _).trans (hevents _).symm⟩
  · rwa [hevents, StreamEvent.written, String.append_empty]
  · have hsame := hquiet.console machine
    refine (hquiet machine { machine.console with capacity := some limit }).trans ?_
    cases hran : plan.run machine with
    | done value after =>
      rw [hran] at hsame
      exact congrArg (Outcome.done value) (congrArg (fun console : Console =>
        after.withConsole { console with capacity := some limit }) hsame.symm)
    | failed error after =>
      rw [hran] at hsame
      exact congrArg (Outcome.failed error) (congrArg (fun console : Console =>
        after.withConsole { console with capacity := some limit }) hsame.symm)
    | outOfFuel => rfl

section

variable {first : Plan α} {second : α → Plan β} {machine middle : Machine} {value : α}
  {error : RuntimeError}

theorem andThen_done (second : α → Plan β) (h : first.run machine = .done value middle) :
    (first.andThen second).run machine = (second value).run middle ∧
      (first.andThen second).events machine =
        first.events machine ++ (second value).events middle := by
  rw [run_andThen, h]
  exact ⟨rfl, record_andThen_done _ h ()⟩

theorem andThen_failed (second : α → Plan β) (h : first.run machine = .failed error middle) :
    (first.andThen second).run machine = .failed error middle ∧
      (first.andThen second).events machine = first.events machine := by
  rw [run_andThen, h]
  exact ⟨rfl, record_andThen_stopped _ (fun _ _ hdone => nomatch h.symm.trans hdone) ()⟩

theorem andThen_outOfFuel (second : α → Plan β) (h : first.run machine = .outOfFuel) :
    (first.andThen second).run machine = .outOfFuel ∧
      (first.andThen second).events machine = first.events machine := by
  rw [run_andThen, h]
  exact ⟨rfl, record_andThen_stopped _ (fun _ _ hdone => nomatch h.symm.trans hdone) ()⟩

/-- The events of the first part come first. -/
theorem events_andThen (first : Plan α) (second : α → Plan β) (machine : Machine) :
    ∃ later, (first.andThen second).events machine = first.events machine ++ later := by
  cases hran : first.run machine with
  | done value middle => exact ⟨_, (andThen_done second hran).2⟩
  | failed error after => exact ⟨[], (andThen_failed second hran).2.trans (List.append_nil _).symm⟩
  | outOfFuel => exact ⟨[], (andThen_outOfFuel second hran).2.trans (List.append_nil _).symm⟩

theorem StopsAt.andThen (second : α → Plan β) {before later : List StreamEvent} {text : String}
    {after : Machine} (h : first.StopsAt limit machine before text later after) :
    ∃ later, (first.andThen second).StopsAt limit machine before text later after := by
  obtain ⟨more, hmore⟩ := events_andThen first second machine
  obtain ⟨hrun, hevents⟩ := andThen_failed second h.run
  refine ⟨later ++ more, ?_, h.room, h.full, hrun, hevents.trans h.events⟩
  rw [hmore, h.split, List.append_assoc, List.cons_append]

theorem Unhindered.andThen_failed (h : first.Unhindered limit machine)
    (hran : first.run machine = .failed error middle) :
    (first.andThen second).Unhindered limit machine := by
  have hlimited : first.run (machine.withLimit limit) = .failed error (middle.withLimit limit) := by
    rw [h.run, hran]
    rfl
  obtain ⟨hrun, hevents⟩ := Plan.andThen_failed second hran
  obtain ⟨hrun', hevents'⟩ := Plan.andThen_failed second hlimited
  refine ⟨hevents ▸ h.room, ?_, ?_⟩
  · rw [hrun, hrun']
    rfl
  · rw [hevents, hevents', h.events]

theorem Unhindered.andThen_outOfFuel (h : first.Unhindered limit machine)
    (hran : first.run machine = .outOfFuel) :
    (first.andThen second).Unhindered limit machine := by
  have hlimited : first.run (machine.withLimit limit) = .outOfFuel := by
    rw [h.run, hran]
    rfl
  obtain ⟨hrun, hevents⟩ := Plan.andThen_outOfFuel second hran
  obtain ⟨hrun', hevents'⟩ := Plan.andThen_outOfFuel second hlimited
  refine ⟨hevents ▸ h.room, ?_, ?_⟩
  · rw [hrun, hrun']
    rfl
  · rw [hevents, hevents', h.events]

theorem Unhindered.andThen_limited (h : first.Unhindered limit machine)
    (hran : first.run machine = .done value middle)
    (haccounts : machine.Accounts (first.events machine) middle)
    (h' : (second value).Limited limit middle) :
    (first.andThen second).Limited limit machine := by
  have hlimited : first.run (machine.withLimit limit) = .done value (middle.withLimit limit) := by
    rw [h.run, hran]
    rfl
  obtain ⟨hrun, hevents⟩ := andThen_done second hran
  obtain ⟨hrun', hevents'⟩ := andThen_done second hlimited
  have hwritten : ∀ events, machine.console.output ++ StreamEvent.written
      (first.events machine ++ events) = middle.console.output ++ StreamEvent.written events := by
    intro events
    rw [StreamEvent.written_append, ← String.append_assoc, haccounts.output]
  rcases h' with hfree | ⟨before, text, later, after, hstop⟩
  · refine .inl ⟨?_, ?_, ?_⟩
    · rw [hevents, hwritten]
      exact hfree.room
    · rw [hrun, hrun', hfree.run]
    · rw [hevents, hevents', hfree.events, h.events]
  · refine .inr ⟨first.events machine ++ before, text, later, after, ?_, ?_, ?_, ?_, ?_⟩
    · rw [hevents, hstop.split, List.append_assoc]
    · rw [hwritten]
      exact hstop.room
    · rw [hwritten]
      exact hstop.full
    · rw [hrun', hstop.run]
    · rw [hevents', h.events, hstop.events, List.append_assoc]

end

theorem events_write (text : String) (machine : Machine) : (write text).events machine =
    [if machine.console.fits text then .wrote text else .refused text] := rfl

theorem events_readLine (machine : Machine) :
    readLine.events machine = [.read (Console.splitLine machine.console.input).1] := rfl

theorem Limited.write (text : String) {machine : Machine}
    (hcapacity : machine.console.capacity = none)
    (hroom : machine.console.output.utf8ByteSize ≤ limit) :
    (write text).Limited limit machine := by
  have hfits : machine.console.fits text := by
    unfold Console.fits
    rw [hcapacity]
  have hevents : (Plan.write text).events machine = [.wrote text] := by
    rw [events_write, if_pos hfits]
  have hrun : (Plan.write text).run machine = .done () (machine.withConsole
      { machine.console with output := machine.console.output ++ text }) := by
    simp only [Plan.run, Eval.onConsole, Console.write, if_pos hfits]
    rfl
  -- An empty text always fits, and there was room for what has been written before it.
  by_cases hsize : (machine.console.output ++ text).utf8ByteSize ≤ limit
  · have hfits' : (machine.withLimit limit).console.fits text := by
      rw [String.utf8ByteSize_append] at hsize
      exact Bool.or_eq_true_iff.2 (.inr (decide_eq_true hsize))
    refine .inl ⟨?_, ?_, ?_⟩
    · rw [hevents]
      simpa [StreamEvent.written] using hsize
    · rw [hrun]
      simp only [Plan.run, Eval.onConsole, Console.write, if_pos hfits']
      rfl
    · rw [hevents, events_write, if_pos hfits']
  · have hfull : ¬ (machine.withLimit limit).console.fits text := by
      intro hfits'
      rcases Bool.or_eq_true_iff.1 hfits' with hempty | hsmall
      · rw [String.isEmpty_iff.1 hempty, String.append_empty] at hsize
        exact hsize hroom
      · rw [String.utf8ByteSize_append] at hsize
        exact hsize (of_decide_eq_true hsmall)
    refine .inr ⟨[], text, [], machine.withLimit limit, ⟨hevents, ?_, ?_, ?_, ?_⟩⟩
    · simpa [StreamEvent.written] using hroom
    · simpa [StreamEvent.written] using hsize
    · simp only [Plan.run, Eval.onConsole, Console.write, if_neg hfull]
      rfl
    · rw [events_write, if_neg hfull]
      rfl

theorem Unhindered.readLine {machine : Machine}
    (hroom : machine.console.output.utf8ByteSize ≤ limit) :
    Plan.readLine.Unhindered limit machine := by
  refine ⟨?_, ?_, rfl⟩
  · simpa [events_readLine, StreamEvent.written] using hroom
  · have hinput : (machine.withLimit limit).console.input = machine.console.input := rfl
    simp only [Plan.run, Eval.onConsole, Console.readLine, hinput]
    cases String.fromUTF8? (ByteArray.mk (Console.splitLine machine.console.input).1.toArray) <;>
      rfl

theorem Limited.around {enter : Machine → Machine} {back : Machine → Machine → Machine}
    {outer plan : Plan α} {machine : Machine} (haround : Around enter back outer plan)
    (h : plan.Limited limit (enter machine)) : outer.Limited limit machine := by
  have hconsole := haround.bystander.enter_console machine
  have hinside := haround.bystander.enter_withLimit limit machine
  rcases h with hfree | ⟨before, text, later, after, hstop⟩
  · refine .inl ⟨?_, ?_, ?_⟩
    · rw [haround.events, ← hconsole]
      exact hfree.room
    · rw [haround.run, haround.run, hinside, hfree.run]
      cases plan.run (enter machine) with
      | done value after =>
        exact congrArg (Outcome.done value) (haround.bystander.back_withLimit limit machine after)
      | failed error after =>
        exact congrArg (Outcome.failed error) (haround.bystander.back_withLimit limit machine after)
      | outOfFuel => rfl
    · rw [haround.events, haround.events, hinside, hfree.events]
  · refine .inr ⟨before, text, later, back (machine.withLimit limit) after, ?_, ?_, ?_, ?_, ?_⟩
    · rw [haround.events, hstop.split]
    · rw [← hconsole]
      exact hstop.room
    · rw [← hconsole]
      exact hstop.full
    · rw [haround.run, hinside, hstop.run]
      rfl
    · rw [haround.events, hinside, hstop.events]

/-- The fault of a stream belongs to no place, so no expression changes it. -/
theorem Limited.located (position : Position) {plan : Plan α} {machine : Machine}
    (h : plan.Limited limit machine) : (located position plan).Limited limit machine := by
  rcases h with hfree | ⟨before, text, later, after, hstop⟩
  · refine .inl ⟨hfree.room, ?_, hfree.events⟩
    rw [run_located, run_located, hfree.run]
    cases plan.run machine <;> rfl
  · refine .inr ⟨before, text, later, after, hstop.split, hstop.room, hstop.full, ?_, hstop.events⟩
    rw [run_located, hstop.run]
    rfl

/-- A plan and another one that runs in the same way. -/
theorem Limited.congr {outer plan : Plan α} {machine : Machine} (hrun : outer.run = plan.run)
    (hevents : ∀ machine, outer.events machine = plan.events machine)
    (h : plan.Limited limit machine) : outer.Limited limit machine := by
  rcases h with hfree | ⟨before, text, later, after, hstop⟩
  · refine .inl ⟨?_, hrun ▸ hfree.run, ?_⟩
    · rw [hevents]
      exact hfree.room
    · rw [hevents, hevents, hfree.events]
  · refine .inr ⟨before, text, later, after, ?_, hstop.room, hstop.full, hrun ▸ hstop.run, ?_⟩
    · rw [hevents, hstop.split]
    · rw [hevents, hstop.events]

/-! ### What plans do to the streams -/

/-- The events of the plan account for its streams, also if it is cut off, and a limit of the
output does nothing to it, or stops it. -/
structure Streams (limit : Nat) (plan : Plan α) (machine : Machine) : Prop where
  accounts : (plan.run machine).Meets
    (fun _ after => machine.Accounts (plan.events machine) after)
    (fun _ after => machine.Accounts (plan.events machine) after)
    (∃ after, machine.Accounts (plan.events machine) after)
  limited : machine.console.capacity = none → machine.console.output.utf8ByteSize ≤ limit →
    plan.Limited limit machine

namespace Streams

variable {plan : Plan α} {machine : Machine}

theorem silent (hquiet : plan.run.Quiet) (hevents : ∀ machine, plan.events machine = []) :
    plan.Streams limit machine := by
  refine ⟨?_, fun _ hroom => .inl (.of_quiet hquiet hevents hroom)⟩
  rw [hevents]
  exact (hquiet.console machine).imp (fun _ _ => .refl) (fun _ _ => .refl)
    fun _ => ⟨machine, .refl rfl⟩

theorem write (text : String) : (Plan.write text).Streams limit machine := by
  refine ⟨?_, .write text⟩
  refine Eval.meets_onConsole.2 ?_
  rw [events_write, Console.write]
  split
  · exact ⟨rfl, congrArg (machine.console.output ++ ·) (String.append_empty).symm, .nil _⟩
  · exact ⟨rfl, (String.append_empty).symm, .nil _⟩

theorem readLine : Plan.readLine.Streams limit machine := by
  refine ⟨?_, fun _ hroom => .inl (.readLine hroom)⟩
  refine Eval.meets_onConsole.2 ?_
  rw [events_readLine, Console.readLine]
  dsimp only
  split
  · exact ⟨rfl, (String.append_empty).symm, .line _⟩
  · exact ⟨rfl, (String.append_empty).symm, .line _⟩

theorem andThen {second : α → Plan β} (h : plan.Streams limit machine)
    (h' : ∀ value middle, plan.run machine = .done value middle →
      (second value).Streams limit middle) : (plan.andThen second).Streams limit machine := by
  have hfirst := h.accounts
  refine ⟨?_, fun hcapacity hroom => ?_⟩
  · cases hran : plan.run machine with
    | done value middle =>
      obtain ⟨hrun, hevents⟩ := andThen_done second hran
      rw [hran] at hfirst
      rw [hrun, hevents]
      exact (h' value middle hran).accounts.imp (fun _ _ hafter => hfirst.trans hafter)
        (fun _ _ hafter => hfirst.trans hafter) (Exists.imp fun _ hafter => hfirst.trans hafter)
    | failed error after =>
      obtain ⟨hrun, hevents⟩ := andThen_failed second hran
      rw [hran] at hfirst
      rw [hrun, hevents]
      exact hfirst
    | outOfFuel =>
      obtain ⟨hrun, hevents⟩ := andThen_outOfFuel second hran
      rw [hran] at hfirst
      rw [hrun, hevents]
      exact hfirst
  · rcases h.limited hcapacity hroom with hfree | ⟨before, text, later, after, hstop⟩
    -- The first part has left room, so the second one is started as if it were alone.
    · cases hran : plan.run machine with
      | done value middle =>
        rw [hran] at hfirst
        have hroom' : middle.console.output.utf8ByteSize ≤ limit := by
          rw [hfirst.output]
          exact hfree.room
        exact hfree.andThen_limited hran hfirst
          ((h' value middle hran).limited (hfirst.capacity.trans hcapacity) hroom')
      | failed error after => exact .inl (hfree.andThen_failed hran)
      | outOfFuel => exact .inl (hfree.andThen_outOfFuel hran)
    · obtain ⟨later, hstop⟩ := hstop.andThen second
      exact .inr ⟨before, text, later, after, hstop⟩

theorem around {enter : Machine → Machine} {back : Machine → Machine → Machine} {outer : Plan α}
    (haround : Around enter back outer plan) (h : plan.Streams limit (enter machine)) :
    outer.Streams limit machine := by
  have hstart := haround.bystander.enter_console machine
  have hkeep : ∀ after, (enter machine).Accounts (plan.events (enter machine)) after →
      machine.Accounts (plan.events (enter machine)) (back machine after) := by
    rintro after ⟨hcapacity, houtput, hinput⟩
    have hend := haround.bystander.back_console machine after
    rw [hstart] at hcapacity houtput hinput
    exact ⟨by rw [hend, hcapacity], by rw [hend, houtput], by rwa [hend]⟩
  refine ⟨?_, fun hcapacity hroom => .around haround (h.limited ?_ ?_)⟩
  · rw [haround.run, haround.events, Outcome.meets_mapState]
    exact h.accounts.imp (fun _ after => hkeep after) (fun _ after => hkeep after)
      (Exists.imp' (back machine) hkeep)
  · rwa [hstart]
  · rwa [hstart]

theorem located (position : Position) (h : plan.Streams limit machine) :
    (located position plan).Streams limit machine := by
  refine ⟨?_, fun hcapacity hroom => .located position (h.limited hcapacity hroom)⟩
  rw [run_located, Outcome.meets_mapError]
  exact h.accounts

theorem congr {outer : Plan α} (h : plan.Streams limit machine) (hrun : outer.run = plan.run)
    (hevents : ∀ machine, outer.events machine = plan.events machine) :
    outer.Streams limit machine := by
  refine ⟨?_, fun hcapacity hroom => .congr hrun hevents (h.limited hcapacity hroom)⟩
  rw [hrun, hevents]
  exact h.accounts

theorem jump (hasGoal : Control → Bool) (flow : Flow) (error : RuntimeError) :
    (Plan.jump hasGoal flow error).Streams limit machine := by
  refine andThen (silent (fun _ _ => rfl) fun _ => rfl) fun goal middle _ => ?_
  split
  · exact silent (fun _ _ => rfl) fun _ => rfl
  · exact silent (fun _ _ => rfl) fun _ => rfl

/-- What follows a check of the flow. -/
theorem check {goes : α → Prop} {action : Eval α} {second : α → Plan β} {made : β → Prop}
    (h : action.Checks goes)
    (hgoes : ∀ value change, goes value → machine.control.Passes (change machine.control) →
      (second value).Streams limit (machine.turn change))
    (hstops : ∀ value, ¬ goes value → ∃ result, (second value).idle? = some result ∧
      made result) :
    ((perform action).andThen second).Streams limit machine := by
  obtain ⟨value, change, hran, hpasses, _⟩ := h.turns machine
  refine andThen (silent h.quiet fun _ => rfl) fun found middle hfound => ?_
  cases hran.symm.trans hfound
  by_cases hgo : goes value
  · exact hgoes value change hgo hpasses
  · obtain ⟨result, hidle, _⟩ := hstops value hgo
    refine silent ?_ (record_of_idle _ hidle ())
    rw [run_of_idle hidle]
    exact fun _ _ => rfl

end Streams

/-- What lawful plans do to the streams. -/
theorem Lawful.streams {mode : Mode} {made : α → Prop} {plan : Plan α}
    (h : plan.Lawful policy places mode made) (limit : Nat) {machine : Machine}
    (hm : policy.Holds machine) : plan.Streams limit machine := by
  induction h generalizing machine with
  | yield => exact .silent (fun _ _ => rfl) fun _ => rfl
  | andThen hfirst _ ihfirst ihsecond =>
    refine (ihfirst hm).andThen fun value middle hran => ?_
    have hmiddle := hfirst.sound machine hm
    rw [hran] at hmiddle
    exact ihsecond value hmiddle.1 hmiddle.2.1.toHolds
  | leaf h => exact .silent h.quiet (events_of_silent h.isStep h.silent)
  | write text => exact .write text
  | readLine => exact .readLine
  | expr _ _ ih => exact ((ih hm).located _).congr rfl (events_within _ _)
  | statement _ _ _ _ ih => exact (ih hm).congr rfl (events_within _ _)
  | jump => exact (Streams.jump _ _ _).congr rfl (events_within _ _)
  | holding _ _ ih => exact (ih hm).congr rfl fun _ => rfl
  | owning _ _ ih => exact (ih hm).congr rfl fun _ => rfl
  | inBlock _ ih => exact .around (around_inBlock _) (ih hm.enterBlock)
  | @inControl _ _ _ _ _ enter exit _ hbracket _ _ ih =>
    have henter : policy.Holds (machine.turn enter) :=
      hm.turn ((hbracket.enter_returned _).symm ▸ hm.returned)
    exact .around (around_inControl _ _ _) (ih henter)
  | inCall hclosure harguments _ ih =>
    have hlook : ∀ machine, (look fun machine => machine.control.result).Streams limit machine :=
      fun _ => .silent (fun _ _ => rfl) fun _ => rfl
    exact .around (around_inCall _ _ _)
      ((ih (hm.inBody hclosure harguments)).andThen fun _ middle _ => hlook middle)
  | afterwards hfirst hchecks _ hstops ihfirst ihgoes =>
    refine (ihfirst hm).andThen fun _ middle hran => ?_
    have hmiddle := hfirst.sound machine hm
    rw [hran] at hmiddle
    refine .check hchecks (fun value change hgo hpasses => ihgoes value hgo ?_) hstops
    exact hmiddle.2.1.toHolds.turn (hpasses.returned.symm ▸ hmiddle.2.1.returned)
  | endSwitch _ ih =>
    exact (ih hm).andThen fun _ _ _ => .silent (fun _ _ => rfl) fun _ => rfl
  | setReturn => exact .silent (fun _ _ => rfl) fun _ => rfl
  | calm _ ih => exact ih hm

end Plan

/-! ### Runs -/

/-- Streams with the given input, and with room for so many bytes of output. -/
def Console.limited (limit : Nat) (input : List UInt8) : Console :=
  ⟨input, "", some limit⟩

theorem Program.plan_streams (program : Program) (fuel limit : Nat) (console : Console) :
    (program.plan fuel).Streams limit (.initial console) :=
  (plan_lawful_only (fun declaration _ => CodePolicy.any_allows declaration) fuel).streams limit
    (Machine.only_initial console).holds

/-- The events of a run account for its streams, if it ends. -/
theorem Program.run_accounts {program : Program} {fuel : Nat} {console : Console}
    {finish : Machine} (h : (program.run fuel (.initial console)).state? = some finish) :
    (Machine.initial console).Accounts ((program.plan fuel).events (.initial console)) finish :=
  ((program.plan_streams fuel 0 console).accounts.imp (fun _ _ => id) (fun _ _ => id)
    fun _ => trivial).state? h

/-- Whether it ends or not, the events of a run account for what it does to its streams. -/
theorem Program.events_accounted (program : Program) (fuel : Nat) (console : Console) :
    ∃ after, (Machine.initial console).Accounts ((program.plan fuel).events (.initial console))
      after := by
  have haccounts := (program.plan_streams fuel 0 console).accounts
  cases hran : (program.plan fuel).run (.initial console) with
  | outOfFuel =>
    rw [hran] at haccounts
    exact haccounts
  | _ =>
    rw [hran] at haccounts
    exact ⟨_, haccounts⟩

/-- An output that fails stops a run at once and changes nothing before it. Take a run that
ends, with unlimited output, and the run of the same program on the same input with a limit.

* If everything that the first run writes fits, both runs end in the same way, with the same
  machine and the same events, the limit apart.
* Otherwise the second run ends with the fault of the stream. Its events are those of the
  first run up to the first text that does not fit, and then this text is refused. So its
  output is what the first run has written before, and no more of the input is read. -/
theorem run_limited_output (program : Program) (fuel : Nat) (input : List UInt8) (limit : Nat)
    (finish : Machine)
    (h : (program.run fuel (.initial (.ofInput input))).state? = some finish) :
    (program.plan fuel).run = program.run fuel ∧
    finish.console.output =
      StreamEvent.written ((program.plan fuel).events (.initial (.ofInput input))) ∧
    (finish.console.output.utf8ByteSize ≤ limit →
      program.run fuel (.initial (.limited limit input)) =
        (program.run fuel (.initial (.ofInput input))).mapState (Machine.withLimit limit) ∧
      (program.plan fuel).events (.initial (.limited limit input)) =
        (program.plan fuel).events (.initial (.ofInput input))) ∧
    (limit < finish.console.output.utf8ByteSize → ∃ before text later after,
      (program.plan fuel).events (.initial (.ofInput input)) = before ++ .wrote text :: later ∧
      (StreamEvent.written before).utf8ByteSize ≤ limit ∧
      limit < (StreamEvent.written before ++ text).utf8ByteSize ∧
      (program.plan fuel).events (.initial (.limited limit input)) =
        before ++ [.refused text] ∧
      program.run fuel (.initial (.limited limit input)) = .failed .outputFull after ∧
      after.console.output = StreamEvent.written before ∧
      (∃ rest, finish.console.output = after.console.output ++ rest) ∧
      input = (StreamEvent.lines before).flatten ++ after.console.input) := by
  have houtput : finish.console.output =
      StreamEvent.written ((program.plan fuel).events (.initial (.ofInput input))) :=
    (Program.run_accounts h).output.trans String.empty_append
  rcases (program.plan_streams fuel limit (.ofInput input)).limited rfl (Nat.zero_le limit) with
    hfree | ⟨before, text, later, after, hstop⟩
  · have hroom : finish.console.output.utf8ByteSize ≤ limit := by
      rw [houtput]
      simpa [Machine.initial, Console.ofInput] using hfree.room
    refine ⟨rfl, houtput, fun _ => ⟨hfree.run, hfree.events⟩, fun hfull => ?_⟩
    exact absurd hroom (Nat.not_le.2 hfull)
  · have hroom : (StreamEvent.written before).utf8ByteSize ≤ limit := by
      simpa [Machine.initial, Console.ofInput] using hstop.room
    have hfull : limit < (StreamEvent.written before ++ text).utf8ByteSize := by
      simpa [Machine.initial, Console.ofInput] using hstop.full
    have hwritten : finish.console.output =
        StreamEvent.written before ++ (text ++ StreamEvent.written later) := by
      rw [houtput, hstop.split, StreamEvent.written_append, StreamEvent.written]
    have hrun : program.run fuel (.initial (.limited limit input)) = .failed .outputFull after :=
      hstop.run
    have hevents : (program.plan fuel).events (.initial (.limited limit input)) =
        before ++ [.refused text] := hstop.events
    have haccounts := Program.run_accounts (congrArg Outcome.state? hrun)
    rw [hevents] at haccounts
    have houtput' : after.console.output = StreamEvent.written before := by
      rw [haccounts.output, StreamEvent.written_append]
      exact String.empty_append.trans String.append_empty
    have hinput : input = (StreamEvent.lines before).flatten ++ after.console.input := by
      have hlines : StreamEvent.lines (before ++ [.refused text]) = StreamEvent.lines before := by
        rw [StreamEvent.lines_append]
        exact List.append_nil _
      exact hlines ▸ haccounts.input.flatten
    refine ⟨rfl, houtput, fun hsmall => ?_, fun _ => ⟨before, text, later, after, hstop.split,
      hroom, hfull, hevents, hrun, houtput', ⟨_, houtput' ▸ hwritten⟩, hinput⟩⟩
    rw [hwritten, ← String.append_assoc, String.utf8ByteSize_append] at hsmall
    omega

/-- A program that writes, reads a line and writes it, and writes again. -/
def Program.echo : Program :=
  ⟨[], [⟨0, ⟨1, 1⟩, some "main", [], .block [
    .expr (.call ⟨2, 3⟩ (.named "print") [.text ⟨2, 9⟩ "ab"]),
    .expr (.call ⟨3, 3⟩ (.named "print") [.call ⟨3, 9⟩ (.named "input") []]),
    .expr (.call ⟨4, 3⟩ (.named "print") [.call ⟨4, 9⟩ (.named "input") []])]⟩]⟩

/-- With room for three bytes the second line is read but not written. -/
theorem run_limited_output_echo :
    ∃ finish before text later after,
      (Program.echo.run 20 (.initial (.ofInput [99, 10, 100, 10]))).state? = some finish ∧
      finish.console.output = "abcd" ∧
      (Program.echo.plan 20).events (.initial (.ofInput [99, 10, 100, 10])) =
        before ++ .wrote text :: later ∧
      Program.echo.run 20 (.initial (.limited 3 [99, 10, 100, 10])) =
        .failed .outputFull after ∧
      after.console.output = StreamEvent.written before := by
  have hends : (Program.echo.run 20 (.initial (.ofInput [99, 10, 100, 10]))).state?.map
      (·.console.output) = some "abcd" := by decide +kernel
  obtain ⟨finish, hfinish, houtput⟩ := Option.map_eq_some_iff.1 hends
  obtain ⟨_, _, _, hstop⟩ :=
    run_limited_output Program.echo 20 [99, 10, 100, 10] 3 finish hfinish
  obtain ⟨before, text, later, after, hsplit, _, _, _, hrun, hwritten, _⟩ :=
    hstop (houtput ▸ by decide)
  exact ⟨finish, before, text, later, after, hfinish, houtput, hsplit, hrun, hwritten⟩

end Betty
