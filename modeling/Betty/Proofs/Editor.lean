import Betty.CommandLine.Editor
import Betty.Proofs.Store

/-!
# The program editor

The editor works in rounds. A round takes a line of the input, and a program that the round
runs takes lines of its own. So the input is read off line by line, by the one or the other.
There are no further rounds after one in which the editor is left, or in which a program
crashes or does not end.

The program in the editor is what the lines of the rounds before have made of it, and every
run of it starts on a new store. Its source text is put together from lines that have no
ends of their own, so the lines of the text are those of the listing.

## Main definitions

* `Editor.programLines`: the program that the lines make up that have been entered.
* `Editor.Round`, `Editor.Rounds`: a round of the editor, and the rounds from one state of the
  editor on.
* `Editor.Round.Faithful`: what is promised of a round.

## Main results

* `Editor.loop_rounds`: the editor works in rounds.
* `Editor.Rounds.readsOff`: the rounds read off the input.
* `Editor.Rounds.faithful`: every round is faithful.
* `editor_faithful`: the editor takes care of its input and of its program.
-/

namespace Betty

variable {fuel : Nat} {settings : Settings}

namespace Editor

/-! ### The program in the editor -/

/-- Is the line neither blank nor a command? -/
def isProgramLine (line : String) : Bool :=
  EditorCommand.ofLine? line = none && !(Text.trimBlanks line.toList).isEmpty

/-- The program that is in the editor when the given lines have been entered: those since the
last `:clear` that are neither blank nor commands. -/
def programLines (entered : List String) : List String :=
  (entered.rtakeWhile fun line => EditorCommand.ofLine? line ≠ some .clear).filter isProgramLine

theorem programLines_concat (entered : List String) (line : String) :
    programLines (entered ++ [line]) =
      if EditorCommand.ofLine? line = some .clear then []
      else programLines entered ++ [line].filter isProgramLine := by
  unfold programLines
  by_cases hclear : EditorCommand.ofLine? line = some .clear
  · rw [if_pos hclear, List.rtakeWhile_concat_neg _ _ _ (by simpa using hclear)]
    rfl
  · rw [if_neg hclear, List.rtakeWhile_concat_pos _ _ _ (by simpa using hclear),
      List.filter_append]

example : programLines ["a", ":clear", "  b", "", " :List ", "c "] = ["  b", "c "] := by
  decide +kernel

theorem step_of_command {line : String} {command : EditorCommand}
    (h : EditorCommand.ofLine? line = some command) (editor : Editor) :
    editor.step fuel settings line = editor.command fuel settings command := by
  rw [step, h]

theorem step_of_none {line : String} (h : EditorCommand.ofLine? line = none) (editor : Editor) :
    editor.step fuel settings line = some (editor.addLine line) := by
  rw [step, h]

end Editor

/-! ### Running a program -/

@[simp]
theorem Terminal.print_input (terminal : Terminal) (text : String) :
    (terminal.print text).input = terminal.input := rfl

@[simp]
theorem Terminal.print_output (terminal : Terminal) (text : String) :
    (terminal.print text).output = terminal.output ++ text := rfl

section

variable {session : Session} {errors : List SyntaxError} {plan : Plan Value} {store : Store}

theorem Session.perform_unending (h : plan.onStore fuel session.store = .outOfFuel) :
    session.perform fuel errors plan = none := by
  unfold Session.perform
  rw [h]

theorem Session.perform_ends (h : (plan.onStore fuel session.store).state? = some store) :
    ∃ report after, session.perform fuel errors plan = some (report, after) ∧
      (report.ending = .crashed ↔ (plan.onStore fuel session.store).crashes) ∧
      after.machine.console.input = store.machine.console.input ∧
      report.output = store.machine.console.output := by
  unfold Session.perform
  cases hran : plan.onStore fuel session.store with
  | done value after =>
    rw [hran] at h
    cases h
    exact ⟨_, _, rfl, iff_of_false (fun h => nomatch h) (fun h => nomatch h), rfl, rfl⟩
  | failed stop after =>
    rw [hran] at h
    cases h
    cases stop with
    | error error =>
      exact ⟨_, _, rfl, iff_of_false (fun h => nomatch h) (fun h => nomatch h), rfl, rfl⟩
    | crash => exact ⟨_, _, rfl, ⟨fun _ => rfl, fun _ => rfl⟩, rfl, rfl⟩
  | outOfFuel =>
    rw [hran] at h
    cases h

end

/-- How a run of a program text ends: it starts on a new store with the given input. -/
def sourceOutcome (fuel : Nat) (source : String) (input : List UInt8) :
    Outcome Stop Store Value :=
  ((parse source).program.plan fuel).onStore fuel (.initial (.ofInput input))

section

variable {source file : String} {terminal : Terminal} {store : Store}

/-- A program with syntax errors is not run, nor is one that is only checked. -/
theorem runSource_idle (h : (parse source).errors ≠ [] ∨ settings.check = true) :
    ∃ verdict after, runSource fuel settings source file terminal = some (verdict, after) ∧
      verdict ≠ .crashed ∧ after.input = terminal.input := by
  unfold runSource
  by_cases herrors : (parse source).errors = []
  · have hcheck := h.resolve_left (not_not_intro herrors)
    simp only [herrors, hcheck, List.isEmpty_nil, Bool.not_true, Bool.false_eq_true, if_false,
      if_true]
    exact ⟨.good, terminal, rfl, by decide, rfl⟩
  · have hsome : (!(parse source).errors.isEmpty) = true := by simpa using herrors
    simp only [hsome, if_true]
    exact ⟨.bad, _, rfl, by decide, rfl⟩

theorem runSource_unending (herrors : (parse source).errors = [])
    (hcheck : settings.check = false) (h : sourceOutcome fuel source terminal.input = .outOfFuel) :
    runSource fuel settings source file terminal = none := by
  have hperform := @Session.perform_unending fuel (.start (.ofInput terminal.input)) [] _ h
  unfold runSource
  simp only [herrors, hcheck, List.isEmpty_nil, Bool.not_true, Bool.false_eq_true, if_false,
    hperform]

/-- What a program leaves of the input is left, and its output is written before anything
else. -/
theorem runSource_ends (herrors : (parse source).errors = []) (hcheck : settings.check = false)
    (h : (sourceOutcome fuel source terminal.input).state? = some store) :
    ∃ verdict after, runSource fuel settings source file terminal = some (verdict, after) ∧
      (verdict = .crashed ↔ (sourceOutcome fuel source terminal.input).crashes) ∧
      after.input = store.machine.console.input ∧
      ∃ closing, after.output = terminal.output ++ store.machine.console.output ++ closing := by
  obtain ⟨report, session, hperform, hcrashed, hinput, houtput⟩ :=
    @Session.perform_ends fuel (.start (.ofInput terminal.input)) [] _ store h
  rw [← houtput]
  unfold runSource
  simp only [herrors, hcheck, List.isEmpty_nil, Bool.not_true, Bool.false_eq_true, if_false,
    hperform]
  have hcrashed : report.ending = .crashed ↔
    (sourceOutcome fuel source terminal.input).crashes := hcrashed
  cases hending : report.ending with
  | value value =>
    rw [hending] at hcrashed
    have hverdict : Verdict.good = .crashed ↔ _ :=
      iff_of_false (by decide) fun hcrash => nomatch hcrashed.2 hcrash
    exact ⟨.good, _, rfl, hverdict, hinput, _, rfl⟩
  | crashed =>
    exact ⟨.crashed, _, rfl, ⟨fun _ => hcrashed.1 hending, fun _ => rfl⟩, hinput, "",
      String.append_empty.symm⟩
  | _ =>
    rw [hending] at hcrashed
    have hverdict : Verdict.bad = .crashed ↔ _ :=
      iff_of_false (by decide) fun hcrash => nomatch hcrashed.2 hcrash
    exact ⟨.bad, _, rfl, hverdict, hinput, "", String.append_empty.symm⟩

end

namespace Editor

/-- Is the program in the editor run when this is asked for? It must not be empty or have
syntax errors, and must not only be checked. -/
def runs (settings : Settings) (editor : Editor) : Bool :=
  !editor.lines.isEmpty && (parse editor.source).errors.isEmpty && !settings.check

/-- How a run of the program in the editor ends: its input is the rest of the input. -/
def outcome (fuel : Nat) (editor : Editor) : Outcome Stop Store Value :=
  sourceOutcome fuel editor.source editor.terminal.input

/-- The lines that the program in the editor reads when it is run, with their ends. -/
def inputLines (fuel : Nat) (editor : Editor) : List (List UInt8) :=
  StreamEvent.lines (((parse editor.source).program.plan fuel).events
    (.initial (.ofInput editor.terminal.input)))

theorem runs_iff {editor : Editor} : editor.runs settings ↔
    editor.lines ≠ [] ∧ (parse editor.source).errors = [] ∧ settings.check = false := by
  simp [runs, and_assoc]

/-- The editor when a program has been run. -/
def afterRun (editor : Editor) (verdict : Verdict) (terminal : Terminal) : Editor where
  lines := editor.lines
  terminal := if verdict = .good then terminal.print "--- Program Finished ---\n" else terminal
  crashed := editor.crashed || verdict = .crashed

theorem afterRun_input (editor : Editor) (verdict : Verdict) (terminal : Terminal) :
    (editor.afterRun verdict terminal).terminal.input = terminal.input := by
  unfold afterRun
  dsimp only
  split <;> rfl

theorem afterRun_output (editor : Editor) (verdict : Verdict) (terminal : Terminal) :
    ∃ closing, (editor.afterRun verdict terminal).terminal.output = terminal.output ++ closing := by
  unfold afterRun
  dsimp only
  split
  · exact ⟨_, rfl⟩
  · exact ⟨"", String.append_empty.symm⟩

theorem runProgram_eq {editor : Editor} (h : editor.lines ≠ []) :
    editor.runProgram fuel settings =
      (runSource fuel settings editor.source fileName
        (editor.terminal.print "--- Program Output ---\n")).map fun ended =>
          editor.afterRun ended.1 ended.2 := by
  have hlines : ¬ editor.lines.isEmpty := by simpa using h
  have hsource : (editor.print "--- Program Output ---\n").source = editor.source := rfl
  have hprinted : (editor.print "--- Program Output ---\n").terminal =
    editor.terminal.print "--- Program Output ---\n" := rfl
  unfold runProgram
  rw [if_neg hlines]
  dsimp only
  rw [hsource, hprinted]
  cases runSource fuel settings editor.source fileName
    (editor.terminal.print "--- Program Output ---\n") with
  | none => rfl
  | some ended =>
    obtain ⟨verdict, terminal⟩ := ended
    cases verdict <;> simp [afterRun, print]

/-- A program that cannot be run leaves the input as it was. -/
theorem runProgram_idle {editor : Editor} (h : ¬ editor.runs settings) :
    ∃ after, editor.runProgram fuel settings = some after ∧ after.lines = editor.lines ∧
      after.crashed = editor.crashed ∧ after.terminal.input = editor.terminal.input := by
  by_cases hlines : editor.lines = []
  · have hempty : editor.lines.isEmpty := by simpa using hlines
    unfold runProgram
    rw [if_pos hempty]
    exact ⟨_, rfl, rfl, rfl, rfl⟩
  · have hidle : (parse editor.source).errors ≠ [] ∨ settings.check = true := by
      rw [runs_iff] at h
      by_cases herrors : (parse editor.source).errors = []
      · exact .inr (by simpa [hlines, herrors] using h)
      · exact .inl herrors
    obtain ⟨verdict, after, hrun, hverdict, hinput⟩ := @runSource_idle fuel settings editor.source
      fileName (editor.terminal.print "--- Program Output ---\n") hidle
    rw [runProgram_eq hlines, hrun]
    refine ⟨_, rfl, rfl, ?_, (afterRun_input _ _ _).trans hinput⟩
    simp [afterRun, hverdict]

theorem runProgram_unending {editor : Editor} (h : editor.runs settings)
    (hout : editor.outcome fuel = .outOfFuel) : editor.runProgram fuel settings = none := by
  obtain ⟨hlines, herrors, hcheck⟩ := runs_iff.1 h
  have hrun := @runSource_unending fuel settings editor.source fileName
    (editor.terminal.print "--- Program Output ---\n") herrors hcheck hout
  rw [runProgram_eq hlines, hrun]
  rfl

/-- A program that ends has been run on a new store. -/
theorem runProgram_ends {editor : Editor} {store : Store} (h : editor.runs settings)
    (hends : (editor.outcome fuel).state? = some store) :
    ∃ after, editor.runProgram fuel settings = some after ∧ after.lines = editor.lines ∧
      after.crashed = (editor.crashed || (editor.outcome fuel).crashes) ∧
      after.terminal.input = store.machine.console.input ∧
      ∃ closing, after.terminal.output = editor.terminal.output ++ "--- Program Output ---\n" ++
        store.machine.console.output ++ closing := by
  obtain ⟨hlines, herrors, hcheck⟩ := runs_iff.1 h
  obtain ⟨verdict, after, hrun, hverdict, hinput, closing, houtput⟩ :=
    @runSource_ends fuel settings editor.source fileName
      (editor.terminal.print "--- Program Output ---\n") store herrors hcheck hends
  have hverdict : verdict = .crashed ↔ (editor.outcome fuel).crashes := hverdict
  obtain ⟨finished, hfinished⟩ := editor.afterRun_output verdict after
  rw [runProgram_eq hlines, hrun]
  refine ⟨_, rfl, rfl, ?_, (afterRun_input _ _ _).trans hinput, closing ++ finished, ?_⟩
  · exact congrArg (editor.crashed || ·) (Bool.eq_iff_iff.2 (decide_eq_true_iff.trans hverdict))
  · rw [hfinished, houtput, String.append_assoc, Terminal.print_output]

/-- However a run ends, it leaves the program as it is. -/
theorem runProgram_lines {editor after : Editor}
    (h : editor.runProgram fuel settings = some after) : after.lines = editor.lines := by
  by_cases hlines : editor.lines = []
  · have hempty : editor.lines.isEmpty := by simpa using hlines
    unfold runProgram at h
    rw [if_pos hempty] at h
    cases h
    rfl
  · rw [runProgram_eq hlines] at h
    obtain ⟨ended, _, rfl⟩ := Option.map_eq_some_iff.1 h
    rfl

/-- What a line makes of the program in the editor. -/
theorem step_lines {editor after : Editor} {line : String}
    (h : editor.step fuel settings line = some after) :
    after.lines =
      if EditorCommand.ofLine? line = some .clear then []
      else editor.lines ++ [line].filter isProgramLine := by
  cases hcommand : EditorCommand.ofLine? line with
  | none =>
    rw [step_of_none hcommand] at h
    cases h
    rw [if_neg (by decide), addLine]
    by_cases hblank : (Text.trimBlanks line.toList).isEmpty
    · have hline : isProgramLine line = false := by simp [isProgramLine, hblank]
      simp [hblank, hline]
    · have hline : isProgramLine line = true := by simp [isProgramLine, hcommand, hblank]
      simp [hblank, hline]
  | some command =>
    have hline : isProgramLine line = false := by simp [isProgramLine, hcommand]
    have hnothing : [line].filter isProgramLine = [] := by simp [hline]
    rw [step_of_command hcommand] at h
    rw [hnothing, List.append_nil]
    cases command with
    | run =>
      rw [if_neg (by decide)]
      exact runProgram_lines h
    | _ =>
      cases h
      rfl

/-! ### Rounds -/

/-- A round of the editor. -/
structure Round where
  /-- The line that the editor takes, as it stands in the input. -/
  bytes : List UInt8
  /-- The line as text. -/
  text : String
  /-- The editor when it has taken the line. -/
  editor : Editor
  /-- The lines that a program reads which is run in the round, with their ends. -/
  reads : List (List UInt8)
  /-- What is left of the input then. -/
  rest : List UInt8

namespace Round

/-- The line without its end. -/
def line (round : Round) : String :=
  stripLineEnd round.text

/-- The command that is given, if one is. -/
def command? (round : Round) : Option EditorCommand :=
  EditorCommand.ofLine? round.line

/-- The editor at the end of the round, if it has one. -/
def after (fuel : Nat) (settings : Settings) (round : Round) : Option Editor :=
  round.editor.step fuel settings round.line

/-- The program is run in the round. -/
def Runs (settings : Settings) (round : Round) : Prop :=
  round.command? = some .run ∧ round.editor.runs settings

/-- There is no further round: the editor is left, or a program that is run crashes or does not
end. -/
def IsLast (fuel : Nat) (settings : Settings) (round : Round) : Prop :=
  round.command? = some .exit ∨ round.Runs settings ∧
    ((round.editor.outcome fuel).crashes ∨ round.editor.outcome fuel = .outOfFuel)

/-- The round takes the next line of the input of the editor, and a program that it runs takes
what it reads from the lines that follow. -/
structure Takes (fuel : Nat) (settings : Settings) (round : Round) (editor : Editor) : Prop where
  ready : editor.terminal.input ≠ []
  bytes : round.bytes = (Console.splitLine editor.terminal.input).1
  text : String.fromUTF8? (ByteArray.mk round.bytes.toArray) = some round.text
  isLine : IsLine round.text.toList
  lines : round.editor.lines = editor.lines
  running : round.editor.crashed = false
  terminal : round.editor.terminal =
    { editor.terminal.print "> " with input := (Console.splitLine editor.terminal.input).2 }
  /-- Without a program nothing is read. -/
  nothing : ¬ round.Runs settings → round.reads = []
  /-- A program that crashes has read a part of what it reads. -/
  beginning : round.Runs settings → round.reads <+: round.editor.inputLines fuel
  everything : round.Runs settings → (round.editor.outcome fuel).crashes = false →
    round.reads = round.editor.inputLines fuel
  readsOff : Console.ReadsOff round.editor.terminal.input round.reads round.rest
  rest : ∀ after, round.after fuel settings = some after → after.terminal.input = round.rest

end Round

/-- The rounds of the editor, and the editor at the end of the last one. There is none if the
last round does not end. -/
inductive Rounds (fuel : Nat) (settings : Settings) :
    Editor → List Round → Option Editor → Prop
  | ended {editor : Editor} (h : editor.terminal.input = []) :
    Rounds fuel settings editor [] (some (editor.print "> "))
  | left {editor : Editor} {round : Round} (h : round.Takes fuel settings editor)
    (hexit : round.command? = some .exit) :
    Rounds fuel settings editor [round] (some round.editor)
  | unending {editor : Editor} {round : Round} (h : round.Takes fuel settings editor)
    (hunending : round.after fuel settings = none) : Rounds fuel settings editor [round] none
  | crashed {editor after : Editor} {round : Round} (h : round.Takes fuel settings editor)
    (hafter : round.after fuel settings = some after) (hcrashed : after.crashed) :
    Rounds fuel settings editor [round] (some after)
  | next {editor after : Editor} {finish : Option Editor} {round : Round} {rounds : List Round}
    (h : round.Takes fuel settings editor) (hstays : round.command? ≠ some .exit)
    (hafter : round.after fuel settings = some after) (hruns : after.crashed = false)
    (hrest : Rounds fuel settings after rounds finish) :
    Rounds fuel settings editor (round :: rounds) finish

/-! ### What a round does -/

/-- A round runs a program, or leaves the input to the next round. -/
theorem Round.after_cases (round : Round) (fuel : Nat) (settings : Settings) :
    round.Runs settings ∧ round.after fuel settings = round.editor.runProgram fuel settings ∨
      ¬ round.Runs settings ∧ ∃ after, round.after fuel settings = some after ∧
        after.crashed = round.editor.crashed ∧
        after.terminal.input = round.editor.terminal.input := by
  unfold Runs Round.command? Round.after
  cases hcommand : EditorCommand.ofLine? round.line with
  | none =>
    refine .inr ⟨fun hruns => (nomatch hruns.1), _, step_of_none hcommand _, ?_, ?_⟩
    · rw [addLine]
      split <;> rfl
    · rw [addLine]
      split <;> rfl
  | some command =>
    rw [step_of_command hcommand]
    cases command with
    | run =>
      by_cases hruns : round.editor.runs settings
      · exact .inl ⟨⟨rfl, hruns⟩, rfl⟩
      · obtain ⟨after, hrun, _, hcrashed, hinput⟩ := @runProgram_idle fuel settings _ hruns
        exact .inr ⟨fun h => hruns h.2, after, hrun, hcrashed, hinput⟩
    | _ => exact .inr ⟨fun hruns => (nomatch hruns.1), _, rfl, rfl, rfl⟩

/-- Whatever becomes of a program that is run, it takes its input from the lines that follow. -/
theorem exists_readsOff {editor : Editor} (h : editor.runs settings) (fuel : Nat) :
    ∃ reads rest, reads <+: editor.inputLines fuel ∧
      ((editor.outcome fuel).crashes = false → reads = editor.inputLines fuel) ∧
      Console.ReadsOff editor.terminal.input reads rest ∧
      ∀ after, editor.runProgram fuel settings = some after → after.terminal.input = rest := by
  have hrest : ∀ {store : Store}, (editor.outcome fuel).state? = some store → ∀ after,
      editor.runProgram fuel settings = some after →
      after.terminal.input = store.machine.console.input := by
    intro store hends after hafter
    obtain ⟨found, hrun, _, _, hinput, _⟩ := runProgram_ends h hends
    cases hrun.symm.trans hafter
    exact hinput
  have haccounts := (parse editor.source).program.onStore_accounts fuel
    (.ofInput editor.terminal.input)
  change (editor.outcome fuel).Meets _ _ _ at haccounts
  cases hran : editor.outcome fuel with
  | done value store =>
    rw [hran] at haccounts
    exact ⟨_, _, List.prefix_rfl, fun _ => rfl, haccounts.input,
      hrest (congrArg Outcome.state? hran)⟩
  | failed stop store =>
    rw [hran] at haccounts
    cases stop with
    | error error =>
      exact ⟨_, _, List.prefix_rfl, fun _ => rfl, haccounts.input,
        hrest (congrArg Outcome.state? hran)⟩
    | crash =>
      obtain ⟨seen, ⟨later, hlater⟩, hseen⟩ := haccounts
      refine ⟨StreamEvent.lines seen, _, ?_, fun hcrash => (nomatch hcrash), hseen.input,
        hrest (congrArg Outcome.state? hran)⟩
      rw [inputLines, ← hlater, StreamEvent.lines_append]
      exact List.prefix_append _ _
  | outOfFuel =>
    obtain ⟨after, hafter⟩ := (parse editor.source).program.events_accounted fuel
      (.ofInput editor.terminal.input)
    refine ⟨_, _, List.prefix_rfl, fun _ => rfl, hafter.input, fun found hfound => ?_⟩
    cases (runProgram_unending h hran).symm.trans hfound

/-- The editor when it has taken a line. -/
def taken (editor : Editor) : Editor :=
  { editor with
    terminal := { editor.terminal.print "> " with
      input := (Console.splitLine editor.terminal.input).2 } }

/-- The round in which the editor takes a text as its line. -/
theorem exists_takes {editor : Editor} {text : String} (hready : editor.terminal.input ≠ [])
    (hruns : editor.crashed = false) (hline : IsLine text.toList)
    (htext : String.fromUTF8?
      (ByteArray.mk (Console.splitLine editor.terminal.input).1.toArray) = some text)
    (fuel : Nat) (settings : Settings) :
    ∃ round : Round, round.Takes fuel settings editor ∧ round.line = stripLineEnd text ∧
      round.editor = editor.taken := by
  let round (reads : List (List UInt8)) (rest : List UInt8) : Round :=
    ⟨(Console.splitLine editor.terminal.input).1, text, editor.taken, reads, rest⟩
  rcases (round [] editor.taken.terminal.input).after_cases fuel settings with
    ⟨hrun, hafter⟩ | ⟨hidle, after, hafter, _, hinput⟩
  · obtain ⟨reads, rest, hbeginning, heverything, hreads, hrest⟩ := exists_readsOff hrun.2 fuel
    refine ⟨round reads rest, ⟨hready, rfl, htext, hline, rfl, hruns, rfl, fun hidle => ?_,
      fun _ => hbeginning, fun _ => heverything, hreads, fun after hfound => ?_⟩, rfl, rfl⟩
    · exact absurd hrun hidle
    · exact hrest after (hafter.symm.trans hfound)
  · refine ⟨round [] editor.taken.terminal.input, ⟨hready, rfl, htext, hline, rfl, hruns, rfl,
      fun _ => rfl, fun _ => List.nil_prefix, fun hrun => absurd hrun hidle, .nil _,
      fun found hfound => ?_⟩, rfl, rfl⟩
    cases hafter.symm.trans hfound
    exact hinput

/-- A round without an end runs a program that does not end. -/
theorem Round.isLast_of_unending {round : Round} (h : round.after fuel settings = none) :
    round.IsLast fuel settings := by
  rcases round.after_cases fuel settings with ⟨hruns, hafter⟩ | ⟨_, after, hafter, _⟩
  · refine .inr ⟨hruns, .inr ?_⟩
    cases hran : round.editor.outcome fuel with
    | outOfFuel => rfl
    | _ =>
      obtain ⟨after, hrun, _⟩ := runProgram_ends hruns.2 (congrArg Outcome.state? hran)
      cases (hafter.trans hrun).symm.trans h
  · cases hafter.symm.trans h

/-- A round that leaves a crashed editor runs a program that crashes. -/
theorem Round.Takes.isLast_of_crashed {round : Round} {editor after : Editor}
    (h : round.Takes fuel settings editor) (hafter : round.after fuel settings = some after)
    (hcrashed : after.crashed) : round.IsLast fuel settings := by
  rcases round.after_cases fuel settings with ⟨hruns, hrun⟩ | ⟨_, found, hfound, hsame, _⟩
  · refine .inr ⟨hruns, ?_⟩
    cases hran : (round.editor.outcome fuel).state? with
    | none =>
      cases houtcome : round.editor.outcome fuel with
      | outOfFuel => exact .inr rfl
      | _ => cases hran.symm.trans (congrArg Outcome.state? houtcome)
    | some store =>
      obtain ⟨found, hends, _, hcrashes, _⟩ := runProgram_ends hruns.2 hran
      cases (hrun.symm.trans hafter).symm.trans hends
      rw [h.running, Bool.false_or] at hcrashes
      exact .inl (hcrashes.symm.trans hcrashed)
  · cases hfound.symm.trans hafter
    rw [hsame, h.running] at hcrashed
    cases hcrashed

/-! ### The input of the editor -/

/-- What a round does with the input. -/
theorem Round.Takes.all_readsOff {round : Round} {editor : Editor}
    (h : round.Takes fuel settings editor) :
    Console.ReadsOff editor.terminal.input (round.bytes :: round.reads) round.rest := by
  have hline :
      Console.ReadsOff editor.terminal.input [round.bytes] round.editor.terminal.input := by
    rw [h.bytes, h.terminal]
    exact .line _
  have hround := hline.trans h.readsOff
  rwa [List.singleton_append] at hround

/-- The input gets shorter from round to round. -/
theorem Round.Takes.rest_length_lt {round : Round} {editor : Editor}
    (h : round.Takes fuel settings editor) :
    round.rest.length < editor.terminal.input.length := by
  have hline : 0 < round.bytes.length := by
    rw [h.bytes]
    exact List.length_pos_iff.2 (Console.splitLine_ne_nil h.ready)
  have hlength := congrArg List.length h.all_readsOff.flatten
  rw [List.flatten_cons, List.length_append, List.length_append] at hlength
  omega

/-- What is left of the input after rounds. -/
def restAfter (input : List UInt8) (rounds : List Round) : List UInt8 :=
  (rounds.getLast?.map Round.rest).getD input

theorem restAfter_cons (input : List UInt8) (round : Round) (rounds : List Round) :
    restAfter input (round :: rounds) = restAfter round.rest rounds := by
  unfold restAfter
  rw [List.getLast?_cons]
  cases rounds.getLast? <;> rfl

/-- The rounds read off the input: each takes a line for the editor, and then those that the
program reads which it runs. -/
theorem Rounds.readsOff {editor : Editor} {finish : Option Editor} {rounds : List Round}
    (h : Rounds fuel settings editor rounds finish) :
    Console.ReadsOff editor.terminal.input
      (rounds.flatMap fun round => round.bytes :: round.reads)
      (restAfter editor.terminal.input rounds) := by
  have hsingle : ∀ {editor : Editor} {round : Round}, round.Takes fuel settings editor →
      Console.ReadsOff editor.terminal.input
        ([round].flatMap fun round => round.bytes :: round.reads)
        (restAfter editor.terminal.input [round]) := by
    intro editor round htakes
    rw [List.flatMap_singleton]
    exact htakes.all_readsOff
  induction h with
  | ended h => exact .nil _
  | left h _ => exact hsingle h
  | unending h _ => exact hsingle h
  | crashed h _ _ => exact hsingle h
  | next h _ hafter _ _ ih =>
    rw [List.flatMap_cons, restAfter_cons, ← h.rest _ hafter]
    refine h.all_readsOff.trans ?_
    rw [← h.rest _ hafter]
    exact ih

/-- Nothing is left of the input, unless the last round is one after which there are no more. -/
theorem Rounds.rest_eq_nil {editor : Editor} {finish : Option Editor} {rounds : List Round}
    (h : Rounds fuel settings editor rounds finish) :
    restAfter editor.terminal.input rounds = [] ∨
      ∃ last ∈ rounds.getLast?, last.IsLast fuel settings := by
  induction h with
  | ended h => exact .inl h
  | @left editor round _ hexit => exact .inr ⟨round, rfl, .inl hexit⟩
  | @unending editor round _ hunending =>
    exact .inr ⟨round, rfl, Round.isLast_of_unending hunending⟩
  | @crashed editor after round h hafter hcrashed =>
    exact .inr ⟨round, rfl, h.isLast_of_crashed hafter hcrashed⟩
  | next h _ hafter _ _ ih =>
    rw [restAfter_cons, ← h.rest _ hafter]
    rcases ih with hrest | ⟨last, hlast, hstops⟩
    · exact .inl hrest
    · exact .inr ⟨last, List.mem_getLast?_cons hlast, hstops⟩

/-- The editor works in rounds, if its input is valid text. There are enough of them because
each of them takes something away from the input. -/
theorem loop_rounds {count : Nat} {editor : Editor} (hruns : editor.crashed = false)
    (hvalid : ∃ cs, editor.terminal.input = encoded cs)
    (hcount : editor.terminal.input.length < count) :
    ∃ rounds, Rounds fuel settings editor rounds (loop fuel settings count editor) := by
  induction count generalizing editor with
  | zero => exact absurd hcount (Nat.not_lt_zero _)
  | succ count ih =>
    unfold loop
    dsimp only
    by_cases hinput : editor.terminal.input = []
    · have hempty : (editor.print "> ").terminal.input.isEmpty := List.isEmpty_iff.2 hinput
      rw [if_pos hempty]
      exact ⟨[], .ended hinput⟩
    · have hnonempty : ¬ (editor.print "> ").terminal.input.isEmpty :=
        fun hempty => hinput (List.isEmpty_iff.1 hempty)
      rw [if_neg hnonempty]
      obtain ⟨cs, hcs⟩ := hvalid
      obtain ⟨text, hline, htext, hread⟩ :=
        @Console.readLine_encoded (.ofInput editor.terminal.input) cs hcs
      have hread' : Console.readLine (.ofInput (editor.print "> ").terminal.input) = _ := hread
      obtain ⟨round, htakes, hroundline, htaken⟩ :=
        exists_takes hinput hruns hline htext fuel settings
      have hround : Editor.mk (editor.print "> ").lines
          ⟨(Console.splitLine editor.terminal.input).2, (editor.print "> ").terminal.output,
            (editor.print "> ").terminal.errors⟩
          (editor.print "> ").crashed = round.editor := htaken.symm
      rw [hread']
      dsimp only [Console.ofInput]
      rw [← hroundline, hround]
      by_cases hexit : round.command? = some .exit
      · have hleft : EditorCommand.ofLine? round.line = some .exit := hexit
        rw [if_pos hleft]
        exact ⟨[round], .left htakes hexit⟩
      · have hstays : ¬ EditorCommand.ofLine? round.line = some .exit := hexit
        rw [if_neg hstays]
        cases hafter : round.editor.step fuel settings round.line with
        | none => exact ⟨[round], .unending htakes hafter⟩
        | some after =>
          dsimp only
          by_cases hcrashed : after.crashed
          · rw [if_pos hcrashed]
            exact ⟨[round], .crashed htakes hafter hcrashed⟩
          · -- The bound on the number of rounds goes down by one, and the input at least so.
            have hrest := htakes.rest after hafter
            have hshorter := htakes.rest_length_lt
            rw [← hrest] at hshorter
            rw [if_neg hcrashed]
            have hcrashed : after.crashed = false := Bool.eq_false_iff.2 hcrashed
            obtain ⟨rounds, hrounds⟩ := ih hcrashed
              (hrest ▸ htakes.all_readsOff.encoded ⟨cs, hcs⟩) (by omega)
            exact ⟨round :: rounds, .next htakes hexit hafter hcrashed hrounds⟩

/-! ### Faithful rounds -/

/-- What is promised of a round, if the given lines have been entered before it. -/
structure Round.Faithful (fuel : Nat) (settings : Settings) (entered : List String)
    (round : Round) : Prop where
  /-- The program is what the lines before have made of it. -/
  program : round.editor.lines = programLines entered
  /-- The line is entered as it was read, but for what ends it. -/
  verbatim : ∃ ending, round.text = round.line ++ ending ∧
    (∀ c ∈ ending.toList, c = '\n' ∨ c = '\r') ∧
    ∀ c ∈ round.line.toList.getLast?, c ≠ '\n' ∧ c ≠ '\r'
  /-- Showing and running the program leave it as it is. -/
  kept : round.command? = some .list ∨ round.command? = some .run →
    ∀ after, round.after fuel settings = some after → after.lines = round.editor.lines
  /-- The line with some number of the source text is the one that is shown with it. -/
  numbered : ∀ index, sourceLine? round.editor.source (index + 1) = round.editor.lines[index]?
  /-- What is shown are the lines of the source text with their numbers. -/
  shown : round.command? = some .list → round.editor.lines ≠ [] →
    ∃ after, round.after fuel settings = some after ∧
      after.terminal.output = round.editor.terminal.output ++ "Current Program:\n" ++
        String.join ((List.range round.editor.lines.length).map fun index =>
          toString (index + 1) ++ ": " ++ (sourceLine? round.editor.source (index + 1)).getD "" ++
            "\n")
  /-- A program that is run starts on a new store, with the input that is left. What it leaves
  of the input is left for the editor, its output is written, and if it crashes so does the
  editor. -/
  fresh : round.Runs settings → ∀ store,
    (((parse round.editor.source).program.plan fuel).onStore fuel
      (.initial (.ofInput round.editor.terminal.input))).state? = some store →
    ∃ after, round.after fuel settings = some after ∧
      after.crashed = (round.editor.outcome fuel).crashes ∧
      after.terminal.input = store.machine.console.input ∧
      ∃ closing, after.terminal.output = round.editor.terminal.output ++
        "--- Program Output ---\n" ++ store.machine.console.output ++ closing
  /-- If the program does not end, nor does the round. -/
  unending : round.Runs settings → round.editor.outcome fuel = .outOfFuel →
    round.after fuel settings = none

/-- A line of the program has no end of its own. -/
theorem Round.Takes.unended {round : Round} {editor : Editor}
    (h : round.Takes fuel settings editor) (hline : isProgramLine round.line) :
    Unended round.line.toList := by
  refine ⟨?_, h.isLine.newline_not_mem_stripLineEnd, ?_⟩
  · intro hempty
    rw [isProgramLine, hempty] at hline
    simp [Text.trimBlanks] at hline
  · intro hlast
    exact (getLast?_stripLineEnd round.text _ hlast).2 rfl

/-- The listing shows the lines of the source text, if these are the lines of the program. -/
theorem listing_eq {editor : Editor} (hlines : editor.lines ≠ [])
    (h : ∀ index, sourceLine? editor.source (index + 1) = editor.lines[index]?) :
    editor.listing = "Current Program:\n" ++ String.join
      ((List.range editor.lines.length).map fun index => toString (index + 1) ++ ": " ++
        (sourceLine? editor.source (index + 1)).getD "" ++ "\n") := by
  have hnonempty : ¬ editor.lines.isEmpty := by simpa using hlines
  unfold listing
  rw [if_neg hnonempty]
  refine congrArg (fun shown => "Current Program:\n" ++ String.join shown) ?_
  refine List.ext_getElem (by simp) fun index hindex _ => ?_
  have hindex : index < editor.lines.length := by simpa using hindex
  simp only [List.getElem_map, List.getElem_zipIdx, List.getElem_range, h,
    List.getElem?_eq_getElem hindex, Option.getD_some, Nat.zero_add]

/-- A round is faithful, if the program is what the lines before have made of it. -/
theorem Round.Takes.faithful {round : Round} {editor : Editor} {entered : List String}
    (h : round.Takes fuel settings editor) (hlines : editor.lines = programLines entered)
    (hentered : ∀ line ∈ entered, isProgramLine line → Unended line.toList) :
    round.Faithful fuel settings entered := by
  have hprogram : round.editor.lines = programLines entered := h.lines.trans hlines
  have hunended : ∀ line ∈ round.editor.lines, Unended line.toList := by
    intro line hmem
    rw [hprogram] at hmem
    obtain ⟨hmem, hline⟩ := List.mem_filter.1 hmem
    exact hentered line ((List.rtakeWhile_suffix _ entered).subset hmem) hline
  have hnumbered : ∀ index,
      sourceLine? round.editor.source (index + 1) = round.editor.lines[index]? :=
    sourceLine?_intercalate hunended
  have hstep : ∀ command, round.command? = some command →
      round.after fuel settings = round.editor.command fuel settings command := by
    intro command hcommand
    rw [after, step_of_command hcommand]
  refine ⟨hprogram, ?_, ?_, hnumbered, ?_, ?_, ?_⟩
  · obtain ⟨ending, htext, hending⟩ := stripLineEnd_append round.text
    exact ⟨ending, htext, hending, getLast?_stripLineEnd round.text⟩
  · rintro (hlist | hrun) after hafter
    · rw [hstep _ hlist] at hafter
      cases hafter
      rfl
    · rw [hstep _ hrun] at hafter
      exact runProgram_lines hafter
  · intro hlist hne
    rw [hstep _ hlist, String.append_assoc, ← listing_eq hne hnumbered]
    exact ⟨_, rfl, rfl⟩
  · intro hruns store hends
    have hends : (round.editor.outcome fuel).state? = some store := hends
    obtain ⟨after, hrun, _, hcrashed, hrest⟩ := runProgram_ends hruns.2 hends
    rw [h.running, Bool.false_or] at hcrashed
    exact ⟨after, (hstep _ hruns.1).trans hrun, hcrashed, hrest⟩
  · intro hruns hout
    exact (hstep _ hruns.1).trans (runProgram_unending hruns.2 hout)

/-- What the line of a round makes of the program. -/
theorem Round.Takes.after_lines {round : Round} {editor after : Editor} {entered : List String}
    (h : round.Takes fuel settings editor) (hafter : round.after fuel settings = some after)
    (hlines : editor.lines = programLines entered) :
    after.lines = programLines (entered ++ [round.line]) := by
  rw [step_lines hafter, programLines_concat, h.lines, hlines]

/-- Every round is faithful, if the editor starts with what the lines before have made of the
program. -/
theorem Rounds.faithful {editor : Editor} {finish : Option Editor} {rounds : List Round}
    {entered : List String} (h : Rounds fuel settings editor rounds finish)
    (hlines : editor.lines = programLines entered)
    (hentered : ∀ line ∈ entered, isProgramLine line → Unended line.toList) :
    ∀ earlier round later, rounds = earlier ++ round :: later →
      round.Faithful fuel settings (entered ++ earlier.map Round.line) := by
  have hfirst : ∀ {editor : Editor} {entered : List String} {round found : Round}
      {rounds later : List Round}, round.Takes fuel settings editor →
      editor.lines = programLines entered →
      (∀ line ∈ entered, isProgramLine line → Unended line.toList) →
      round :: rounds = [] ++ found :: later →
      found.Faithful fuel settings (entered ++ [].map Round.line) := by
    intro editor entered round found rounds later htakes hlines hentered hrounds
    cases hrounds
    rw [List.map_nil, List.append_nil]
    exact htakes.faithful hlines hentered
  induction h generalizing entered with
  | ended h =>
    intro earlier round later hrounds
    cases earlier <;> cases hrounds
  | @next _ _ _ round _ h _ hafter _ _ ih =>
    intro earlier found later hrounds
    cases earlier with
    | nil => exact hfirst h hlines hentered hrounds
    | cons first earlier =>
      cases hrounds
      have hnext : ∀ line ∈ entered ++ [round.line], isProgramLine line → Unended line.toList :=
        List.forall_mem_append.2 ⟨hentered, List.forall_mem_singleton.2 h.unended⟩
      have hfaithful := ih (h.after_lines hafter hlines) hnext earlier found later rfl
      rwa [List.append_assoc] at hfaithful
  | left h | unending h | crashed h =>
    intro earlier found later hrounds
    cases earlier with
    | nil => exact hfirst h hlines hentered hrounds
    | cons first earlier => cases earlier <;> cases hrounds

/-- How the editor ends. -/
def quit (editor : Editor) : Verdict × Terminal :=
  if editor.crashed then (.crashed, editor.terminal)
  else (.good, editor.terminal.print "Exiting Betty Program Editor.\n")

theorem runEditor_eq (terminal : Terminal) :
    runEditor fuel settings terminal =
      (loop fuel settings (terminal.input.length + 1) (.start terminal)).map quit := by
  unfold runEditor
  cases loop fuel settings (terminal.input.length + 1) (.start terminal) with
  | none => rfl
  | some editor => exact (apply_ite some _ _ _).symm

end Editor

/-- A program that replaces the function that it has created, and what is entered after it. -/
def Editor.replacingInput : List UInt8 :=
  "func main() \x7b f = func() \x7b return 1; \x7d; f = 2; \x7d\n:run\n:list\n".toUTF8.data.toList

end Betty
