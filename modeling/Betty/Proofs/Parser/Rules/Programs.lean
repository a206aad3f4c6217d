import Betty.Proofs.Parser.Rules.Statements

/-!
# What the rules for programs do

The rules for global variables, functions and whole programs go on after every error, and
do not stop before the end of the text.

## Main results

* `program_reads`: a program is read without a failure.
* `program_end`: it is read to the end of the text.
-/

namespace Betty.Grammar

open Reading

namespace Outlook

variable (outlook : Outlook)

/-- The functions of a program, each with a name. -/
def functions : Product (List Declaration) where
  places := List.flatMap Declaration.declared
  sound found := ∀ declaration ∈ found, (outlook.function (·.isSome)).sound declaration

def program : Product Program where
  places := Program.declared
  sound found := outlook.functions.sound found.functions

end Outlook

section

variable (outlook : Outlook) (hmild : outlook.mild = none) (fuel : Nat) (input : Input)

include hmild in
theorem globalRound_reads :
    RoundReads outlook input (fun _ => []) (fun _ _ => True) (fun _ => True) (fun _ => True)
      (fun _ => False) (fuel + 1 < 16 * input.ahead.length + 1) (globalRound fuel () input) := by
  have b : ∀ {input}, outlook.Braces (.loose 0) input := .of_none hmild _ _
  unfold globalRound RoundReads
  simp only [atKeyword, Action.meets_bind, Action.meets_gets]
  split
  · next hglobal =>
    simp only [Action.meets_bind, Action.meets_recover, Action.meets_update]
    -- Once the keyword is taken, a failure cannot give it back.
    refine Outcome.Meets.imp (take_reads (Lexeme.isKeyword_iff.1 hglobal) rfl b) ?_
      (fun _ _ h => h.1.elim) False.elim
    rintro _ i₁ ⟨h₁, _, l₁⟩
    have h₁ := h₁.imp (List.nil_sublist _) id
    refine Outcome.Meets.imp (names_reads .globalVariable fuel b) ?_ ?_ (by omega)
    · rintro found i₂ ⟨h₂, _, l₂⟩
      refine Outcome.Meets.imp (expectSemicolon_reads b) ?_ (fun _ _ h => h.1.elim) False.elim
      rintro _ i₃ ⟨h₃, _, l₃⟩
      exact ⟨((h₁.trans h₂).trans h₃).imp (.refl _) fun _ => trivial, by omega,
        trivial, by omega⟩
    · rintro error i₂ ⟨_, h₂, hplace⟩
      obtain ⟨hreached, hshorter⟩ := Reached.synchronize outlook (h₁.leads.trans h₂) hplace
        (.refl (i₂.report error))
      have hlater := h₂.length_le
      rw [Input.report_ahead] at hshorter
      exact ⟨hreached.imp (.refl _) fun _ => trivial, by omega, trivial, by omega⟩
  · exact ⟨.refl outlook [] input, Nat.le_refl _, trivial⟩

include hmild in
theorem globals_reads :
    Reads outlook input 0 [] .nothing (fun _ => True) (fun _ => False)
      (fuel < 16 * input.ahead.length + 1) (globals fuel input) := by
  induction fuel generalizing input with
  | zero => exact Nat.succ_pos _
  | succ fuel ih =>
    exact globals_repeats.reads_succ (fun _ => .nothing) (fun _ => rfl) (fun _ _ => rfl)
      (fun _ _ => trivial) (fun _ _ _ _ _ => trivial) (globalRound_reads outlook hmild fuel input)
      fun _ input _ => ih input

/-- A function with a name takes its keyword even if it fails. -/
theorem definition_failed :
    (definition fuel input).Meets (fun _ _ => True) (fun _ after => input.advance.Leads after)
      True := by
  cases fuel with
  | zero => trivial
  | succ fuel =>
    rw [definition]
    refine (meets_position _).2 ?_
    simp only [advance, Action.meets_bind, Action.meets_update]
    refine Outcome.Meets.imp (expectName_reads .function (Outlook.any_braces (.loose 0) _)) ?_
      (fun _ _ h => h.2.1) False.elim
    rintro name i₁ ⟨h₁, b₁, _⟩
    exact Outcome.Meets.imp ((rules .any fuel).function _ _ b₁.loosen) (fun _ _ _ => trivial)
      (fun _ _ h => h₁.leads.trans h.2.1) fun _ => trivial

include hmild in
theorem functionRound_reads :
    RoundReads outlook input outlook.functions.places
      (fun found _ => outlook.functions.sound found) (fun _ => True) (fun _ => True)
      (fun _ => False) (fuel + 1 < 16 * input.ahead.length + 2) (functionRound fuel () input) := by
  have b : ∀ {input}, outlook.Braces (.loose 0) input := .of_none hmild _ _
  have hnothing : outlook.functions.sound [] := List.forall_mem_nil _
  unfold functionRound RoundReads
  refine (meets_lexeme _).2 fun found hfound => ?_
  split
  · exact ⟨(Reached.refl outlook [] input).imp (.refl _) fun _ => hnothing, Nat.le_refl _,
      trivial⟩
  · have hahead : input.ahead ≠ [] := Input.ahead_ne_nil (by simp [hfound])
    have hlength := Input.advance_length hahead
    simp only [Action.meets_bind, Action.meets_recover, Action.meets_update]
    refine Outcome.Meets.imp
      (((rules outlook fuel).definition hfound b).and (definition_failed fuel input))
      ?_ ?_ (by omega)
    · rintro declaration i₁ ⟨⟨h₁, _, l₁⟩, _⟩
      refine ⟨h₁.imp ?_ List.forall_mem_singleton.2, by omega, trivial, by omega⟩
      simp [Outlook.functions, Outlook.function]
    · rintro error i₁ ⟨⟨_, h₁, hplace⟩, hadvanced⟩
      have hskip : (i₁.report error).Leads (i₁.report error).skipBody :=
        .skipBody (Input.report_errors_ne _ _)
      have hshorter := hskip.length_le
      have hlater := hadvanced.length_le
      rw [Input.report_ahead] at hshorter
      exact ⟨(Reached.report h₁ hplace hskip).imp (.refl _) fun _ => hnothing, by omega,
        trivial, by omega⟩
  · simp only [Action.meets_bind]
    refine (absorb_reads hfound b).step (.refl outlook [] input) (fun _ => id) False.elim
      fun _ i₁ h₁ _ l₁ => ?_
    exact ⟨h₁.imp (.refl _) fun _ => hnothing, by omega, trivial, by omega⟩
  · next hend _ _ =>
    have hahead : input.ahead ≠ [] := Input.ahead_ne_nil (by rw [hfound]; exact hend)
    refine stray_pass outlook hahead fun _ i₁ _ h₁ l₁ => ?_
    exact ⟨h₁.imp (.refl _) fun _ => hnothing, by omega, trivial, by omega⟩

include hmild in
theorem functions_reads :
    Reads outlook input 0 [] outlook.functions (fun _ => True) (fun _ => False)
      (fuel < 16 * input.ahead.length + 2) (functions fuel input) := by
  induction fuel generalizing input with
  | zero => exact Nat.succ_pos _
  | succ fuel ih =>
    refine functions_repeats.reads_succ (fun _ => outlook.functions) (fun _ => rfl) ?_
      (fun _ => id) ?_ (functionRound_reads outlook hmild fuel input) fun _ input _ => ih input
    · exact fun found rest => List.flatMap_append
    · exact fun found _ rest hfound hrest => List.forall_mem_append.2 ⟨hfound, hrest⟩

/-- The functions of a program extend to the end of the text. -/
theorem functions_end :
    (functions fuel input).Meets (fun _ after => after.current.lexeme = .endOfInput)
      (fun _ _ => True) True := by
  induction fuel generalizing input with
  | zero => trivial
  | succ fuel ih =>
    rw [functions]
    refine (meets_lexeme _).2 fun found hfound => ?_
    split
    · exact hfound
    · simp only [Action.meets_bind]
      refine .of_forall _ (fun _ i₁ => ?_) (fun _ _ => trivial) trivial
      exact ih i₁
    · simp only [Action.meets_bind]
      exact .of_forall _ (fun _ _ => ih _) (fun _ _ => trivial) trivial
    · exact ih _

theorem program_end :
    (program fuel input).Meets (fun _ after => after.current.lexeme = .endOfInput)
      (fun _ _ => True) True := by
  unfold program
  simp only [Action.meets_bind]
  exact .of_forall _ (fun _ _ => functions_end fuel _) (fun _ _ => trivial) trivial

include hmild in
theorem program_reads :
    Reads outlook input 0 [] outlook.program (fun _ => True) (fun _ => False)
      (fuel < 16 * input.ahead.length + 2) (program fuel input) := by
  unfold program
  simp only [Reads, Action.meets_bind]
  refine (globals_reads outlook hmild fuel input).step (.refl outlook [] input) (fun _ => id)
    (by omega) fun _ i₁ h₁ _ l₁ => ?_
  refine (functions_reads outlook hmild fuel i₁).step h₁ (fun _ => id) (by omega)
    fun _ i₂ h₂ _ l₂ => ?_
  exact ⟨h₂.imp (.refl _) And.right, trivial, by omega⟩

end

end Betty.Grammar
