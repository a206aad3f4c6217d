import Betty.Proofs.Clean
import Betty.Proofs.Parser.Progress

/-!
# Texts without syntax errors

Every error node of a parsed program stands for a syntax error that is reported, and so
does every malformed token. A text without syntax errors therefore has neither, and its
program does not fail because of malformed syntax.

## Main results

* `Source.program_everywhere`: every error node stands for an error that is reported.
* `Source.tokens_plain`: without errors there is no malformed token.
* `clean_parse`: texts without syntax errors have clean programs that run cleanly.
-/

namespace Betty

namespace Source

/-- Every error node of the program of a text stands for an error that is reported. -/
theorem program_everywhere (source : Source) :
    source.parse.program.Everywhere (Grammar.recordedNodes (· ∈ source.parse.errors)) := by
  obtain ⟨program, final, hprogram, _, _⟩ := source.program_done
  have hreads := Grammar.program_reads (.faults (· ∈ source.parse.errors)) rfl
    (Grammar.fuelFor source.input) source.input
  rw [hprogram] at hreads
  have hparse := parse_eq hprogram
  have hknown := hreads.1.known fun error herror => by
    rw [hparse]
    exact Array.mem_toList_iff.2 herror
  rw [hparse] at hknown ⊢
  exact fun declaration hmem => (hknown declaration hmem).2.2

/-- A text without syntax errors has no malformed token. -/
theorem tokens_plain (source : Source) (h : source.parse.errors = []) :
    ∀ token ∈ tokenize source.text, ∀ fault, token.lexeme ≠ .error fault := by
  obtain ⟨program, final, hprogram, hleads, hahead⟩ := source.program_done
  rw [parse_eq hprogram] at h
  obtain ⟨passed, hpassed, hplain⟩ := hleads.passed (Array.toList_eq_nil_iff.1 h)
  rw [hahead, List.append_nil] at hpassed
  intro token htoken fault hfault
  rw [source.tokenize_eq_input.1, hpassed] at htoken
  rcases List.mem_append.1 htoken with htoken | htoken
  · have hisPlain := hplain token htoken
    rw [hfault] at hisPlain
    exact Bool.noConfusion hisPlain
  · rw [List.mem_singleton.1 htoken] at hfault
    cases hfault

/-- The program of a text without syntax errors has no error nodes. -/
theorem program_noErrors (source : Source) (h : source.parse.errors = []) :
    source.parse.program.Everywhere .noErrors := by
  have hnone : (· ∈ source.parse.errors) = fun _ : SyntaxError => False := by
    funext error
    simp [h]
  have heverywhere := source.program_everywhere
  rw [hnone] at heverywhere
  exact heverywhere

end Source

/-- A clean parse is really clean.

* Every error node of the program, at any depth, stands for an error that is reported,
  with the same wording and position.
* If no error is reported, then no token of the text is malformed, the program has no
  error node, and no run of it fails because of malformed syntax. -/
theorem clean_parse (source : Source) :
    source.parse.program.Everywhere (Grammar.recordedNodes (· ∈ source.parse.errors)) ∧
    (source.parse.errors = [] →
      (∀ token ∈ tokenize source.text, ∀ fault, token.lexeme ≠ .error fault) ∧
      source.parse.program.Everywhere .noErrors ∧
      ∀ fuel console,
        (source.parse.program.run fuel (.initial console)).Meets (fun _ _ => True)
          (fun error _ => ∀ fault, error.fault ≠ .malformed fault) True) := by
  refine ⟨source.program_everywhere, fun h => ⟨source.tokens_plain h, source.program_noErrors h,
    fun fuel console => ?_⟩⟩
  have hrun := Program.run_clean (source.program_noErrors h) fuel (.initial console)
    (Machine.only_initial console)
  refine hrun.imp (fun _ _ _ => trivial) (fun error _ herror fault hfault => ?_) id
  have hmalformed := herror.1
  rw [hfault] at hmalformed
  cases hmalformed

/-- A text that is read without errors, though its program fails when it is run. -/
def Source.strayBreak : Source where
  text := "func main() \x7b break; \x7d"
  number := 0

theorem clean_parse_strayBreak :
    Source.strayBreak.parse.errors = [] ∧
      (∀ token ∈ tokenize Source.strayBreak.text, ∀ fault, token.lexeme ≠ .error fault) ∧
      Source.strayBreak.parse.program.Everywhere .noErrors ∧
      ∀ fuel console,
        (Source.strayBreak.parse.program.run fuel (.initial console)).Meets (fun _ _ => True)
          (fun error _ => ∀ fault, error.fault ≠ .malformed fault) True := by
  have herrors : Source.strayBreak.parse.errors = [] := by decide +kernel
  exact ⟨herrors, (clean_parse Source.strayBreak).2 herrors⟩

end Betty
