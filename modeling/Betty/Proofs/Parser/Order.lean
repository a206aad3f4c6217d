import Betty.Diagnostic.Explain
import Betty.Proofs.Parser.Progress
import Betty.Proofs.Token.Partition

/-!
# The order of syntax errors

Errors are recorded at once, or carried through several rules before they are. In both cases
the current token is still the one at which the error was noticed when it is recorded. Tokens
are only ever taken from the front, so each error is at or after those before it.

## Main definitions

* `Input.upcoming`: the tokens ahead, with the one that marks the end.
* `Input.Ordered`: the errors so far are at tokens of the text, in their order, and none of
  them is after the current token.

## Main results

* `Input.Leads.ordered`: the moves of the parser keep it so.
* `syntax_errors_ordered`: the errors of a text come in the order of their positions.
-/

namespace Betty

namespace Position

variable {p q r : Position}

theorem le_iff : p.le q ↔ p.line < q.line ∨ p.line = q.line ∧ p.column ≤ q.column := by
  simp [le]

theorem le_refl (p : Position) : p.le p :=
  le_iff.2 (.inr ⟨rfl, Nat.le_refl _⟩)

theorem le_trans (h : p.le q) (h' : q.le r) : p.le r := by
  rw [le_iff] at *
  omega

theorem Before.le (h : p.Before q) : p.le q := by
  rw [le_iff]
  unfold Before at h
  omega

end Position

namespace Input

/-! ### The tokens to come -/

/-- The tokens ahead, and the one that marks the end of the text. -/
def upcoming (input : Input) : List Token :=
  input.ahead ++ [⟨.endOfInput, input.finish⟩]

theorem current_mem_upcoming (input : Input) : input.current ∈ input.upcoming := by
  unfold current upcoming
  cases input.ahead <;> simp

/-- Taking a token leaves those that come after it. -/
theorem upcoming_advance {input : Input} (h : input.ahead ≠ []) :
    input.upcoming = input.current :: input.advance.upcoming := by
  obtain ⟨token, rest, hcons⟩ := List.exists_cons_of_ne_nil h
  simp [upcoming, current, advance, hcons]

/-! ### Errors in order -/

/-- The errors so far are at some of the tokens, in the order in which these stand in the
text, and none of them is after the current token. -/
structure Ordered (tokens : List Token) (input : Input) : Prop where
  upcoming : input.upcoming <:+ tokens
  sorted : input.errors.toList.Pairwise fun first second => first.position.le second.position
  passed : ∀ error ∈ input.errors.toList, error.position.le input.current.position
  marked : ∀ error ∈ input.errors.toList, ∃ token ∈ tokens, token.position = error.position

namespace Ordered

variable {tokens : List Token} {input after : Input}

/-- Taking a token: the next one is after it. -/
theorem advance (h : input.Ordered tokens)
    (hincreasing : tokens.Pairwise fun first second => first.position.Before second.position)
    (hahead : input.ahead ≠ []) : input.advance.Ordered tokens := by
  have hupcoming := upcoming_advance hahead
  have hlater : input.current.position.le input.advance.current.position := by
    have hpairwise := hincreasing.sublist h.upcoming.sublist
    rw [hupcoming] at hpairwise
    exact ((List.pairwise_cons.1 hpairwise).1 _ input.advance.current_mem_upcoming).le
  refine ⟨(List.IsSuffix.trans ?_ h.upcoming), ?_, ?_, ?_⟩
  · rw [hupcoming]
    exact List.suffix_cons _ _
  · rw [advance_errors]
    exact h.sorted
  · rw [advance_errors]
    exact fun error herror => Position.le_trans (h.passed error herror) hlater
  · rw [advance_errors]
    exact h.marked

/-- Recording an error at the current token: all others are at or before it. -/
theorem report (h : input.Ordered tokens) (fault : SyntaxFault) :
    (input.report ⟨fault, input.current.position⟩).Ordered tokens := by
  have herrors : (input.report ⟨fault, input.current.position⟩).errors.toList =
      input.errors.toList ++ [⟨fault, input.current.position⟩] := Array.toList_push
  refine ⟨h.upcoming, ?_, ?_, ?_⟩
  · rw [herrors, List.pairwise_append]
    refine ⟨h.sorted, List.pairwise_singleton _ _, fun error herror last hlast => ?_⟩
    rw [List.mem_singleton.1 hlast]
    exact h.passed error herror
  · rw [herrors, report_current]
    refine List.forall_mem_append.2 ⟨h.passed, fun last hlast => ?_⟩
    rw [List.mem_singleton.1 hlast]
    exact Position.le_refl _
  · rw [herrors]
    refine List.forall_mem_append.2 ⟨h.marked, fun last hlast => ?_⟩
    rw [List.mem_singleton.1 hlast]
    exact ⟨input.current, h.upcoming.subset input.current_mem_upcoming, rfl⟩

end Ordered

/-- However far the parser gets, the errors are in order. -/
theorem Leads.ordered {tokens : List Token} {input after : Input} (h : input.Leads after)
    (hincreasing : tokens.Pairwise fun first second => first.position.Before second.position)
    (hinput : input.Ordered tokens) : after.Ordered tokens := by
  induction h with
  | refl => exact hinput
  | tail _ hmove ih =>
    cases hmove with
    | take hahead _ => exact ih.advance hincreasing hahead
    | report fault => exact ih.report fault

end Input

/-! ### The errors of a text -/

namespace Source

theorem input_ordered (source : Source) : source.input.Ordered (tokenize source.text) where
  upcoming := source.tokenize_eq_input.1 ▸ List.suffix_refl _
  sorted := .nil
  passed _ h := absurd h List.not_mem_nil
  marked _ h := absurd h List.not_mem_nil

/-- The errors of a text are at its tokens, in the order of their positions. -/
theorem errors_ordered (source : Source) :
    (source.parse.errors.Pairwise fun first second => first.position.le second.position) ∧
      ∀ error ∈ source.parse.errors, ∃ token ∈ tokenize source.text,
        token.position = error.position := by
  obtain ⟨program, final, hprogram, hleads, _⟩ := source.program_done
  have hfinal := hleads.ordered (List.pairwise_map.1 (tokenize_increasing source.text))
    source.input_ordered
  rw [parse_eq hprogram]
  exact ⟨hfinal.sorted, hfinal.marked⟩

end Source

/-- A text with syntax errors is not run, and the first of them is what is told about it. -/
theorem runText_explanation (fuel : Nat) (console : Console) {text : String}
    {first : SyntaxError} {rest : List SyntaxError} (h : (parse text).errors = first :: rest) :
    ∃ report session, runText fuel false console text = some (report, session) ∧
      report.explanation? = some ("Syntax error: " ++ first.located) := by
  have hparse : (Source.parse ⟨text, 0⟩).errors = first :: rest := h
  unfold runText Session.runText Session.start
  simp only [hparse, List.isEmpty_cons, Bool.or_false, Bool.false_eq_true, if_false]
  exact ⟨_, _, rfl, rfl⟩

/-- Syntax errors come out in the order of the source text.

* The errors of a text are sorted by line, and within a line by column.
* Each of them is where a token of the text starts, the mark of its end included.
* A text with errors is not run. What is reported instead is an error at a token, and no
  error is at a token before that one. -/
theorem syntax_errors_ordered (text : String) :
    ((parse text).errors.Pairwise fun first second =>
      first.position.line < second.position.line ∨
        first.position.line = second.position.line ∧
          first.position.column ≤ second.position.column) ∧
    (∀ error ∈ (parse text).errors, ∃ token ∈ tokenize text, token.position = error.position) ∧
    ((parse text).errors ≠ [] → ∀ fuel console,
      ∃ error ∈ (parse text).errors, ∃ token ∈ tokenize text, ∃ report session,
        runText fuel false console text = some (report, session) ∧
        report.explanation? = some ("Syntax error: " ++ error.located) ∧
        token.position = error.position ∧
        ∀ earlier ∈ tokenize text, earlier.position.Before token.position →
          ∀ other ∈ (parse text).errors, other.position ≠ earlier.position) := by
  obtain ⟨hsorted, hmarked⟩ := (Source.ofText text).errors_ordered
  refine ⟨hsorted.imp Position.le_iff.1, hmarked, fun hne fuel console => ?_⟩
  obtain ⟨first, rest, herrors⟩ := List.exists_cons_of_ne_nil hne
  have hmem : first ∈ (parse text).errors := by simp [herrors]
  obtain ⟨token, htoken, hposition⟩ := hmarked first hmem
  obtain ⟨report, session, hreport, hexplanation⟩ := runText_explanation fuel console herrors
  refine ⟨first, hmem, token, htoken, report, session, hreport, hexplanation, hposition, ?_⟩
  intro earlier _ hearlier other hother heq
  -- The first error is at or before the other one, which is before the first.
  have hle : first.position.le other.position := by
    have hpairwise : (first :: rest).Pairwise fun first second =>
        first.position.le second.position := herrors ▸ hsorted
    rw [herrors] at hother
    rcases List.mem_cons.1 hother with rfl | hrest
    · exact Position.le_refl _
    · exact (List.pairwise_cons.1 hpairwise).1 other hrest
  rw [heq, ← hposition, Position.le_iff] at hle
  unfold Position.Before at hearlier
  omega

/-- A text with three errors: one that is carried out of the rules for expressions, one for a
malformed token, and one for the brace that is missing at the end. -/
def thriceWrong : String :=
  "func main() \x7b x = ; y = @;"

theorem syntax_errors_ordered_thriceWrong :
    (parse thriceWrong).errors.map SyntaxError.position = [⟨1, 19⟩, ⟨1, 25⟩, ⟨1, 27⟩] ∧
      ∃ error ∈ (parse thriceWrong).errors, ∃ token ∈ tokenize thriceWrong, ∃ report session,
        runText 0 false (.ofInput []) thriceWrong = some (report, session) ∧
        report.explanation? = some ("Syntax error: " ++ error.located) ∧
        token.position = error.position ∧
        ∀ earlier ∈ tokenize thriceWrong, earlier.position.Before token.position →
          ∀ other ∈ (parse thriceWrong).errors, other.position ≠ earlier.position := by
  have hpositions : (parse thriceWrong).errors.map SyntaxError.position =
      [⟨1, 19⟩, ⟨1, 25⟩, ⟨1, 27⟩] := by decide +kernel
  have hne : (parse thriceWrong).errors ≠ [] := by
    intro hnil
    rw [hnil] at hpositions
    exact absurd hpositions (by decide)
  exact ⟨hpositions, (syntax_errors_ordered thriceWrong).2.2 hne 0 (.ofInput [])⟩

end Betty
