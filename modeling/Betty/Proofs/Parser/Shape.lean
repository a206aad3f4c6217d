import Betty.Proofs.Blame
import Betty.Proofs.Parser.Rules.Programs

/-!
# The shape of parsed programs

Whatever a text is, each node of its program is as the parser builds it, and no two functions
of the program are defined at the same place. The latter is so because each function has the
position of the keyword it starts with, no keyword is taken twice, and no two tokens start at
the same place.

## Main results

* `parsed_programs_shaped`: the shape of the program of a text.
-/

namespace Betty

/-- All nodes are to be shaped, error nodes included. -/
def Grammar.Outlook.shapes : Outlook where
  recorded _ := True
  check := .shaped
  passesExpr {expr} h := by
    cases expr with
    | error => trivial
    | _ => exact h
  passesStmt {statement} h := by
    cases statement with
    | error => trivial
    | _ => exact h
  mild := none

/-- The shape of the program of a text, whether the text has errors or not.

* Each node is as `NodeCheck.shaped` says: switches have at most one arm without a pattern, the
  last one, calls of names are told from other calls, only steps stand after their operands,
  and only arithmetic operators are combined with assignments.
* Definitions have a name, functions in expressions have none, and the body of each is a block.
* No two functions, at any depth, are defined at the same place.
* Every position in the program is that of a token of the text, so its line is known. -/
theorem parsed_programs_shaped (source : Source) :
    source.parse.program.Everywhere .shaped ∧
      (∀ declaration ∈ source.parse.program.functions,
        declaration.name.isSome ∧ declaration.HasBlock) ∧
      source.parse.program.declared.Nodup ∧
      source.parse.program.Everywhere (.placed source.Marks) ∧
      ∀ place ∈ source.parse.program.sites, source.Marks place := by
  obtain ⟨program, final, hprogram, _, _⟩ := source.program_done
  have hreads := Grammar.program_reads .shapes rfl (Grammar.fuelFor source.input) source.input
  rw [hprogram] at hreads
  obtain ⟨passed, hpassed, hplaces⟩ := hreads.1.covers
  have hsound := hreads.1.known fun _ _ => trivial
  have hnodup : program.declared.Nodup := by
    have htokens := tokenize_increasing source.text
    rw [source.tokenize_eq_input.1, hpassed, List.map_append, List.map_append] at htokens
    have hincreasing := (List.pairwise_append.1 (List.pairwise_append.1 htokens).1).1
    -- Positions that increase are different ones.
    refine (hincreasing.sublist hplaces).imp fun {p q} hbefore hsame => ?_
    subst hsame
    unfold Position.Before at hbefore
    omega
  obtain ⟨hplaced, hsites⟩ := source.program_placed
  rw [Source.parse_eq hprogram] at hplaced hsites ⊢
  refine ⟨?_, ?_, hnodup, ?_, hsites⟩
  · exact fun declaration hmem => (hsound declaration hmem).2.2
  · exact fun declaration hmem => ⟨(hsound declaration hmem).1, (hsound declaration hmem).2.1⟩
  · exact fun declaration hmem => (hplaced declaration hmem).2

end Betty
