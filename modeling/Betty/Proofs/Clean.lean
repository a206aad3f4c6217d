import Betty.Proofs.Machine.Admits

/-!
# Programs without error nodes

A program without error nodes does not fail because of malformed syntax. While it runs,
every function of the machine comes from it, so the bodies that are called have no
error nodes either.

## Main definitions

* `CodePolicy.clean`: the policy that no function at hand has error nodes.

## Main results

* `Program.run_clean`: a program without error nodes does not fail because of one.
-/

namespace Betty

/-- The program has no error nodes, and does not end with malformed syntax. -/
def CodePolicy.clean : CodePolicy where
  name _ := True
  check := .noErrors
  fault found := found.isMalformed = false
  anonymous _ _ _ := trivial
  nested _ := ⟨trivial, fun _ _ => trivial⟩
  wellFormed h := h
  malformedExpr h := h.elim
  malformedStmt h := h.elim

/-- A program without error nodes does not fail because of one. -/
theorem Program.run_clean {program : Program} (h : program.Everywhere .noErrors) (fuel : Nat)
    (machine : Machine) (hm : machine.Only CodePolicy.clean.Allows) :
    (program.run fuel machine).Meets (fun _ after => after.Only CodePolicy.clean.Allows)
      (fun error after => error.fault.isMalformed = false ∧ after.Only CodePolicy.clean.Allows)
      True := by
  have hallows : ∀ declaration ∈ program.functions, CodePolicy.clean.Allows declaration :=
    fun declaration hmem => ⟨fun _ _ => trivial, h declaration hmem⟩
  exact ((Program.plan_lawful_only hallows fuel).keeps hm.holds).imp
    (fun _ _ hdone => hdone.2.toHolds.only)
    (fun _ _ hfailed => ⟨hfailed.1, hfailed.2.toHolds.only⟩) id

end Betty
