import Betty.Proofs.Parser.Progress
import Betty.Proofs.Parser.Readable.Statements

/-!
# Printing and parsing

A program in normal form is printed as a text, and the parser yields it back, up to
positions, with no syntax error.

## Main results

* `Program.lexemes_spellable`: the lexemes of a printed program can be spelled.
* `parse_text`: the program of the printed text is the one that was printed.
-/

namespace Betty

variable {bare : Bool} {numeral : Float → List Char}

/-! ### Spelling printed programs -/

@[simp]
theorem Expr.inside_spellable {expr : Expr} {lexemes : List Lexeme} :
    Spellable numeral (expr.inside lexemes) ↔ Spellable numeral lexemes := by
  unfold Expr.inside
  split <;> simp

@[simp]
theorem Expr.alone_spellable {expr : Expr} {lexemes : List Lexeme} :
    Spellable numeral (expr.alone bare lexemes) ↔ Spellable numeral lexemes := by
  unfold Expr.alone
  split <;> simp

theorem namesLexemes_spellable {names : List String} (h : ∀ name ∈ names, isName name) :
    Spellable numeral (namesLexemes names) := by
  induction names with
  | nil => exact spellable_nil
  | cons name more ih =>
    obtain ⟨hname, hmore⟩ := List.forall_mem_cons.1 h
    have hfirst : Spells (.identifier name) ((Lexeme.identifier name).spelling numeral) :=
      spells_identifier hname
    cases more with
    | nil => simp [namesLexemes, hfirst]
    | cons next more => simp [namesLexemes, hfirst, ih hmore]

theorem Declaration.IsNamed.isName {declaration : Declaration} (h : declaration.IsNamed) :
    ∀ name ∈ declaration.name, isName name := by
  obtain ⟨name, hname, hspelled⟩ := h
  rw [hname]
  rintro _ ⟨⟩
  exact hspelled

mutual

theorem Expr.lexemes_spellable : ∀ {expr : Expr}, expr.Everywhere (normalNodes numeral) →
    Spellable numeral (expr.lexemes bare)
  | .number _ _, h => by
    rw [Expr.lexemes, spellable_cons]
    exact ⟨.number h.1 h.2, spellable_nil⟩
  | .text _ _, _ => by simp [Expr.lexemes]
  | .character _ _, _ => by simp [Expr.lexemes]
  | .boolean _ _, _ => by simp [Expr.lexemes]
  | .name _ _, h => by simp [Expr.lexemes, spells_identifier h]
  | .list _ _, h => by simp [Expr.lexemes, Expr.lexemesRow_spellable h.2]
  | .index _ _ _, h => by
    simp [Expr.lexemes, Expr.lexemes_spellable h.2.1, Expr.lexemes_spellable h.2.2]
  | .binary _ _ _ _, h => by
    simp [Expr.lexemes, Expr.lexemes_spellable h.2.1, Expr.lexemes_spellable h.2.2]
  | .unary _ _ .leading _, h => by simp [Expr.lexemes, Expr.lexemes_spellable h.2]
  | .unary _ _ .trailing _, h => by simp [Expr.lexemes, Expr.lexemes_spellable h.2]
  | .ternary _ _ _ _, h => by
    simp [Expr.lexemes, Expr.lexemes_spellable h.2.1, Expr.lexemes_spellable h.2.2.1,
      Expr.lexemes_spellable h.2.2.2]
  | .assign _ _ _ _, h => by
    simp [Expr.lexemes, Expr.lexemes_spellable h.2.1, Expr.lexemes_spellable h.2.2]
  | .call _ (.named _) _, h => by
    simp [Expr.lexemes, Callee.lexemes, spells_identifier h.1, Expr.lexemesRow_spellable h.2.2]
  | .call _ (.computed _) _, h => by
    simp [Expr.lexemes, Callee.lexemes, Expr.lexemes_spellable h.2.1,
      Expr.lexemesRow_spellable h.2.2]
  | .function _ declaration, h => by
    have hunnamed : ∀ name ∈ declaration.name, isName name := by
      rw [h.1.1]
      rintro _ ⟨⟩
    simp [Expr.lexemes, Declaration.lexemes_spellable hunnamed h.1.2 h.2]
  | .choose _ _ _ _ _, h => by
    simp [Expr.lexemes, Expr.lexemes_spellable h.2.1, Expr.lexemes_spellable h.2.2.1,
      Branch.lexemesAll_spellable h.2.2.2.1, Expr.lexemes_spellable h.2.2.2.2]
  | .switch _ _ _, h => by
    simp [Expr.lexemes, Expr.lexemes_spellable h.2.1, Arm.lexemesRow_spellable h.2.2]
  | .error _ _, h => h.elim

theorem Expr.lexemesRow_spellable : ∀ {exprs : List Expr},
    Expr.EverywhereAll (normalNodes numeral) exprs →
      Spellable numeral (Expr.lexemesRow bare exprs)
  | [], _ => spellable_nil
  | _ :: _, h => by
    simp [Expr.lexemesRow, Expr.lexemes_spellable h.1, Expr.lexemesMore_spellable h.2]

theorem Expr.lexemesMore_spellable : ∀ {exprs : List Expr},
    Expr.EverywhereAll (normalNodes numeral) exprs →
      Spellable numeral (Expr.lexemesMore bare exprs)
  | [], _ => spellable_nil
  | _ :: _, h => by
    simp [Expr.lexemesMore, Expr.lexemes_spellable h.1, Expr.lexemesMore_spellable h.2]

theorem Branch.lexemesAll_spellable : ∀ {branches : List Branch},
    Branch.EverywhereAll (normalNodes numeral) branches →
      Spellable numeral (Branch.lexemesAll bare branches)
  | [], _ => spellable_nil
  | ⟨_, _⟩ :: _, h => by
    simp [Branch.lexemesAll, Expr.lexemes_spellable h.1, Expr.lexemes_spellable h.2.1,
      Branch.lexemesAll_spellable h.2.2]

theorem Arm.lexemesRow_spellable : ∀ {arms : List Arm},
    Arm.EverywhereAll (normalNodes numeral) arms → Spellable numeral (Arm.lexemesRow bare arms)
  | [], _ => spellable_nil
  | ⟨_, _⟩ :: _, h => by
    simp [Arm.lexemesRow, Expr.lexemesPattern_spellable h.1, Expr.lexemes_spellable h.2.1,
      Arm.lexemesMore_spellable h.2.2]

theorem Arm.lexemesMore_spellable : ∀ {arms : List Arm},
    Arm.EverywhereAll (normalNodes numeral) arms → Spellable numeral (Arm.lexemesMore bare arms)
  | [], _ => spellable_nil
  | ⟨_, _⟩ :: _, h => by
    simp [Arm.lexemesMore, Expr.lexemesPattern_spellable h.1, Expr.lexemes_spellable h.2.1,
      Arm.lexemesMore_spellable h.2.2]

theorem Expr.lexemesPattern_spellable : ∀ {pattern : Option Expr},
    Expr.EverywhereOption (normalNodes numeral) pattern →
      Spellable numeral (Expr.lexemesPattern bare pattern)
  | none, _ => by simp [Expr.lexemesPattern]
  | some _, h => by
    rw [Expr.lexemesPattern, Expr.inside_spellable]
    exact Expr.lexemes_spellable h

theorem Expr.lexemesOption_spellable : ∀ {expr : Option Expr},
    Expr.EverywhereOption (normalNodes numeral) expr →
      Spellable numeral (Expr.lexemesOption bare expr)
  | none, _ => by simp [Expr.lexemesOption]
  | some _, h => by
    rw [Expr.lexemesOption, Expr.alone_spellable]
    exact Expr.lexemes_spellable h

theorem Stmt.lexemes_spellable : ∀ {statement : Stmt},
    statement.Everywhere (normalNodes numeral) → Spellable numeral (statement.lexemes bare)
  | .expr _, h => by simp [Stmt.lexemes, Expr.lexemes_spellable h.2]
  | .block _, h => by simp [Stmt.lexemes, Stmt.lexemesAll_spellable h.2]
  | .branch _ _ _ _, h => by
    simp [Stmt.lexemes, Expr.lexemes_spellable h.2.1, Stmt.lexemes_spellable h.2.2.1,
      Clause.lexemesAll_spellable h.2.2.2.1, Stmt.lexemesElse_spellable h.2.2.2.2]
  | .forLoop _ _ _ _, h => by
    simp [Stmt.lexemes, Expr.lexemesOption_spellable h.2.1, Expr.lexemesOption_spellable h.2.2.1,
      Expr.lexemesOption_spellable h.2.2.2.1, Stmt.lexemes_spellable h.2.2.2.2]
  | .foreachLoop _ _ _, h => by
    simp [Stmt.lexemes, spells_identifier h.1, Expr.lexemes_spellable h.2.1,
      Stmt.lexemes_spellable h.2.2]
  | .whileLoop _ _, h => by
    simp [Stmt.lexemes, Expr.lexemes_spellable h.2.1, Stmt.lexemes_spellable h.2.2]
  | .doWhileLoop _ _, h => by
    simp [Stmt.lexemes, Stmt.lexemes_spellable h.2.1, Expr.lexemes_spellable h.2.2]
  | .switch _ _, h => by
    simp [Stmt.lexemes, Expr.lexemes_spellable h.2.1, Case.lexemesAll_spellable h.2.2]
  | .breakStmt _, _ => by simp [Stmt.lexemes]
  | .continueStmt _, _ => by simp [Stmt.lexemes]
  | .returnStmt _, h => by simp [Stmt.lexemes, Expr.lexemesOption_spellable h.2]
  | .function _, h => by
    simp [Stmt.lexemes, Declaration.lexemes_spellable h.1.1.isName h.1.2 h.2]
  | .empty, _ => by simp [Stmt.lexemes]
  | .error _ _, h => h.elim

theorem Stmt.lexemesAll_spellable : ∀ {statements : List Stmt},
    Stmt.EverywhereAll (normalNodes numeral) statements →
      Spellable numeral (Stmt.lexemesAll bare statements)
  | [], _ => spellable_nil
  | _ :: _, h => by
    simp [Stmt.lexemesAll, Stmt.lexemes_spellable h.1, Stmt.lexemesAll_spellable h.2]

theorem Stmt.lexemesElse_spellable : ∀ {statement : Option Stmt},
    Stmt.EverywhereOption (normalNodes numeral) statement →
      Spellable numeral (Stmt.lexemesElse bare statement)
  | none, _ => by simp [Stmt.lexemesElse]
  | some statement, h => by
    have hstatement : statement.Everywhere (normalNodes numeral) := h
    simp [Stmt.lexemesElse, Stmt.lexemes_spellable hstatement]

theorem Clause.lexemesAll_spellable : ∀ {clauses : List Clause},
    Clause.EverywhereAll (normalNodes numeral) clauses →
      Spellable numeral (Clause.lexemesAll bare clauses)
  | [], _ => spellable_nil
  | ⟨_, _⟩ :: _, h => by
    simp [Clause.lexemesAll, Expr.lexemes_spellable h.1, Stmt.lexemes_spellable h.2.1,
      Clause.lexemesAll_spellable h.2.2]

theorem Case.lexemesAll_spellable : ∀ {cases : List Case},
    Case.EverywhereAll (normalNodes numeral) cases →
      Spellable numeral (Case.lexemesAll bare cases)
  | [], _ => spellable_nil
  | ⟨none, _⟩ :: _, h => by
    simp [Case.lexemesAll, Expr.lexemesCase, Stmt.lexemesAll_spellable h.2.1,
      Case.lexemesAll_spellable h.2.2]
  | ⟨some pattern, _⟩ :: _, h => by
    have hpattern : pattern.Everywhere (normalNodes numeral) := h.1
    simp [Case.lexemesAll, Expr.lexemesCase, Expr.lexemes_spellable hpattern,
      Stmt.lexemesAll_spellable h.2.1, Case.lexemesAll_spellable h.2.2]

theorem Declaration.lexemes_spellable : ∀ {declaration : Declaration},
    (∀ name ∈ declaration.name, isName name) → declaration.HasHead →
      declaration.Everywhere (normalNodes numeral) →
        Spellable numeral (declaration.lexemes bare)
  | ⟨_, _, none, _, _⟩, _, hhead, h => by
    simp [Declaration.lexemes, namesLexemes_spellable hhead.parameters, Stmt.lexemes_spellable h]
  | ⟨_, _, some name, _, _⟩, hname, hhead, h => by
    simp [Declaration.lexemes, spells_identifier (hname name rfl),
      namesLexemes_spellable hhead.parameters, Stmt.lexemes_spellable h]

end

theorem globalsLexemes_spellable {globals : List (String × Position)}
    (h : ∀ declared ∈ globals, isName declared.1) : Spellable numeral (globalsLexemes globals) := by
  induction globals with
  | nil => exact spellable_nil
  | cons declared more ih =>
    obtain ⟨name, place⟩ := declared
    obtain ⟨hname, hmore⟩ := List.forall_mem_cons.1 h
    simp [globalsLexemes, spells_identifier hname, ih hmore]

theorem functionsLexemes_spellable {declarations : List Declaration}
    (h : ∀ declaration ∈ declarations, declaration.IsNamed ∧ declaration.HasHead ∧
      declaration.Everywhere (normalNodes numeral)) :
    Spellable numeral (functionsLexemes bare declarations) := by
  induction declarations with
  | nil => exact spellable_nil
  | cons declaration more ih =>
    obtain ⟨⟨hname, hhead, hbody⟩, hmore⟩ := List.forall_mem_cons.1 h
    simp [functionsLexemes, Declaration.lexemes_spellable hname.isName hhead hbody, ih hmore]

theorem Program.lexemes_spellable {program : Program} (h : program.Normal numeral) :
    Spellable numeral (program.lexemes bare) :=
  spellable_append.2 ⟨globalsLexemes_spellable h.globals, functionsLexemes_spellable h.functions⟩

/-! ### Reading printed texts -/

/-- The parser starts with the lexemes of a printed program ahead. -/
theorem Source.faces_text (bare : Bool) {program : Program} (h : program.Normal numeral)
    (number : Nat) :
    (Source.mk (program.text bare numeral) number).input.Faces (program.lexemes bare) := by
  refine ⟨?_, rfl⟩
  have htokens : (tokenize (program.text bare numeral)).map Token.lexeme =
      program.lexemes bare ++ [.endOfInput] := by
    refine tokenize_spelled ?_
    rw [Program.text, String.toList_ofList]
    exact spelled_layout (Program.lexemes_spellable h)
  rw [(Source.mk (program.text bare numeral) number).tokenize_eq_input.1,
    List.map_append] at htokens
  exact List.append_cancel_right htokens

/-- What is printed is parsed back. The text of a program in normal form has no syntax
error, and its program is the one that was printed, up to positions. This holds however
numbers are spelled, and whether or not expressions that stand by themselves are in
parentheses. -/
theorem parse_text (bare : Bool) (numeral : Float → List Char) (number : Nat) (program : Program)
    (h : program.Normal numeral) :
    (Source.mk (program.text bare numeral) number).parse.errors = [] ∧
      (Source.mk (program.text bare numeral) number).parse.program.unplaced =
        program.unplaced := by
  have hfaces := Source.faces_text bare h number
  generalize Source.mk (program.text bare numeral) number = source at hfaces
  obtain ⟨found, final, hdone, _⟩ := source.program_done
  have hmeets := Grammar.program_takes h (Grammar.fuelFor source.input) source.input hfaces
  rw [hdone] at hmeets
  obtain ⟨hfound, hfinal⟩ := hmeets
  rw [Source.parse_eq hdone, hfinal.errors]
  exact ⟨rfl, hfound⟩

/-- A program with a global variable, and a function that has an `if` statement, a call and
a numeral in it. -/
def Program.sample : Program where
  globals := [("n", .unknown)]
  functions := [⟨0, .unknown, some "main", ["x"], .block
    [.branch (.name .unknown "x")
      (.returnStmt (some (.binary .unknown (.name .unknown "x") .add
        (.number .unknown (Number.Decimal.mk 1 0).toFloat))))
      [] (some (.expr (.call .unknown (.named "f") [.name .unknown "n"])))]⟩]

theorem parse_text_sample :
    Program.sample.text true (fun _ => ['1']) =
        "global n ; func main ( x ) \x7b if ( x ) return x + 1 ; else f ( n ) ; \x7d" ∧
      (Source.mk (Program.sample.text true fun _ => ['1']) 0).parse.errors = [] ∧
      (Source.mk (Program.sample.text true fun _ => ['1']) 0).parse.program.unplaced =
        Program.sample.unplaced := by
  refine ⟨rfl, parse_text true (fun _ => ['1']) 0 Program.sample ⟨by decide, ?_⟩⟩
  intro declaration hmem
  obtain rfl := List.mem_singleton.1 hmem
  refine ⟨⟨"main", rfl, rfl⟩, ⟨by decide, _, rfl⟩, trivial, ⟨rfl, rfl, ?_, trivial, ?_⟩, trivial⟩
  · exact ⟨trivial, trivial, rfl, rfl, rfl⟩
  · exact ⟨trivial, rfl, trivial, rfl, trivial⟩

end Betty
