import Betty.Token.Cursor

/-!
# The stream of tokens of a text

Wherever there is text, the lexeme at its front takes a character and is not the one that
marks the end. So the tokens of a text are finitely many, and only the last one marks
its end.

## Main results

* `lexemeOf_cons`: a lexeme at the front of a text takes a character of it.
* `tokenize_eq`: the tokens of a text are some that do not mark its end and one that does.
-/

namespace Betty

/-! ### Lexemes -/

theorem isEnd_iff {lexeme : Lexeme} : lexeme.isEnd ↔ lexeme = .endOfInput := by
  cases lexeme <;> simp [Lexeme.isEnd]

theorem nameLexeme_ne_end (name : List Char) : nameLexeme name ≠ .endOfInput := by
  unfold nameLexeme
  split <;> simp

/-- A numeral starts with a digit or a point, which belongs to it. -/
theorem numeralRun_ne_nil {c : Char} {rest : List Char} (h : startsNumeral c rest) :
    numeralRun (c :: rest) ≠ [] := by
  simp only [startsNumeral, Bool.or_eq_true, Bool.and_eq_true, decide_eq_true_eq] at h
  rcases h with hdigit | ⟨rfl, hdigit⟩
  · simp [numeralRun, hdigit]
  · have hdot : rest.head? ≠ some '.' := by
      intro hdot
      rw [hdot] at hdigit
      exact absurd hdigit (by decide)
    simp [numeralRun, hdot]

theorem numeralLexeme_ne_end (run : List Char) : numeralLexeme run ≠ .endOfInput := by
  unfold numeralLexeme
  dsimp only
  split
  · simp
  · split <;> simp

/-- Reading a string goes on from the characters read so far. -/
theorem stringLexeme_spec (read : List Char) (length : Nat) (bad : Option Char)
    (rest : List Char) :
    length ≤ (stringLexeme read length bad rest).2 ∧
      (stringLexeme read length bad rest).1 ≠ .endOfInput := by
  fun_induction stringLexeme read length bad rest <;> simp_all <;> omega

theorem characterLexeme_ne_end (rest : List Char) :
    (characterLexeme rest).1 ≠ .endOfInput := by
  have hclose : ∀ value length rest, (closeCharacter value length rest).1 ≠ .endOfInput := by
    intro value length rest
    unfold closeCharacter
    split <;> simp
  unfold characterLexeme
  split
  · simp
  · simp
  · simp
  · split
    · exact hclose _ _ _
    · simp
  · exact hclose _ _ _

theorem longestSymbol?_pos {text : List Char} {sign : Symbol} {length : Nat}
    (h : longestSymbol? text = some (sign, length)) : 0 < length := by
  unfold longestSymbol? at h
  split at h <;> simp [Option.or_eq_some_iff] at h <;> omega

/-- The lexeme at the front of a text takes a character, and is not the end. -/
theorem lexemeOf_cons (c : Char) (rest : List Char) :
    0 < (lexemeOf (c :: rest)).2 ∧ (lexemeOf (c :: rest)).1 ≠ .endOfInput := by
  unfold lexemeOf
  dsimp only
  split
  · exact ⟨Nat.succ_pos _, nameLexeme_ne_end _⟩
  · split
    · next hnumeral =>
      exact ⟨List.length_pos_iff.2 (numeralRun_ne_nil hnumeral), numeralLexeme_ne_end _⟩
    · split
      · exact stringLexeme_spec [] 1 none rest
      · split
        · exact ⟨Nat.succ_pos _, characterLexeme_ne_end rest⟩
        · split
          · next hsign => exact ⟨longestSymbol?_pos hsign, by simp⟩
          · simp

namespace Cursor

/-- The next token marks the end, or it takes a character. -/
theorem next_cases (cursor : Cursor) :
    cursor.next.1.lexeme = .endOfInput ∨
      cursor.next.1.lexeme ≠ .endOfInput ∧ cursor.next.2.rest.length < cursor.rest.length := by
  have hskip : cursor.skipTrivia.rest.length ≤ cursor.rest.length := by
    simp [skipTrivia, advance]
  cases hrest : cursor.skipTrivia.rest with
  | nil => exact .inl (by simp [next, hrest, lexemeOf])
  | cons c rest =>
    obtain ⟨hpos, hend⟩ := lexemeOf_cons c rest
    refine .inr ⟨by simpa [next, hrest] using hend, ?_⟩
    have hlength : cursor.next.2.rest.length =
        (c :: rest).length - (lexemeOf (c :: rest)).2 := by
      simp [next, advance, hrest]
    rw [hrest] at hskip
    rw [hlength]
    simp only [List.length_cons] at hskip ⊢
    omega

theorem tokens_succ (fuel : Nat) (cursor : Cursor) :
    cursor.tokens (fuel + 1) =
      if cursor.next.1.lexeme.isEnd then [cursor.next.1]
      else cursor.next.1 :: cursor.next.2.tokens fuel := rfl

/-- With fuel for each character and one more, the tokens go on to the end of the text. -/
theorem tokens_eq (fuel : Nat) (cursor : Cursor) (hfuel : cursor.rest.length < fuel) :
    ∃ (body : List Token) (finish : Position),
      cursor.tokens fuel = body ++ [⟨.endOfInput, finish⟩] ∧
        ∀ token ∈ body, token.lexeme ≠ .endOfInput := by
  induction fuel generalizing cursor with
  | zero => omega
  | succ fuel ih =>
    rcases cursor.next_cases with hend | ⟨hend, hshorter⟩
    · refine ⟨[], cursor.next.1.position, ?_, by simp⟩
      rw [tokens_succ, if_pos (isEnd_iff.2 hend), ← hend]
      rfl
    · obtain ⟨body, finish, hbody, hnone⟩ := ih cursor.next.2 (by omega)
      refine ⟨cursor.next.1 :: body, finish, ?_, ?_⟩
      · rw [tokens_succ, if_neg (fun h => hend (isEnd_iff.1 h)), hbody]
        rfl
      · rintro token (_ | ⟨_, htoken⟩)
        · exact hend
        · exact hnone token htoken

end Cursor

/-- The tokens of a text: some that do not mark its end, and one that does. -/
theorem tokenize_eq (text : String) :
    ∃ (body : List Token) (finish : Position), tokenize text = body ++ [⟨.endOfInput, finish⟩] ∧
      ∀ token ∈ body, token.lexeme ≠ .endOfInput :=
  Cursor.tokens_eq _ _ (Nat.lt_succ_self _)

end Betty
