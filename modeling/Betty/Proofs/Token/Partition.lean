import Betty.Proofs.Token.Spelling
import Mathlib.Data.List.Induction

/-!
# How tokens lie in a text

Reading cuts a text into pieces: each of them is a token with the blanks and comments that
stand before it, and what is left after the last token is blanks and comments only. The
position of a token counts the lines and characters before it.

## Main definitions

* `Position.Before`: the order of positions in a text.
* `Trailing`: blanks and comments at the end of a text, where a comment need not be closed.
* `Piece`: a token, what is skipped before it, and its characters.
* `Cursor.Cuts`: the pieces into which reading cuts the rest of a text.

## Main results

* `lexemeOf_length_le`: a lexeme does not reach beyond the text.
* `Position.start_afterAll`: a position counts the lines before it and the characters of
  its line.
* `lexer_partition`: the tokens of a text and what lies between them make up the text.
-/

namespace Betty

/-! ### Positions -/

/-- The characters after the last line feed. -/
def lastLine (passed : List Char) : List Char :=
  (passed.reverse.takeWhile (· ≠ '\n')).reverse

namespace Position

/-- `p.Before q`: the position `p` comes before `q` in a text. -/
def Before (p q : Position) : Prop :=
  p.line < q.line ∨ p.line = q.line ∧ p.column < q.column

theorem Before.trans {p q r : Position} (h : p.Before q) (h' : q.Before r) : p.Before r := by
  unfold Before at *
  omega

theorem before_after (p : Position) (c : Char) : p.Before (p.after c) := by
  unfold Before after
  by_cases hline : c = '\n'
  · rw [if_pos hline]
    exact .inl (Nat.lt_succ_self _)
  · rw [if_neg hline]
    exact .inr ⟨rfl, Nat.lt_succ_self _⟩

theorem afterAll_append (p : Position) (cs ds : List Char) :
    p.afterAll (cs ++ ds) = (p.afterAll cs).afterAll ds :=
  List.foldl_append

theorem Before.afterAll {p q : Position} (h : p.Before q) (cs : List Char) :
    p.Before (q.afterAll cs) := by
  induction cs generalizing q with
  | nil => exact h
  | cons c cs ih => exact ih (h.trans (q.before_after c))

theorem before_afterAll (p : Position) {cs : List Char} (h : cs ≠ []) :
    p.Before (p.afterAll cs) := by
  obtain ⟨c, cs, rfl⟩ := List.exists_cons_of_ne_nil h
  exact (p.before_after c).afterAll cs

/-- The position after a row of characters counts its lines and the characters of the
last one. -/
theorem start_afterAll (passed : List Char) :
    start.afterAll passed = ⟨1 + passed.count '\n', 1 + (lastLine passed).length⟩ := by
  induction passed using List.reverseRecOn with
  | nil => rfl
  | append_singleton passed c ih =>
    have hstep : start.afterAll (passed ++ [c]) = (start.afterAll passed).after c :=
      afterAll_append _ _ _
    rw [hstep, ih, after]
    by_cases hline : c = '\n'
    · rw [if_pos hline, hline]
      simp [lastLine, Nat.add_assoc]
    · rw [if_neg hline]
      simp [lastLine, hline, Nat.add_assoc]

end Position

/-! ### Blanks and comments -/

/-- Blanks and comments at the end of a text. The last comment may lack its line feed. -/
inductive Trailing : List Char → Prop
  | closed {gap : List Char} (h : Trivia gap) : Trailing gap
  | comment {gap body : List Char} (h : Trivia gap) (hbody : '\n' ∉ body) :
    Trailing (gap ++ '#' :: body)

/-- What has been passed over, with the sign that has opened the comment it starts in. -/
def opened (inComment : Bool) (gap : List Char) : List Char :=
  if inComment then '#' :: gap else gap

/-- A row of blanks and comments that starts with a comment. -/
theorem Trivia.of_comment {gap : List Char} (h : Trivia ('#' :: gap)) :
    ∃ body rest, '\n' ∉ body ∧ Trivia rest ∧ gap = body ++ '\n' :: rest := by
  cases h with
  | blank hblank _ => exact absurd hblank (by decide)
  | comment hbody hrest => exact ⟨_, _, hbody, hrest, rfl⟩

/-- A comment goes on with any character that does not end its line. -/
theorem Trivia.cons_comment {gap : List Char} {c : Char} (hc : c ≠ '\n')
    (h : Trivia ('#' :: gap)) : Trivia ('#' :: c :: gap) := by
  obtain ⟨body, rest, hbody, hrest, rfl⟩ := h.of_comment
  exact .comment (List.not_mem_cons_of_ne_of_not_mem (Ne.symm hc) hbody) hrest

theorem Trivia.cons_line {gap : List Char} (h : Trivia gap) : Trivia ('#' :: '\n' :: gap) :=
  @Trivia.comment [] gap List.not_mem_nil h

theorem Trailing.cons_blank {gap : List Char} {c : Char} (hc : Text.isBlank c)
    (h : Trailing gap) : Trailing (c :: gap) := by
  cases h with
  | closed h => exact .closed (.blank hc h)
  | comment h hbody => exact .comment (.blank hc h) hbody

theorem Trailing.cons_line {gap : List Char} (h : Trailing gap) :
    Trailing ('#' :: '\n' :: gap) := by
  cases h with
  | closed h => exact .closed h.cons_line
  | comment h hbody => exact .comment h.cons_line hbody

theorem Trailing.cons_comment {gap : List Char} {c : Char} (hc : c ≠ '\n')
    (h : Trailing ('#' :: gap)) : Trailing ('#' :: c :: gap) := by
  generalize htext : '#' :: gap = text at h
  cases h with
  | closed h => exact .closed (.cons_comment hc (htext ▸ h))
  | @comment before body h hbody =>
    cases before with
    | nil =>
      obtain rfl : gap = body := (List.cons.inj htext).2
      exact .comment .nil (List.not_mem_cons_of_ne_of_not_mem (Ne.symm hc) hbody)
    | cons first before =>
      obtain ⟨rfl, rfl⟩ := List.cons.inj htext
      exact .comment (h.cons_comment hc) hbody

/-- A row of blanks and comments with `rest` after it extends to the end of the text, or to a
character that belongs to a token. -/
def GapEnds (gap rest : List Char) : Prop :=
  rest = [] ∧ Trailing gap ∨ ∃ c more, rest = c :: more ∧ separates c = false ∧ Trivia gap

theorem GapEnds.imp {gap gap' rest : List Char} (h : GapEnds gap rest)
    (htrailing : Trailing gap → Trailing gap') (htrivia : Trivia gap → Trivia gap') :
    GapEnds gap' rest := by
  rcases h with ⟨hrest, h⟩ | ⟨c, more, hrest, hc, h⟩
  · exact .inl ⟨hrest, htrailing h⟩
  · exact .inr ⟨c, more, hrest, hc, htrivia h⟩

/-- What is passed over is blanks and comments, as many as there are. -/
theorem triviaLength_split (inComment : Bool) (text : List Char) :
    ∃ gap rest, text = gap ++ rest ∧ triviaLength inComment text = gap.length ∧
      GapEnds (opened inComment gap) rest := by
  fun_induction triviaLength inComment text with
  | case1 inComment =>
    refine ⟨[], [], rfl, rfl, .inl ⟨rfl, ?_⟩⟩
    cases inComment with
    | false => exact .closed .nil
    | true => exact .comment .nil List.not_mem_nil
  | case2 c text ih =>
    obtain ⟨gap, rest, rfl, hlength, hends⟩ := ih
    refine ⟨c :: gap, rest, rfl, congrArg (· + 1) hlength, ?_⟩
    by_cases hc : c = '\n'
    · -- The line feed ends the comment.
      subst hc
      exact hends.imp .cons_line .cons_line
    · rw [decide_eq_true hc] at hends
      exact hends.imp (.cons_comment hc) (.cons_comment hc)
  | case3 inComment c text hplain hblank ih =>
    obtain ⟨gap, rest, rfl, hlength, hends⟩ := ih
    obtain rfl : inComment = false := Bool.eq_false_iff.2 hplain
    exact ⟨c :: gap, rest, rfl, congrArg (· + 1) hlength,
      hends.imp (.cons_blank hblank) (.blank hblank)⟩
  | case4 inComment text hplain hblank ih =>
    obtain ⟨gap, rest, rfl, hlength, hends⟩ := ih
    obtain rfl : inComment = false := Bool.eq_false_iff.2 hplain
    exact ⟨'#' :: gap, rest, rfl, congrArg (· + 1) hlength, hends⟩
  | case5 inComment c text hplain hblank hsign =>
    obtain rfl : inComment = false := Bool.eq_false_iff.2 hplain
    refine ⟨[], c :: text, rfl, rfl, .inr ⟨c, text, rfl, ?_, .nil⟩⟩
    rw [separates, Bool.eq_false_iff.2 hblank, Bool.false_or]
    exact decide_eq_false hsign

/-! ### Lexemes -/

theorem numeralRun_isPrefix (text : List Char) : numeralRun text <+: text := by
  fun_induction numeralRun text with
  | case1 => exact List.prefix_refl _
  | case2 c rest _ ih => exact (List.prefix_cons_inj c).2 ih
  | case3 c rest _ _ ih => exact (List.prefix_cons_inj c).2 ih
  | case4 c rest _ _ => exact List.nil_prefix

theorem stringLexeme_length_le (read : List Char) (length : Nat) (bad : Option Char)
    (rest : List Char) : (stringLexeme read length bad rest).2 ≤ length + rest.length := by
  fun_induction stringLexeme read length bad rest <;> simp_all <;> omega

theorem closeCharacter_length_le (value : Char) (length : Nat) (rest : List Char) :
    (closeCharacter value length rest).2 ≤ length + rest.length := by
  unfold closeCharacter
  cases rest with
  | nil => simp
  | cons c rest =>
    split
    · simp
    · exact Nat.le_add_right _ _

theorem characterLexeme_length_le (rest : List Char) :
    (characterLexeme rest).2 ≤ rest.length := by
  unfold characterLexeme
  split
  · exact Nat.le_refl _
  · simp
  · exact Nat.le_refl _
  · next escaped rest =>
    split
    · next c _ =>
      have hclose := closeCharacter_length_le c 2 rest
      simp only [List.length_cons]
      omega
    · cases rest with
      | nil => simp
      | cons c rest =>
        simp only [List.length_cons]
        split <;> omega
  · next c rest _ _ _ =>
    have hclose := closeCharacter_length_le c 1 rest
    simp only [List.length_cons]
    omega

theorem longestSymbol?_length_le {text : List Char} {sign : Symbol} {length : Nat}
    (h : longestSymbol? text = some (sign, length)) : length ≤ text.length := by
  unfold longestSymbol? at h
  split at h <;> simp [Option.or_eq_some_iff] at h <;> simp <;> omega

/-- The lexeme at the front of a text does not reach beyond the text. -/
theorem lexemeOf_length_le (text : List Char) : (lexemeOf text).2 ≤ text.length := by
  cases text with
  | nil => exact Nat.le_refl 0
  | cons c rest =>
    unfold lexemeOf
    dsimp only
    split
    · have hname := List.takeWhile_prefix (l := rest) continuesName
      exact Nat.succ_le_succ hname.length_le
    · split
      · exact (numeralRun_isPrefix _).length_le
      · split
        · have hstring := stringLexeme_length_le [] 1 none rest
          simp only [List.length_cons]
          omega
        · split
          · exact Nat.succ_le_succ (characterLexeme_length_le rest)
          · split
            · next hsign => exact longestSymbol?_length_le hsign
            · exact Nat.succ_le_succ (Nat.zero_le _)

/-! ### Pieces -/

/-- A token of a text, the blanks and comments that are skipped before it, and the
characters that it consists of. -/
structure Piece where
  gap : List Char
  slice : List Char
  token : Token

namespace Piece

/-- The characters of a piece. -/
def text (piece : Piece) : List Char :=
  piece.gap ++ piece.slice

/-- The position of the token of a piece. -/
def place (piece : Piece) : Position :=
  piece.token.position

/-- The characters of pieces, one after another. -/
def textAll (pieces : List Piece) : List Char :=
  pieces.flatMap text

/-- The piece is well cut, when the characters `rest` follow it: it is a gap and a lexeme,
which takes all of the slice and nothing more. -/
structure WellCut (piece : Piece) (rest : List Char) : Prop where
  gap : Trivia piece.gap
  slice : ∃ c more, piece.slice = c :: more ∧ separates c = false
  lexeme : lexemeOf (piece.slice ++ rest) = (piece.token.lexeme, piece.slice.length)
  notEnd : piece.token.lexeme ≠ .endOfInput

theorem WellCut.slice_ne_nil {piece : Piece} {rest : List Char} (h : piece.WellCut rest) :
    piece.slice ≠ [] := by
  obtain ⟨c, more, hslice, _⟩ := h.slice
  rw [hslice]
  exact List.cons_ne_nil c more

theorem WellCut.text_pos {piece : Piece} {rest : List Char} (h : piece.WellCut rest) :
    0 < piece.text.length := by
  have hslice := List.length_pos_iff.2 h.slice_ne_nil
  simp only [text, List.length_append]
  omega

end Piece

namespace Cursor

/-- The cursor after `n` tokens have been read. -/
def after : Cursor → Nat → Cursor
  | cursor, 0 => cursor
  | cursor, n + 1 => cursor.next.2.after n

/-- Reading yields the token of the piece, and passes over the piece. -/
structure Yields (cursor : Cursor) (piece : Piece) : Prop where
  token : cursor.next.1 = piece.token
  rest : cursor.rest = piece.text ++ cursor.next.2.rest
  position : cursor.next.2.position = cursor.position.afterAll piece.text
  place : piece.place = cursor.position.afterAll piece.gap
  wellCut : piece.WellCut cursor.next.2.rest

/-- There is no further token: reading yields the mark of the end and comes to the end. -/
structure Ends (cursor : Cursor) : Prop where
  trailing : Trailing cursor.rest
  next : cursor.next = (⟨.endOfInput, cursor.position.afterAll cursor.rest⟩,
    ⟨[], cursor.position.afterAll cursor.rest⟩)

/-- What one step of reading does. -/
theorem yields_or_ends (cursor : Cursor) : (∃ piece, cursor.Yields piece) ∨ cursor.Ends := by
  obtain ⟨text, place⟩ := cursor
  obtain ⟨gap, rest, rfl, hlength, hcases⟩ := triviaLength_split false text
  have hskip : (Cursor.mk (gap ++ rest) place).skipTrivia = ⟨rest, place.afterAll gap⟩ := by
    rw [skipTrivia, advance, hlength, List.drop_left, List.take_left]
  rcases hcases with ⟨rfl, htrailing⟩ | ⟨c, more, rfl, hc, hgap⟩
  · refine .inr ⟨by simpa [opened] using htrailing, ?_⟩
    rw [next, hskip]
    simp [lexemeOf, advance, Position.afterAll]
  · obtain ⟨hpos, hend⟩ := lexemeOf_cons c more
    have hle := lexemeOf_length_le (c :: more)
    have hnext : (Cursor.mk (gap ++ c :: more) place).next =
        (⟨(lexemeOf (c :: more)).1, place.afterAll gap⟩,
          advance ⟨c :: more, place.afterAll gap⟩ (lexemeOf (c :: more)).2) := by
      rw [next, hskip]
    refine .inl ⟨⟨gap, (c :: more).take (lexemeOf (c :: more)).2,
      ⟨(lexemeOf (c :: more)).1, place.afterAll gap⟩⟩, ?_⟩
    refine ⟨congrArg Prod.fst hnext, ?_, ?_, rfl, ?_⟩
    · rw [hnext]
      simp [Piece.text, advance]
    · rw [hnext]
      simp [Piece.text, advance, Position.afterAll_append]
    · rw [hnext]
      refine ⟨by simpa [opened] using hgap, ?_, ?_, hend⟩
      · obtain ⟨length, hsucc⟩ := Nat.exists_eq_succ_of_ne_zero (Nat.ne_of_gt hpos)
        exact ⟨c, more.take length, by rw [hsucc]; rfl, hc⟩
      · simp only [advance, List.take_append_drop, List.length_take, Nat.min_eq_left hle]

/-- `cursor.Cuts pieces tail`: reading cuts the rest of the text into these pieces and a tail
without tokens. -/
inductive Cuts : Cursor → List Piece → List Char → Prop
  | nil {cursor : Cursor} (h : cursor.Ends) : cursor.Cuts [] cursor.rest
  | cons {cursor : Cursor} {piece : Piece} {pieces : List Piece} {tail : List Char}
    (h : cursor.Yields piece) (rest : cursor.next.2.Cuts pieces tail) :
    cursor.Cuts (piece :: pieces) tail

/-- Every text is cut into pieces: each of them leaves fewer characters. -/
theorem exists_cuts (cursor : Cursor) : ∃ pieces tail, cursor.Cuts pieces tail := by
  induction hlength : cursor.rest.length using Nat.strongRecOn generalizing cursor with
  | ind length ih =>
    rcases cursor.yields_or_ends with ⟨piece, hpiece⟩ | hends
    · have hshorter : cursor.next.2.rest.length < length := by
        have hpos := hpiece.wellCut.text_pos
        rw [← hlength, hpiece.rest, List.length_append]
        omega
      obtain ⟨pieces, tail, hcuts⟩ := ih _ hshorter cursor.next.2 rfl
      exact ⟨piece :: pieces, tail, .cons hpiece hcuts⟩
    · exact ⟨[], cursor.rest, .nil hends⟩

variable {cursor : Cursor} {pieces : List Piece} {tail : List Char}

/-- At the end of the text, the mark of the end comes again and again. -/
theorem Ends.after (h : cursor.Ends) (n : Nat) :
    (cursor.after n).next.1 = ⟨.endOfInput, cursor.position.afterAll cursor.rest⟩ := by
  induction n generalizing cursor with
  | zero => exact congrArg Prod.fst h.next
  | succ n ih =>
    have hrest : cursor.next.2 = ⟨[], cursor.position.afterAll cursor.rest⟩ :=
      congrArg Prod.snd h.next
    have hends : cursor.next.2.Ends := by
      rw [hrest]
      exact ⟨.closed .nil, rfl⟩
    have hlater := ih hends
    rw [hrest] at hlater
    rw [Cursor.after, hrest]
    exact hlater

namespace Cuts

/-- The pieces and the tail make up the text. -/
theorem text (h : cursor.Cuts pieces tail) : cursor.rest = Piece.textAll pieces ++ tail := by
  induction h with
  | nil h => rfl
  | cons h _ ih =>
    rw [h.rest, ih, ← List.append_assoc]
    rfl

theorem trailing (h : cursor.Cuts pieces tail) : Trailing tail := by
  induction h with
  | nil h => exact h.trailing
  | cons _ _ ih => exact ih

/-- Each piece is met after as many tokens as there are pieces before it. -/
theorem later {before pieces : List Piece} (h : cursor.Cuts (before ++ pieces) tail) :
    (cursor.after before.length).Cuts pieces tail ∧
      (cursor.after before.length).position =
        cursor.position.afterAll (Piece.textAll before) := by
  induction before generalizing cursor with
  | nil => exact ⟨h, rfl⟩
  | cons piece before ih =>
    cases h with
    | cons hpiece hrest =>
      obtain ⟨hlater, hposition⟩ := ih hrest
      refine ⟨hlater, hposition.trans ?_⟩
      rw [hpiece.position, ← Position.afterAll_append]
      rfl

/-- After the last piece, reading yields the mark of the end. -/
theorem finish (h : cursor.Cuts pieces tail) {n : Nat} (hn : pieces.length ≤ n) :
    (cursor.after n).next.1 = ⟨.endOfInput, cursor.position.afterAll cursor.rest⟩ := by
  induction h generalizing n with
  | nil h => exact h.after n
  | cons h _ ih =>
    obtain ⟨n, rfl⟩ := Nat.exists_eq_succ_of_ne_zero (Nat.ne_of_gt (Nat.zero_lt_of_lt hn))
    rw [Cursor.after, ih (Nat.le_of_succ_le_succ hn), h.position, ← Position.afterAll_append,
      ← h.rest]

/-- With fuel for each piece and one more, these are the tokens. -/
theorem tokens (h : cursor.Cuts pieces tail) {fuel : Nat} (hfuel : pieces.length < fuel) :
    cursor.tokens fuel =
      pieces.map Piece.token ++ [⟨.endOfInput, cursor.position.afterAll cursor.rest⟩] := by
  induction h generalizing fuel with
  | nil h =>
    obtain ⟨fuel, rfl⟩ := Nat.exists_eq_succ_of_ne_zero (Nat.ne_of_gt hfuel)
    rw [Nat.succ_eq_add_one, tokens_succ, h.next]
    rfl
  | @cons cursor piece pieces tail h _ ih =>
    obtain ⟨fuel, rfl⟩ := Nat.exists_eq_succ_of_ne_zero (Nat.ne_of_gt (Nat.zero_lt_of_lt hfuel))
    have hgoes : ¬ cursor.next.1.lexeme.isEnd := by
      rw [h.token]
      exact fun hend => h.wellCut.notEnd (isEnd_iff.1 hend)
    rw [Nat.succ_eq_add_one, tokens_succ, if_neg hgoes, ih (Nat.lt_of_succ_lt_succ hfuel),
      h.token, h.position, ← Position.afterAll_append, ← h.rest, List.map_cons, List.cons_append]

theorem length_le (h : cursor.Cuts pieces tail) : pieces.length ≤ cursor.rest.length := by
  induction h with
  | nil h => exact Nat.zero_le _
  | cons h _ ih =>
    have hpos := h.wellCut.text_pos
    rw [h.rest, List.length_append, List.length_cons]
    omega

/-- A position before the cursor is before all tokens to come. -/
theorem before {p : Position} (h : cursor.Cuts pieces tail) (hp : p.Before cursor.position) :
    ∀ q ∈ pieces.map Piece.place ++
      [cursor.position.afterAll cursor.rest], p.Before q := by
  induction h with
  | nil h =>
    intro q hq
    rw [List.map_nil, List.nil_append, List.mem_singleton] at hq
    exact hq ▸ hp.afterAll _
  | cons h _ ih =>
    intro q hq
    rcases List.mem_cons.1 hq with hq | hq
    · rw [hq, h.place]
      exact hp.afterAll _
    · refine ih ?_ q ?_
      · rw [h.position]
        exact hp.afterAll _
      · rwa [h.position, ← Position.afterAll_append, ← h.rest]

/-- The positions of the tokens increase, up to that of the mark of the end. -/
theorem increasing (h : cursor.Cuts pieces tail) :
    (pieces.map Piece.place ++
      [cursor.position.afterAll cursor.rest]).Pairwise Position.Before := by
  induction h with
  | nil h => exact List.pairwise_singleton _ _
  | @cons cursor piece pieces tail h hrest ih =>
    have hbefore : piece.place.Before cursor.next.2.position := by
      rw [h.position, Piece.text, Position.afterAll_append, h.place]
      exact Position.before_afterAll _ h.wellCut.slice_ne_nil
    have hfinish : cursor.next.2.position.afterAll cursor.next.2.rest =
        cursor.position.afterAll cursor.rest := by
      rw [h.position, ← Position.afterAll_append, ← h.rest]
    rw [hfinish] at ih
    have hall := hrest.before hbefore
    rw [hfinish] at hall
    exact List.pairwise_cons.2 ⟨hall, ih⟩

end Cuts

end Cursor

/-- The positions of the tokens of a text increase. -/
theorem tokenize_increasing (text : String) :
    ((tokenize text).map Token.position).Pairwise Position.Before := by
  obtain ⟨pieces, tail, hcuts⟩ := (Cursor.ofText text).exists_cuts
  have htokens := hcuts.tokens (Nat.lt_succ_of_le hcuts.length_le)
  unfold tokenize
  rw [htokens, List.map_append, List.map_map]
  exact hcuts.increasing

/-- The tokens of a text and the blanks and comments between them make up the text.

* The text is cut into pieces and a tail of blanks and comments. A piece is made of blanks
  and comments, and of a slice that is not empty and is all that its lexeme takes.
* The `n`-th call yields the token of the `n`-th piece, and what is left to be read then is
  that piece and all that follows it. Every call after the last piece yields the mark of
  the end.
* The line of a token is one more than the number of line feeds before it, its column one
  more than the number of characters since the last of them. So positions increase. -/
theorem lexer_partition (text : String) :
    ∃ (pieces : List Piece) (tail : List Char) (finish : Position),
      text.toList = Piece.textAll pieces ++ tail ∧ Trailing tail ∧
      (∀ before piece later, pieces = before ++ piece :: later →
        piece.WellCut (Piece.textAll later ++ tail) ∧
        ((Cursor.ofText text).after before.length).next.1 = piece.token ∧
        ((Cursor.ofText text).after before.length).rest =
          piece.text ++ (Piece.textAll later ++ tail) ∧
        piece.place.line = 1 + (Piece.textAll before ++ piece.gap).count '\n' ∧
        piece.place.column =
          1 + (lastLine (Piece.textAll before ++ piece.gap)).length) ∧
      (∀ n, pieces.length ≤ n →
        ((Cursor.ofText text).after n).next.1 = ⟨.endOfInput, finish⟩) ∧
      finish.line = 1 + text.toList.count '\n' ∧
      finish.column = 1 + (lastLine text.toList).length ∧
      tokenize text = pieces.map Piece.token ++ [⟨.endOfInput, finish⟩] ∧
      (pieces.map Piece.place ++ [finish]).Pairwise Position.Before := by
  obtain ⟨pieces, tail, hcuts⟩ := (Cursor.ofText text).exists_cuts
  have hfinish := Position.start_afterAll text.toList
  refine ⟨pieces, tail, Position.start.afterAll text.toList, hcuts.text, hcuts.trailing, ?_,
    fun n hn => hcuts.finish hn, congrArg Position.line hfinish,
    congrArg Position.column hfinish, hcuts.tokens (Nat.lt_succ_of_le hcuts.length_le),
    hcuts.increasing⟩
  rintro before piece later rfl
  obtain ⟨hlater, hposition⟩ := hcuts.later
  have hrest := hlater.text
  cases hlater with
  | cons hpiece hmore =>
    have hplace := Position.start_afterAll (Piece.textAll before ++ piece.gap)
    rw [Position.afterAll_append] at hplace
    have htoken : piece.place =
        (Position.start.afterAll (Piece.textAll before)).afterAll piece.gap := by
      rw [hpiece.place, hposition]
      rfl
    rw [← hmore.text]
    refine ⟨hpiece.wellCut, hpiece.token, hpiece.rest, ?_, ?_⟩
    · rw [htoken, hplace]
    · rw [htoken, hplace]

end Betty
