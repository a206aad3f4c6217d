import Betty.Proofs.Text.Lines
import Betty.Proofs.Token.Partition

/-!
# Excerpts

There are two notions of a line. Reading counts the line feeds that it has passed and the
characters since the last of them. An excerpt shows a line of the text without its end, to which
a carriage return before the line feed belongs. They agree wherever a token starts: the line
that is shown for the position of a token holds the token's first character at its column, so
that the caret under it marks this character.

## Main definitions

* `LineIn`: the text has a line, between what stands before it and its end.
* `Token.StandsIn`: the place of a token in a text.
* `Renderer.numbered`, `Renderer.pointer`: the two rows of an excerpt.

## Main results

* `sourceLine?_eq_some_of_lineIn`: the lines that are shown.
* `exists_lineIn`: every character that ends no line stands in a line.
* `sourceLine?_finish`: the line at the end of the text.
* `caret_marks_token`: the caret stands under the first character of the token.
-/

namespace Betty

/-! ### Lines in a text -/

/-- `LineEnds line later`: the line comes to its end where `later` follows. At the end of the
text there is no empty line, and a carriage return before a line feed is not part of the line. -/
inductive LineEnds (line : List Char) : List Char → Prop
  | text (h : line ≠ []) : LineEnds line []
  | feed (h : line.getLast? ≠ some '\r') (more : List Char) : LineEnds line ('\n' :: more)
  | both (more : List Char) : LineEnds line ('\r' :: '\n' :: more)

/-- The text has the line `line` after `earlier` and before `later`. -/
structure LineIn (text earlier line later : List Char) : Prop where
  text : text = earlier ++ (line ++ later)
  starts : earlier = [] ∨ earlier.getLast? = some '\n'
  newline : '\n' ∉ line
  ends : LineEnds line later

/-- A line that ends at a line feed with a carriage return before it. -/
theorem linesFrom_return {read line : List Char} (hline : '\n' ∉ line) (rest : List Char) :
    linesFrom read (line ++ '\r' :: '\n' :: rest) =
      (read.reverse ++ line) :: linesFrom [] rest := by
  induction line generalizing read with
  | nil =>
    rw [List.nil_append, linesFrom_cons (by decide), linesFrom, if_pos rfl, List.append_nil]
  | cons c line ih =>
    obtain ⟨hc, hline⟩ := not_or.1 (mt List.mem_cons.2 hline)
    have hread : read.reverse ++ c :: line = (c :: read).reverse ++ line := by simp
    rw [List.cons_append, linesFrom_cons (Ne.symm hc), ih hline, hread]

/-- The first line of a text. -/
theorem linesFrom_lineEnds {line later : List Char} (hline : '\n' ∉ line)
    (h : LineEnds line later) : (linesFrom [] (line ++ later)).head? = some line := by
  cases h with
  | text hne => rw [List.append_nil, @linesFrom_end [] line hline hne]; rfl
  | feed hlast more => rw [@linesFrom_newline [] line hline hlast]; rfl
  | both more => rw [@linesFrom_return [] line hline]; rfl

/-- A line feed ends the line that has been read. -/
theorem linesFrom_ended (read : List Char) :
    ∃ line, ∀ rest, linesFrom read ('\n' :: rest) = line :: linesFrom [] rest := by
  exact ⟨_, fun rest => (linesFrom.eq_def read ('\n' :: rest)).trans (if_pos rfl)⟩

/-- A line feed separates the lines before it from those after it. -/
theorem linesFrom_feed (read front rest : List Char) :
    linesFrom read (front ++ '\n' :: rest) =
      linesFrom read (front ++ ['\n']) ++ linesFrom [] rest := by
  induction front generalizing read with
  | nil =>
    obtain ⟨line, hline⟩ := linesFrom_ended read
    rw [List.nil_append, List.nil_append, hline, hline]
    rfl
  | cons c front ih =>
    by_cases hc : c = '\n'
    · obtain ⟨line, hline⟩ := linesFrom_ended read
      rw [hc, List.cons_append, List.cons_append, hline, hline, ih]
      rfl
    · rw [List.cons_append, List.cons_append, linesFrom_cons hc, linesFrom_cons hc, ih]

theorem length_linesFrom_feed (read front : List Char) :
    (linesFrom read (front ++ ['\n'])).length = front.count '\n' + 1 := by
  induction front generalizing read with
  | nil =>
    obtain ⟨line, hline⟩ := linesFrom_ended read
    rw [List.nil_append, hline]
    rfl
  | cons c front ih =>
    by_cases hc : c = '\n'
    · obtain ⟨line, hline⟩ := linesFrom_ended read
      rw [hc, List.cons_append, hline, List.length_cons, ih, List.count_cons_self]
    · rw [List.cons_append, linesFrom_cons hc, ih, List.count_cons_of_ne hc]

/-- Where a line starts, the lines before it are as many as the line feeds before it. -/
theorem getElem?_linesFrom_append {earlier : List Char}
    (h : earlier = [] ∨ earlier.getLast? = some '\n') (rest : List Char) :
    (linesFrom [] (earlier ++ rest))[earlier.count '\n']? = (linesFrom [] rest).head? := by
  rcases h with rfl | h
  · exact List.head?_eq_getElem?.symm
  · obtain ⟨front, rfl⟩ := List.getLast?_eq_some_iff.1 h
    have hcount : (front ++ ['\n']).count '\n' = (linesFrom [] (front ++ ['\n'])).length := by
      rw [length_linesFrom_feed, List.count_append]
      rfl
    rw [List.append_assoc, List.singleton_append, linesFrom_feed, hcount,
      List.getElem?_append_right (Nat.le_refl _), Nat.sub_self]
    exact List.head?_eq_getElem?.symm

/-- The line after `n` line feeds has the number `n + 1`. -/
theorem sourceLine?_append {text : String} {earlier rest : List Char}
    (htext : text.toList = earlier ++ rest)
    (hstarts : earlier = [] ∨ earlier.getLast? = some '\n') :
    sourceLine? text (1 + earlier.count '\n') =
      (linesFrom [] rest).head?.map String.ofList := by
  unfold sourceLine? textLines
  rw [if_neg (by omega), Nat.add_sub_cancel_left, List.getElem?_map, htext,
    getElem?_linesFrom_append hstarts]

theorem sourceLine?_eq_some_of_lineIn {text : String} {earlier line later : List Char}
    (h : LineIn text.toList earlier line later) :
    sourceLine? text (1 + earlier.count '\n') = some (String.ofList line) := by
  rw [sourceLine?_append h.text h.starts, linesFrom_lineEnds h.newline h.ends]
  rfl

/-! ### The line around a character -/

/-- What has been passed consists of whole lines and the start of another one. -/
theorem lastLine_split (passed : List Char) :
    ∃ earlier, passed = earlier ++ lastLine passed ∧
      (earlier = [] ∨ earlier.getLast? = some '\n') ∧ '\n' ∉ lastLine passed := by
  refine ⟨(passed.reverse.dropWhile (· ≠ '\n')).reverse, ?_, ?_, ?_⟩
  · rw [lastLine, ← List.reverse_append, List.takeWhile_append_dropWhile, List.reverse_reverse]
  · rw [List.reverse_eq_nil_iff, List.getLast?_reverse]
    cases hhead : (passed.reverse.dropWhile (· ≠ '\n')).head? with
    | none => exact .inl (List.head?_eq_none_iff.1 hhead)
    | some c =>
      have hstop := List.head?_dropWhile_not (· ≠ '\n') passed.reverse
      rw [hhead] at hstop
      exact .inr (congrArg some (by simpa using hstop))
  · rw [lastLine, List.mem_reverse]
    exact fun hmem => by simpa using List.mem_takeWhile_imp hmem

theorem count_append_lastLine {earlier passed : List Char} (h : passed = earlier ++ lastLine passed)
    (hlast : '\n' ∉ lastLine passed) : passed.count '\n' = earlier.count '\n' := by
  have hcount := congrArg (List.count '\n') h
  rwa [List.count_append, List.count_eq_zero.2 hlast, Nat.add_zero] at hcount

/-- A line that has begun with something else than a carriage return goes on to its end. -/
theorem exists_lineEnds {line : List Char} {c : Char} (hc : c ≠ '\r') (rest : List Char) :
    ∃ after later, rest = after ++ later ∧ '\n' ∉ after ∧
      LineEnds (line ++ c :: after) later := by
  have hfront : '\n' ∉ rest.takeWhile (· ≠ '\n') := fun hmem => by
    simpa using List.mem_takeWhile_imp hmem
  have hsplit := (List.takeWhile_append_dropWhile (p := (· ≠ '\n')) (l := rest)).symm
  have hstop := List.head?_dropWhile_not (· ≠ '\n') rest
  generalize rest.takeWhile (· ≠ '\n') = front at hfront hsplit
  generalize rest.dropWhile (· ≠ '\n') = back at hsplit hstop
  cases back with
  | nil => exact ⟨front, [], hsplit, hfront, .text (by simp)⟩
  | cons feed more =>
    obtain rfl : feed = '\n' := by simpa using hstop
    by_cases hreturn : front.getLast? = some '\r'
    · obtain ⟨after, rfl⟩ := List.getLast?_eq_some_iff.1 hreturn
      refine ⟨after, '\r' :: '\n' :: more, by simpa using hsplit, fun hmem => hfront ?_, .both more⟩
      exact List.mem_append_left _ hmem
    · refine ⟨front, '\n' :: more, hsplit, hfront, .feed ?_ more⟩
      -- the line ends with its last character after `c`, or with `c` itself
      rw [List.getLast?_append, List.getLast?_cons]
      cases hlast : front.getLast? with
      | none => simpa using hc
      | some last =>
        intro heq
        exact hreturn (hlast.trans (by simpa using heq))

/-- A character that does not end a line stands in one, after those that have been passed since
the last line feed. -/
theorem exists_lineIn (passed : List Char) {c : Char} (hfeed : c ≠ '\n') (hreturn : c ≠ '\r')
    (rest : List Char) :
    ∃ earlier after later, passed = earlier ++ lastLine passed ∧
      passed.count '\n' = earlier.count '\n' ∧
      LineIn (passed ++ c :: rest) earlier (lastLine passed ++ c :: after) later := by
  obtain ⟨earlier, hpassed, hstarts, hbefore⟩ := lastLine_split passed
  obtain ⟨after, later, hrest, hafter, hends⟩ := exists_lineEnds hreturn rest
  refine ⟨earlier, after, later, hpassed, count_append_lastLine hpassed hbefore, ?_, hstarts, ?_,
    hends⟩
  · calc passed ++ c :: rest
      _ = earlier ++ lastLine passed ++ c :: (after ++ later) := by rw [← hpassed, ← hrest]
      _ = earlier ++ (lastLine passed ++ c :: after ++ later) := by simp
  · intro hmem
    rcases List.mem_append.1 hmem with hmem | hmem
    · exact hbefore hmem
    · rcases List.mem_cons.1 hmem with heq | hmem
      · exact hfeed heq.symm
      · exact hafter hmem

theorem lastLine_eq_nil_iff {passed : List Char} :
    lastLine passed = [] ↔ passed = [] ∨ passed.getLast? = some '\n' := by
  unfold lastLine
  rw [List.reverse_eq_nil_iff, ← List.head?_reverse]
  cases hback : passed.reverse with
  | nil => simpa using List.reverse_eq_nil_iff.1 hback
  | cons c rest =>
    have hne : passed ≠ [] := by
      rintro rfl
      cases hback
    simp [hne, List.takeWhile_cons]

/-- At the end of a text there is a line unless the text is empty or ends with a line feed. -/
theorem sourceLine?_finish (text : String) :
    sourceLine? text (1 + text.toList.count '\n') = none ↔
      text.toList = [] ∨ text.toList.getLast? = some '\n' := by
  obtain ⟨earlier, hsplit, hstarts, hlast⟩ := lastLine_split text.toList
  rw [count_append_lastLine hsplit hlast, sourceLine?_append hsplit hstarts, Option.map_eq_none_iff,
    List.head?_eq_none_iff, ← lastLine_eq_nil_iff]
  constructor
  · intro hnone
    refine Decidable.byContradiction fun hne => ?_
    rw [@linesFrom_end [] _ hlast hne] at hnone
    cases hnone
  · intro hnil
    rw [hnil]
    rfl

/-! ### The place of a token -/

/-- The token is read off the text after `lead`, and `first` is its first character. -/
structure Token.StandsIn (token : Token) (text lead : List Char) (first : Char)
    (rest : List Char) : Prop where
  text : text = lead ++ first :: rest
  lexeme : (lexemeOf (first :: rest)).1 = token.lexeme
  position : token.position = Position.start.afterAll lead
  inside : separates first = false

theorem Cursor.Cuts.standsIn {cursor : Cursor} {pieces : List Piece} {tail lead : List Char}
    (h : cursor.Cuts pieces tail) (hposition : cursor.position = Position.start.afterAll lead)
    {token : Token} (hmem : token ∈ pieces.map Piece.token) :
    ∃ more first rest, token.StandsIn (lead ++ cursor.rest) (lead ++ more) first rest := by
  induction h generalizing lead with
  | nil h => cases hmem
  | @cons cursor piece pieces tail hpiece _ ih =>
    rw [List.map_cons, List.mem_cons] at hmem
    rcases hmem with rfl | hmem
    · obtain ⟨first, others, hslice, hfirst⟩ := hpiece.wellCut.slice
      refine ⟨piece.gap, first, others ++ cursor.next.2.rest, ?_, ?_, ?_, hfirst⟩
      · rw [hpiece.rest, Piece.text, hslice]
        simp
      · rw [← List.cons_append, ← hslice, hpiece.wellCut.lexeme]
      · rw [Position.afterAll_append, ← hposition]
        exact hpiece.place
    · obtain ⟨more, first, rest, hstands⟩ := @ih (lead ++ piece.text) (by
        rw [hpiece.position, hposition, Position.afterAll_append]) hmem
      rw [List.append_assoc, ← hpiece.rest, List.append_assoc] at hstands
      exact ⟨piece.text ++ more, first, rest, hstands⟩

/-- Every token but the mark of the end stands somewhere in the text. -/
theorem tokenize_standsIn {text : String} {token : Token} (hmem : token ∈ tokenize text)
    (hend : token.lexeme ≠ .endOfInput) :
    ∃ lead first rest, token.StandsIn text.toList lead first rest := by
  obtain ⟨pieces, tail, hcuts⟩ := (Cursor.ofText text).exists_cuts
  have htokens := hcuts.tokens (Nat.lt_succ_of_le hcuts.length_le)
  unfold tokenize at hmem
  rw [htokens, List.mem_append, List.mem_singleton] at hmem
  rcases hmem with hmem | rfl
  · exact @Cursor.Cuts.standsIn _ pieces tail [] hcuts rfl token hmem
  · exact absurd rfl hend

theorem tokenize_finish {text : String} {token : Token} (hmem : token ∈ tokenize text)
    (hend : token.lexeme = .endOfInput) :
    token.position = Position.start.afterAll text.toList := by
  obtain ⟨pieces, tail, hcuts⟩ := (Cursor.ofText text).exists_cuts
  have htokens := hcuts.tokens (Nat.lt_succ_of_le hcuts.length_le)
  unfold tokenize at hmem
  rw [htokens, List.mem_append, List.mem_singleton] at hmem
  rcases hmem with hmem | rfl
  · obtain ⟨more, first, rest, hstands⟩ :=
      @Cursor.Cuts.standsIn _ pieces tail [] hcuts rfl token hmem
    exact absurd (hstands.lexeme.trans hend) (lexemeOf_cons first rest).2
  · rfl

theorem separates_lineEnd {c : Char} (h : separates c = false) : c ≠ '\n' ∧ c ≠ '\r' := by
  constructor
  · rintro rfl
    exact absurd h (by decide)
  · rintro rfl
    exact absurd h (by decide)

/-! ### The rows of an excerpt -/

namespace Renderer

/-- The row that shows a line of the text after its number. -/
def numbered (r : Renderer) (width line : Nat) (content : String) : String :=
  alignRight width (r.blue (toString line)) ++ " " ++ r.blue "|" ++ " " ++ content ++ "\n"

/-- The row with the caret, which stands after `indent` blanks, and the message. -/
def pointer (r : Renderer) (width indent : Nat) (message : String) : String :=
  r.margin width ++ " " ++ blanks indent ++
    r.red (if message.isEmpty then "^" else "^ " ++ message) ++ "\n"

theorem excerpt_of_some (r : Renderer) {label : Label} {content : String}
    (h : sourceLine? r.source label.position.line = some content) (width : Nat) :
    r.excerpt width label = r.numbered width label.position.line content ++
      r.pointer width (label.position.column - 1) label.message := by
  unfold excerpt numbered pointer
  rw [h]
  simp only [String.append_assoc]

theorem excerpt_of_none (r : Renderer) {label : Label}
    (h : sourceLine? r.source label.position.line = none) (width : Nat) :
    r.excerpt width label = "" := by
  unfold excerpt
  rw [h]

theorem mem_shownLabels {d : Diagnostic} {label : Label} :
    label ∈ shownLabels d ↔ label ∈ d.labels ∧ label.position.isKnown := by
  unfold shownLabels
  rw [List.mem_mergeSort, List.mem_filter]

/-- The rows above the excerpts, with the place of the first one. -/
def heading (r : Renderer) (width : Nat) (place : Position) : String :=
  "  " ++ r.blue "-->" ++ " " ++ r.file ++ ":" ++ toString place.line ++ ":" ++
    toString place.column ++ "\n" ++ r.margin width ++ "\n"

theorem excerpts_of_nil (r : Renderer) {d : Diagnostic} (h : shownLabels d = []) :
    r.excerpts d = "" := by
  unfold excerpts
  rw [h]

theorem excerpts_of_cons (r : Renderer) {d : Diagnostic} {first : Label} {rest : List Label}
    (h : shownLabels d = first :: rest) {width : Nat}
    (hwidth : numberWidth (shownLabels d) = width) :
    r.excerpts d = r.heading width first.position ++
      String.join ((shownLabels d).map (r.excerpt width)) ++ (r.margin width ++ "\n") := by
  subst hwidth
  unfold excerpts heading
  rw [h]
  simp only [String.append_assoc]

/-- The excerpt of a label with a known place is part of what is written. -/
theorem excerpt_in_diagnostic (r : Renderer) {d : Diagnostic} {label : Label}
    (h : label ∈ shownLabels d) :
    ∃ front back, r.diagnostic d =
      front ++ r.excerpt (numberWidth (shownLabels d)) label ++ back := by
  obtain ⟨first, rest, hlabels⟩ := List.exists_cons_of_ne_nil (List.ne_nil_of_mem h)
  obtain ⟨before, after, hsplit⟩ := List.append_of_mem h
  generalize hwidth : numberWidth (shownLabels d) = width
  have hexcerpts := r.excerpts_of_cons hlabels hwidth
  rw [hsplit, List.map_append, List.map_cons, String.join_append, String.join_cons] at hexcerpts
  unfold diagnostic
  rw [hexcerpts]
  refine ⟨r.headline d ++ r.heading width first.position ++
    String.join (before.map (r.excerpt width)), String.join (after.map (r.excerpt width)) ++
    (r.margin width ++ "\n") ++
    String.join (d.notes.map fun note => "  " ++ r.blue "=" ++ " " ++ note ++ "\n"), ?_⟩
  simp only [String.append_assoc]

end Renderer

/-! ### The caret -/

/-- A token stands in the line that is shown for its position, at its column. -/
theorem Token.StandsIn.sourceLine? {token : Token} {source : String} {lead rest : List Char}
    {first : Char} (h : token.StandsIn source.toList lead first rest) :
    ∃ line earlier later, sourceLine? source token.position.line = some line ∧
      LineIn source.toList earlier line.toList later ∧
      lead = earlier ++ line.toList.take (token.position.column - 1) ∧
      line.toList[token.position.column - 1]? = some first := by
  obtain ⟨hfeed, hreturn⟩ := separates_lineEnd h.inside
  obtain ⟨earlier, after, later, hlead, hcount, hline⟩ := exists_lineIn lead hfeed hreturn rest
  rw [← h.text] at hline
  have hposition := h.position.trans (Position.start_afterAll lead)
  have hcolumn : token.position.column - 1 = (lastLine lead).length := by
    rw [hposition, Nat.add_sub_cancel_left]
  refine ⟨String.ofList (lastLine lead ++ first :: after), earlier, later, ?_, ?_, ?_, ?_⟩
  · rw [hposition, hcount]
    exact sourceLine?_eq_some_of_lineIn hline
  · rwa [String.toList_ofList]
  · rw [String.toList_ofList, hcolumn, List.take_left]
    exact hlead
  · rw [String.toList_ofList, hcolumn, List.getElem?_append_right (Nat.le_refl _), Nat.sub_self]
    rfl

/-- Positions and excerpts agree, in a text with any line ends.

* For every token but the mark of the end, a line is shown, and the character at the column of
  the token is the token's first one. The line is the one of the text in which the token stands,
  and what precedes the token there is what has been passed since the last line feed. So
  wherever a diagnostic has a label at the token, this line is shown under the number of the
  token's line, and the caret stands after as many blanks as characters precede the token.
* For the mark of the end no line is shown if the text is empty or ends with a line feed, and
  only then. -/
theorem caret_marks_token (source : String) :
    (∀ token ∈ tokenize source, token.lexeme ≠ .endOfInput →
      ∃ lead first rest line, token.StandsIn source.toList lead first rest ∧
        sourceLine? source token.position.line = some line ∧
        line.toList[token.position.column - 1]? = some first ∧
        (∃ earlier later, LineIn source.toList earlier line.toList later ∧
          lead = earlier ++ line.toList.take (token.position.column - 1)) ∧
        ∀ (r : Renderer) (d : Diagnostic) (message : String), r.source = source →
          ⟨token.position, message⟩ ∈ d.labels →
          ∃ front back width, r.diagnostic d =
            front ++ (r.numbered width token.position.line line ++
              r.pointer width (token.position.column - 1) message) ++ back) ∧
    (∃ token ∈ tokenize source, token.lexeme = .endOfInput) ∧
    ∀ token ∈ tokenize source, token.lexeme = .endOfInput →
      (sourceLine? source token.position.line = none ↔
        source = "" ∨ source.toList.getLast? = some '\n') := by
  refine ⟨fun token hmem hend => ?_, ?_, fun token hmem hend => ?_⟩
  · obtain ⟨lead, first, rest, hstands⟩ := tokenize_standsIn hmem hend
    obtain ⟨line, earlier, later, hshown, hline, hlead, hfirst⟩ := hstands.sourceLine?
    refine ⟨lead, first, rest, line, hstands, hshown, hfirst, ⟨earlier, later, hline, hlead⟩, ?_⟩
    intro r d message hsource hlabel
    have hknown : token.position.isKnown := by
      rw [hstands.position, Position.start_afterAll, Position.isKnown, bne_iff_ne]
      exact Nat.ne_of_gt (Nat.lt_add_right _ Nat.one_pos)
    obtain ⟨front, back, hwritten⟩ :=
      r.excerpt_in_diagnostic (Renderer.mem_shownLabels.2 ⟨hlabel, hknown⟩)
    rw [r.excerpt_of_some (hsource ▸ hshown)] at hwritten
    exact ⟨front, back, _, hwritten⟩
  · obtain ⟨pieces, tail, hcuts⟩ := (Cursor.ofText source).exists_cuts
    have htokens := hcuts.tokens (Nat.lt_succ_of_le hcuts.length_le)
    refine ⟨⟨.endOfInput, Position.start.afterAll source.toList⟩, ?_, rfl⟩
    unfold tokenize
    rw [htokens]
    exact List.mem_append_right _ List.mem_cons_self
  · rw [tokenize_finish hmem hend, Position.start_afterAll]
    refine (sourceLine?_finish source).trans ?_
    rw [String.toList_eq_nil_iff]

/-- A token after a carriage return, a line feed and a tab, before a string that spans lines. -/
theorem caret_marks_token_mixed :
    let source := "x\r\n\té = \"a\n\";"
    let token : Token := ⟨.identifier "é", ⟨2, 2⟩⟩
    let r : Renderer := ⟨.terminal, source, "script", false⟩
    let d : Diagnostic := ⟨none, "unused", [⟨⟨2, 2⟩, "here"⟩], []⟩
    token ∈ tokenize source ∧ sourceLine? source 2 = some "\té = \"a" ∧
    ∃ front back width, r.diagnostic d =
      front ++ (r.numbered width 2 "\té = \"a" ++ r.pointer width 1 "here") ++ back := by
  intro source token r d
  have hsecond : (tokenize "x\r\n\té = \"a\n\";")[1]? = some ⟨.identifier "é", ⟨2, 2⟩⟩ := by rfl
  have hmem : token ∈ tokenize source := List.mem_of_getElem? hsecond
  have hline : sourceLine? source 2 = some "\té = \"a" := by decide
  obtain ⟨lead, first, rest, line, -, hshown, -, -, hwritten⟩ :=
    (caret_marks_token source).1 token hmem Lexeme.noConfusion
  obtain rfl : line = "\té = \"a" := Option.some.inj (hshown.symm.trans hline)
  exact ⟨hmem, hline, hwritten r d "here" rfl List.mem_cons_self⟩

end Betty
