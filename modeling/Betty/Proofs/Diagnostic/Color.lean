import Betty.Proofs.Diagnostic.Excerpt

/-!
# Colour and layout

Colour wraps the parts of a diagnostic in sequences that a terminal does not show. Without them
a coloured diagnostic reads as the plain one in every row but one: the number of a line is
aligned after it has been wrapped, so that the characters of the two sequences around it count,
and it stands as many columns further to the left, or as far as there are blanks before it.
There is always at least one, so the layout is kept only if no line is shown at all. On a
terminal the two sequences have ten characters.

## Main definitions

* `uncolored`: a text without its escape sequences.
* `ReadsAs`: what a part of a coloured text reads as.
* `Palette.Unseen`: the sequences of a palette are escape sequences.
* `shiftedRendering`: plain diagnostics with the line numbers further to the left.

## Main results

* `uncolored_renderDiagnostics`: how coloured diagnostics read.
* `uncolored_renderDiagnostics_eq_iff`: when colour leaves the layout as it is.
* `color_shifts_numbers`: both, together.
-/

namespace Betty

/-! ### Texts without escape sequences -/

/-- The characters outside of escape sequences. A sequence runs from the escape character to the
next `m`; `inside` tells whether one has begun. -/
def uncoloredFrom (inside : Bool) : List Char → List Char
  | [] => []
  | c :: rest =>
    if inside then uncoloredFrom (c ≠ 'm') rest
    else if c = '\x1b' then uncoloredFrom true rest
    else c :: uncoloredFrom false rest

/-- A text without the escape sequences in it. -/
def uncolored (text : String) : String :=
  String.ofList (uncoloredFrom false text.toList)

/-- There is no escape character in the text. -/
def Unescaped (text : String) : Prop :=
  '\x1b' ∉ text.toList

instance (text : String) : Decidable (Unescaped text) :=
  inferInstanceAs (Decidable ('\x1b' ∉ text.toList))

/-- None of the texts of a diagnostic has an escape character. -/
structure Diagnostic.Unescaped (d : Diagnostic) : Prop where
  code : ∀ code ∈ d.code, Betty.Unescaped code
  message : Betty.Unescaped d.message
  labels : ∀ label ∈ d.labels, Betty.Unescaped label.message
  notes : ∀ note ∈ d.notes, Betty.Unescaped note

theorem uncoloredFrom_plain {cs : List Char} (h : '\x1b' ∉ cs) (rest : List Char) :
    uncoloredFrom false (cs ++ rest) = cs ++ uncoloredFrom false rest := by
  induction cs with
  | nil => rfl
  | cons c cs ih =>
    obtain ⟨hc, hcs⟩ := not_or.1 (mt List.mem_cons.2 h)
    rw [List.cons_append, uncoloredFrom, if_neg Bool.false_ne_true, if_neg (Ne.symm hc), ih hcs]
    rfl

/-- An escape sequence is passed over. -/
theorem uncoloredFrom_sequence {code : List Char} (h : 'm' ∉ code) (rest : List Char) :
    uncoloredFrom false ('\x1b' :: (code ++ 'm' :: rest)) = uncoloredFrom false rest := by
  rw [uncoloredFrom, if_neg Bool.false_ne_true, if_pos rfl]
  induction code with
  | nil => rw [List.nil_append, uncoloredFrom, if_pos rfl]; rfl
  | cons c code ih =>
    obtain ⟨hc, hcode⟩ := not_or.1 (mt List.mem_cons.2 h)
    rw [List.cons_append, uncoloredFrom, if_pos rfl, decide_eq_true (Ne.symm hc), ih hcode]

/-! ### What coloured text reads as -/

/-- Without its escape sequences the text reads as `plain`, whatever follows it. -/
def ReadsAs (text plain : String) : Prop :=
  ∀ rest, uncoloredFrom false (text.toList ++ rest) = plain.toList ++ uncoloredFrom false rest

namespace ReadsAs

variable {text plain more moreplain : String}

theorem uncolored (h : ReadsAs text plain) : uncolored text = plain := by
  have hall := h []
  rw [List.append_nil] at hall
  unfold Betty.uncolored
  rw [hall, uncoloredFrom, List.append_nil, String.ofList_toList]

theorem of_unescaped (h : Unescaped text) : ReadsAs text text :=
  uncoloredFrom_plain h

theorem append (h : ReadsAs text plain) (hmore : ReadsAs more moreplain) :
    ReadsAs (text ++ more) (plain ++ moreplain) := by
  intro rest
  rw [String.toList_append, String.toList_append, List.append_assoc, h, hmore, List.append_assoc]

theorem join {α : Type} {colored unpainted : α → String} {items : List α}
    (h : ∀ item ∈ items, ReadsAs (colored item) (unpainted item)) :
    ReadsAs (String.join (items.map colored)) (String.join (items.map unpainted)) := by
  induction items with
  | nil => exact @of_unescaped "" (by decide)
  | cons first rest ih =>
    obtain ⟨hfirst, hrest⟩ := List.forall_mem_cons.1 h
    rw [List.map_cons, List.map_cons, String.join_cons, String.join_cons]
    exact hfirst.append (ih hrest)

theorem blank : ReadsAs " " " " :=
  of_unescaped (by decide)

theorem lineFeed : ReadsAs "\n" "\n" :=
  of_unescaped (by decide)

end ReadsAs

/-- The sequences of the paint are not shown. -/
structure Paint.Unseen (paint : Paint) : Prop where
  before : ReadsAs paint.before ""
  after : ReadsAs paint.after ""

/-- How many characters the sequences of the paint have. -/
def Paint.width (paint : Paint) : Nat :=
  paint.before.length + paint.after.length

/-- Of a coloured text nothing is shown but the text. -/
structure Palette.Unseen (palette : Palette) : Prop where
  red : palette.red.Unseen
  blue : palette.blue.Unseen
  bold : palette.bold.Unseen

theorem Paint.length_on (paint : Paint) (text : String) :
    (paint.on text).length = text.length + paint.width := by
  unfold Paint.on Paint.width
  simp only [String.length_append]
  omega

theorem ReadsAs.on {text plain : String} {paint : Paint} (h : ReadsAs text plain)
    (hpaint : paint.Unseen) : ReadsAs (paint.on text) plain := by
  have hall := (hpaint.before.append h).append hpaint.after
  rwa [String.empty_append, String.append_empty] at hall

theorem readsAs_escapeSequence {code : String} (h : 'm' ∉ code.toList) :
    ReadsAs (escapeSequence code) "" := by
  intro rest
  rw [show (escapeSequence code).toList ++ rest =
    '\x1b' :: (('[' :: code.toList) ++ 'm' :: rest) by simp [escapeSequence]]
  exact uncoloredFrom_sequence (by simpa using h) rest

theorem Palette.unseen_terminal : Palette.terminal.Unseen where
  red := ⟨readsAs_escapeSequence (by decide), readsAs_escapeSequence (by decide)⟩
  blue := ⟨readsAs_escapeSequence (by decide), readsAs_escapeSequence (by decide)⟩
  bold := ⟨readsAs_escapeSequence (by decide), readsAs_escapeSequence (by decide)⟩

/-! ### Parts without escape characters -/

theorem unescaped_append {a b : String} (ha : Unescaped a) (hb : Unescaped b) :
    Unescaped (a ++ b) := by
  unfold Unescaped at *
  rw [String.toList_append, List.mem_append]
  exact not_or.2 ⟨ha, hb⟩

theorem unescaped_blanks (n : Nat) : Unescaped (blanks n) := by
  unfold Unescaped blanks
  rw [String.toList_ofList]
  exact fun hmem => absurd (List.eq_of_mem_replicate hmem) (by decide)

theorem unescaped_toString (n : Nat) : Unescaped (toString n) := by
  intro hmem
  have hdigit : '\x1b'.isDigit :=
    Nat.isDigit_of_mem_toDigits (by decide) (by decide) (Nat.toList_repr ▸ hmem)
  exact absurd hdigit (by decide)

theorem mem_linesFrom {read text line : List Char} {c : Char} (hline : line ∈ linesFrom read text)
    (hc : c ∈ line) : c ∈ read ∨ c ∈ text := by
  induction text generalizing read with
  | nil =>
    unfold linesFrom at hline
    split at hline
    · cases hline
    · rw [List.mem_singleton.1 hline, List.mem_reverse] at hc
      exact .inl hc
  | cons first rest ih =>
    unfold linesFrom at hline
    split at hline
    · rcases List.mem_cons.1 hline with rfl | hline
      · refine .inl ?_
        rw [List.mem_reverse] at hc
        split at hc
        · exact List.mem_cons_of_mem _ hc
        · exact hc
      · exact (ih hline).elim (fun hread => absurd hread List.not_mem_nil)
          fun hrest => .inr (List.mem_cons_of_mem first hrest)
    · rcases ih hline with hread | hrest
      · exact (List.mem_cons.1 hread).elim (fun heq => .inr (heq ▸ List.mem_cons_self)) .inl
      · exact .inr (List.mem_cons_of_mem first hrest)

/-- A line of a text has no other characters than the text. -/
theorem unescaped_sourceLine? {source content : String} {line : Nat} (h : Unescaped source)
    (hline : sourceLine? source line = some content) : Unescaped content := by
  unfold sourceLine? textLines at hline
  split at hline
  · cases hline
  · obtain ⟨cs, hmem, rfl⟩ := List.mem_map.1 (List.mem_of_getElem? hline)
    intro hc
    rw [String.toList_ofList] at hc
    exact (mem_linesFrom hmem hc).elim List.not_mem_nil h

theorem unescaped_errorSummary (count : Nat) : Unescaped (errorSummary count) := by
  unfold errorSummary
  split
  · decide
  · refine unescaped_append (unescaped_append (unescaped_append (unescaped_append (by decide)
      (unescaped_toString count)) (by decide)) ?_) (by decide)
    split <;> decide

/-! ### Plain diagnostics with shifted numbers -/

namespace Renderer

/-- An excerpt with the number of its line further to the left. -/
def shiftedExcerpt (r : Renderer) (shift width : Nat) (label : Label) : String :=
  (sourceLine? r.source label.position.line).elim "" fun content =>
    r.numbered (width - shift) label.position.line content ++
      r.pointer width (label.position.column - 1) label.message

/-- The excerpts of a diagnostic with shifted numbers. -/
def shiftedExcerpts (r : Renderer) (shift : Nat) (d : Diagnostic) : String :=
  let width := numberWidth (shownLabels d)
  (shownLabels d).head?.elim "" fun first =>
    r.heading width first.position ++
      String.join ((shownLabels d).map (r.shiftedExcerpt shift width)) ++ (r.margin width ++ "\n")

/-- A note. -/
def note (r : Renderer) (text : String) : String :=
  "  " ++ r.blue "=" ++ " " ++ text ++ "\n"

/-- A diagnostic with shifted numbers. -/
def shiftedDiagnostic (r : Renderer) (shift : Nat) (d : Diagnostic) : String :=
  r.headline d ++ r.shiftedExcerpts shift d ++ String.join (d.notes.map r.note)

theorem shiftedExcerpt_of_none (r : Renderer) {label : Label}
    (h : sourceLine? r.source label.position.line = none) (shift width : Nat) :
    r.shiftedExcerpt shift width label = "" := by
  unfold shiftedExcerpt
  rw [h, Option.elim_none]

theorem shiftedExcerpt_of_some (r : Renderer) {label : Label} {content : String}
    (h : sourceLine? r.source label.position.line = some content) (shift width : Nat) :
    r.shiftedExcerpt shift width label =
      r.numbered (width - shift) label.position.line content ++
        r.pointer width (label.position.column - 1) label.message := by
  unfold shiftedExcerpt
  rw [h, Option.elim_some]

theorem shiftedExcerpts_of_nil (r : Renderer) {d : Diagnostic} (h : shownLabels d = [])
    (shift : Nat) : r.shiftedExcerpts shift d = "" := by
  unfold shiftedExcerpts
  rw [h, List.head?_nil, Option.elim_none]

theorem shiftedExcerpts_of_cons (r : Renderer) {d : Diagnostic} {first : Label}
    {rest : List Label} (h : shownLabels d = first :: rest) (shift : Nat) {width : Nat}
    (hwidth : numberWidth (shownLabels d) = width) :
    r.shiftedExcerpts shift d = r.heading width first.position ++
      String.join ((shownLabels d).map (r.shiftedExcerpt shift width)) ++
        (r.margin width ++ "\n") := by
  subst hwidth
  unfold shiftedExcerpts
  rw [h, List.head?_cons, Option.elim_some]

theorem shiftedExcerpt_zero (r : Renderer) (width : Nat) :
    r.shiftedExcerpt 0 width = r.excerpt width := by
  funext label
  cases hline : sourceLine? r.source label.position.line with
  | none => rw [r.shiftedExcerpt_of_none hline, r.excerpt_of_none hline]
  | some content => rw [r.shiftedExcerpt_of_some hline, r.excerpt_of_some hline, Nat.sub_zero]

theorem shiftedExcerpts_zero (r : Renderer) (d : Diagnostic) :
    r.shiftedExcerpts 0 d = r.excerpts d := by
  cases hlabels : shownLabels d with
  | nil => rw [r.shiftedExcerpts_of_nil hlabels, r.excerpts_of_nil hlabels]
  | cons first rest =>
    rw [r.shiftedExcerpts_of_cons hlabels 0 rfl, r.excerpts_of_cons hlabels rfl,
      shiftedExcerpt_zero]

theorem shiftedDiagnostic_zero (r : Renderer) (d : Diagnostic) :
    r.shiftedDiagnostic 0 d = r.diagnostic d := by
  unfold shiftedDiagnostic diagnostic
  rw [shiftedExcerpts_zero]
  rfl

end Renderer

/-- Diagnostics without colour, with the line numbers `shift` columns further to the left, or as
far as there are blanks before them. -/
def shiftedRendering (palette : Palette) (source file : String) (diagnostics : List Diagnostic)
    (shift : Nat) : String :=
  let r : Renderer := ⟨palette, source, file, false⟩
  String.join (diagnostics.map fun d => r.shiftedDiagnostic shift d ++ "\n") ++
    errorSummary diagnostics.length

theorem renderDiagnostics_plain (palette : Palette) (source file : String)
    (diagnostics : List Diagnostic) :
    renderDiagnostics palette source file diagnostics false =
      shiftedRendering palette source file diagnostics 0 := by
  unfold renderDiagnostics shiftedRendering
  simp only [Renderer.shiftedDiagnostic_zero]

/-! ### How coloured diagnostics read -/

section Reading

variable {palette : Palette} (hpalette : palette.Unseen) {source file : String} {d : Diagnostic}
include hpalette

theorem readsAs_headline (h : d.Unescaped) :
    ReadsAs (Renderer.headline ⟨palette, source, file, true⟩ d)
      (Renderer.headline ⟨palette, source, file, false⟩ d) := by
  have herror : ReadsAs "error" "error" := .of_unescaped (by decide)
  have hkind := (herror.on hpalette.red).on hpalette.bold
  have hcolon : ReadsAs ": " ": " := .of_unescaped (by decide)
  have hmessage := (ReadsAs.of_unescaped h.message).on hpalette.bold
  unfold Renderer.headline
  cases hcode : d.code with
  | none =>
    have hnone : ReadsAs "" "" := .of_unescaped (by decide)
    exact (((hkind.append hnone).append hcolon).append hmessage).append .lineFeed
  | some code =>
    have hsome : ReadsAs ("[" ++ code ++ "]") ("[" ++ code ++ "]") :=
      .of_unescaped (unescaped_append (unescaped_append (by decide) (h.code code hcode))
        (by decide))
    exact (((hkind.append hsome).append hcolon).append hmessage).append .lineFeed

/-- The bar between a number and its line. -/
theorem readsAs_bar : ReadsAs (palette.blue.on "|") "|" :=
  (ReadsAs.of_unescaped (by decide)).on hpalette.blue

theorem readsAs_margin (width : Nat) :
    ReadsAs (Renderer.margin ⟨palette, source, file, true⟩ width)
      (Renderer.margin ⟨palette, source, file, false⟩ width) :=
  ((ReadsAs.of_unescaped (unescaped_blanks width)).append .blank).append (readsAs_bar hpalette)

theorem readsAs_heading (hfile : Unescaped file) (width : Nat) (place : Position) :
    ReadsAs (Renderer.heading ⟨palette, source, file, true⟩ width place)
      (Renderer.heading ⟨palette, source, file, false⟩ width place) := by
  have hblanks : ReadsAs "  " "  " := .of_unescaped (by decide)
  have harrow : ReadsAs "-->" "-->" := .of_unescaped (by decide)
  have hcolon : ReadsAs ":" ":" := .of_unescaped (by decide)
  have hline := ReadsAs.of_unescaped (unescaped_toString place.line)
  have hcolumn := ReadsAs.of_unescaped (unescaped_toString place.column)
  have hname := ((hblanks.append (harrow.on hpalette.blue)).append .blank).append
    (.of_unescaped hfile)
  have hplace := (((hname.append hcolon).append hline).append hcolon).append hcolumn
  exact ((hplace.append .lineFeed).append (readsAs_margin hpalette width)).append .lineFeed

/-- A number is aligned after it has been coloured, so it loses as many blanks as the two
sequences have characters, as far as there are any. -/
theorem readsAs_numbered {content : String} (h : Unescaped content) (width line : Nat) :
    ReadsAs (Renderer.numbered ⟨palette, source, file, true⟩ width line content)
      (Renderer.numbered ⟨palette, source, file, false⟩ (width - palette.blue.width) line
        content) := by
  have hwidth : width - (palette.blue.on (toString line)).length =
      width - palette.blue.width - (toString line).length := by
    rw [Paint.length_on]
    omega
  have hnumber : ReadsAs (alignRight width (palette.blue.on (toString line)))
      (alignRight (width - palette.blue.width) (toString line)) := by
    unfold alignRight
    rw [← hwidth]
    exact (ReadsAs.of_unescaped (unescaped_blanks _)).append
      ((ReadsAs.of_unescaped (unescaped_toString line)).on hpalette.blue)
  exact ((((hnumber.append .blank).append (readsAs_bar hpalette)).append .blank).append
    (.of_unescaped h)).append .lineFeed

theorem readsAs_pointer {message : String} (h : Unescaped message) (width indent : Nat) :
    ReadsAs (Renderer.pointer ⟨palette, source, file, true⟩ width indent message)
      (Renderer.pointer ⟨palette, source, file, false⟩ width indent message) := by
  have hcaret : Unescaped (if message.isEmpty then "^" else "^ " ++ message) := by
    split
    · decide
    · exact unescaped_append (by decide) h
  have hindent := ReadsAs.of_unescaped (unescaped_blanks indent)
  exact ((((readsAs_margin hpalette width).append .blank).append hindent).append
    ((ReadsAs.of_unescaped hcaret).on hpalette.red)).append .lineFeed

theorem readsAs_excerpt (hsource : Unescaped source) {label : Label}
    (h : Unescaped label.message) (width : Nat) :
    ReadsAs (Renderer.excerpt ⟨palette, source, file, true⟩ width label)
      (Renderer.shiftedExcerpt ⟨palette, source, file, false⟩ palette.blue.width width label) := by
  cases hline : sourceLine? source label.position.line with
  | none =>
    rw [Renderer.excerpt_of_none ⟨palette, source, file, true⟩ hline,
      Renderer.shiftedExcerpt_of_none ⟨palette, source, file, false⟩ hline]
    exact .of_unescaped (by decide)
  | some content =>
    have hcontent : Unescaped content := unescaped_sourceLine? hsource hline
    rw [Renderer.excerpt_of_some ⟨palette, source, file, true⟩ hline,
      Renderer.shiftedExcerpt_of_some ⟨palette, source, file, false⟩ hline]
    exact (readsAs_numbered hpalette hcontent width label.position.line).append
      (readsAs_pointer hpalette h width (label.position.column - 1))

theorem readsAs_excerpts (hsource : Unescaped source) (hfile : Unescaped file)
    (h : d.Unescaped) :
    ReadsAs (Renderer.excerpts ⟨palette, source, file, true⟩ d)
      (Renderer.shiftedExcerpts ⟨palette, source, file, false⟩ palette.blue.width d) := by
  cases hshown : Renderer.shownLabels d with
  | nil =>
    rw [Renderer.excerpts_of_nil _ hshown, Renderer.shiftedExcerpts_of_nil _ hshown]
    exact .of_unescaped (by decide)
  | cons first rest =>
    rw [Renderer.excerpts_of_cons _ hshown rfl, Renderer.shiftedExcerpts_of_cons _ hshown _ rfl]
    refine ((readsAs_heading hpalette hfile _ first.position).append
      (.join fun label hmem => ?_)).append ((readsAs_margin hpalette _).append .lineFeed)
    exact readsAs_excerpt hpalette hsource (h.labels label (Renderer.mem_shownLabels.1 hmem).1) _

theorem readsAs_note {text : String} (h : Unescaped text) :
    ReadsAs (Renderer.note ⟨palette, source, file, true⟩ text)
      (Renderer.note ⟨palette, source, file, false⟩ text) := by
  have hblanks : ReadsAs "  " "  " := .of_unescaped (by decide)
  have hsign : ReadsAs "=" "=" := .of_unescaped (by decide)
  exact (((hblanks.append (hsign.on hpalette.blue)).append .blank).append
    (.of_unescaped h)).append .lineFeed

theorem readsAs_diagnostic (hsource : Unescaped source) (hfile : Unescaped file)
    (h : d.Unescaped) :
    ReadsAs (Renderer.diagnostic ⟨palette, source, file, true⟩ d)
      (Renderer.shiftedDiagnostic ⟨palette, source, file, false⟩ palette.blue.width d) :=
  ((readsAs_headline hpalette h).append (readsAs_excerpts hpalette hsource hfile h)).append
    (.join fun note hmem => readsAs_note hpalette (h.notes note hmem))

end Reading

/-- Without the escape sequences coloured diagnostics read as plain ones, except that the line
numbers stand further to the left by the width of the colour, or as far as there are blanks before
them. -/
theorem uncolored_renderDiagnostics {palette : Palette} {source file : String}
    {diagnostics : List Diagnostic} (hpalette : palette.Unseen) (hsource : Unescaped source)
    (hfile : Unescaped file) (hdiagnostics : ∀ d ∈ diagnostics, d.Unescaped) :
    uncolored (renderDiagnostics palette source file diagnostics true) =
      shiftedRendering palette source file diagnostics palette.blue.width := by
  refine ReadsAs.uncolored (.append (.join fun d hmem => ?_) (.of_unescaped ?_))
  · exact (readsAs_diagnostic hpalette hsource hfile (hdiagnostics d hmem)).append .lineFeed
  · exact unescaped_errorSummary diagnostics.length

/-! ### When the layout is kept -/

/-- None of the labels points into a line of the text. -/
def Diagnostic.Unshown (d : Diagnostic) (source : String) : Prop :=
  ∀ label ∈ d.labels, sourceLine? source label.position.line = none

instance (d : Diagnostic) (source : String) : Decidable (d.Unshown source) :=
  inferInstanceAs
    (Decidable (∀ label ∈ d.labels, sourceLine? source label.position.line = none))

theorem length_alignRight (width : Nat) (text : String) :
    (alignRight width text).length = max width text.length := by
  unfold alignRight blanks
  rw [String.length_append, String.length_ofList, List.length_replicate]
  omega

theorem le_foldl_max {n start : Nat} {numbers : List Nat} (h : n ∈ numbers ∨ n ≤ start) :
    n ≤ numbers.foldl max start := by
  induction numbers generalizing start with
  | nil => exact h.resolve_left List.not_mem_nil
  | cons first rest ih =>
    refine ih ?_
    rcases h with hmem | hle
    · rcases List.mem_cons.1 hmem with rfl | hrest
      · exact .inr (Nat.le_max_right _ _)
      · exact .inl hrest
    · exact .inr (Nat.le_trans hle (Nat.le_max_left _ _))

/-- If no part of a text gets longer, the text does not, and it gets shorter if a part does. -/
theorem length_join_map {α : Type} {f g : α → String} {items : List α}
    (h : ∀ item ∈ items, (f item).length ≤ (g item).length) :
    (String.join (items.map f)).length ≤ (String.join (items.map g)).length ∧
    ((∃ item ∈ items, (f item).length < (g item).length) →
      (String.join (items.map f)).length < (String.join (items.map g)).length) := by
  induction items with
  | nil => exact ⟨Nat.le_refl _, fun ⟨_, hmem, _⟩ => absurd hmem List.not_mem_nil⟩
  | cons first rest ih =>
    obtain ⟨hfirst, hrest⟩ := List.forall_mem_cons.1 h
    obtain ⟨hle, hlt⟩ := ih hrest
    simp only [List.map_cons, String.join_cons, String.length_append]
    refine ⟨Nat.add_le_add hfirst hle, ?_⟩
    rintro ⟨item, hmem, hshorter⟩
    rcases List.mem_cons.1 hmem with rfl | hmem
    · omega
    · have := hlt ⟨item, hmem, hshorter⟩
      omega

namespace Renderer

/-- There is a blank before every number. -/
theorem length_lt_numberWidth {labels : List Label} {label : Label} (h : label ∈ labels) :
    (toString label.position.line).length < numberWidth labels :=
  Nat.lt_succ_of_le (le_foldl_max (.inl (List.mem_map_of_mem h)))

/-- A label that points into a line of the text is shown. -/
theorem exists_shownLabel {source : String} {d : Diagnostic} (h : ¬ d.Unshown source) :
    ∃ label ∈ shownLabels d, sourceLine? source label.position.line ≠ none := by
  simp only [Diagnostic.Unshown, not_forall] at h
  obtain ⟨label, hmem, hline⟩ := h
  refine ⟨label, mem_shownLabels.2 ⟨hmem, ?_⟩, hline⟩
  -- there is no line zero
  rw [Position.isKnown, bne_iff_ne]
  intro hzero
  rw [hzero] at hline
  exact hline rfl

variable {palette : Palette} {source file : String} {d : Diagnostic} {shift : Nat}

/-- The blanks before a number are lost, if there are any. -/
theorem length_numbered_lt (hshift : 0 < shift) {width line : Nat}
    (h : (toString line).length < width) (content : String) :
    (numbered ⟨palette, source, file, false⟩ (width - shift) line content).length <
      (numbered ⟨palette, source, file, false⟩ width line content).length := by
  have hplain : blue ⟨palette, source, file, false⟩ (toString line) = toString line := rfl
  unfold numbered
  simp only [String.length_append, hplain, length_alignRight]
  omega

theorem length_shiftedExcerpt_lt (hshift : 0 < shift) {label : Label} {width : Nat}
    (hline : sourceLine? source label.position.line ≠ none)
    (hwidth : (toString label.position.line).length < width) :
    (shiftedExcerpt ⟨palette, source, file, false⟩ shift width label).length <
      (shiftedExcerpt ⟨palette, source, file, false⟩ 0 width label).length := by
  obtain ⟨content, hcontent⟩ := Option.ne_none_iff_exists'.1 hline
  rw [shiftedExcerpt_of_some ⟨palette, source, file, false⟩ hcontent,
    shiftedExcerpt_of_some ⟨palette, source, file, false⟩ hcontent, String.length_append,
    String.length_append]
  exact Nat.add_lt_add_right (length_numbered_lt hshift hwidth content) _

theorem length_shiftedExcerpt_le (hshift : 0 < shift) {label : Label} {width : Nat}
    (hwidth : (toString label.position.line).length < width) :
    (shiftedExcerpt ⟨palette, source, file, false⟩ shift width label).length ≤
      (shiftedExcerpt ⟨palette, source, file, false⟩ 0 width label).length := by
  by_cases hline : sourceLine? source label.position.line = none
  · rw [shiftedExcerpt_of_none ⟨palette, source, file, false⟩ hline,
      shiftedExcerpt_of_none ⟨palette, source, file, false⟩ hline]
  · exact Nat.le_of_lt (length_shiftedExcerpt_lt hshift hline hwidth)

/-- A diagnostic never gets longer, and it gets shorter if a line is shown. -/
theorem length_shiftedDiagnostic (palette : Palette) (source file : String) (d : Diagnostic)
    (hshift : 0 < shift) :
    (shiftedDiagnostic ⟨palette, source, file, false⟩ shift d).length ≤
      (shiftedDiagnostic ⟨palette, source, file, false⟩ 0 d).length ∧
    (¬ d.Unshown source → (shiftedDiagnostic ⟨palette, source, file, false⟩ shift d).length <
      (shiftedDiagnostic ⟨palette, source, file, false⟩ 0 d).length) := by
  unfold shiftedDiagnostic
  simp only [String.length_append]
  cases hlabels : shownLabels d with
  | nil =>
    rw [shiftedExcerpts_of_nil _ hlabels, shiftedExcerpts_of_nil _ hlabels]
    refine ⟨Nat.le_refl _, fun h => ?_⟩
    obtain ⟨label, hmem, -⟩ := exists_shownLabel h
    exact absurd (hlabels ▸ hmem) List.not_mem_nil
  | cons first rest =>
    rw [shiftedExcerpts_of_cons _ hlabels shift rfl, shiftedExcerpts_of_cons _ hlabels 0 rfl]
    obtain ⟨hle, hlt⟩ := @length_join_map Label
      (shiftedExcerpt ⟨palette, source, file, false⟩ shift _)
      (shiftedExcerpt ⟨palette, source, file, false⟩ 0 _) (shownLabels d) fun label hmem =>
        length_shiftedExcerpt_le hshift (length_lt_numberWidth hmem)
    simp only [String.length_append]
    refine ⟨by omega, fun h => ?_⟩
    obtain ⟨label, hmem, hline⟩ := exists_shownLabel h
    have hshorter := hlt
      ⟨label, hmem, length_shiftedExcerpt_lt hshift hline (length_lt_numberWidth hmem)⟩
    omega

/-- Where no line is shown there is nothing to shift. -/
theorem shiftedDiagnostic_of_unshown (palette : Palette) (file : String) (h : d.Unshown source)
    (shift : Nat) :
    shiftedDiagnostic ⟨palette, source, file, false⟩ shift d =
      shiftedDiagnostic ⟨palette, source, file, false⟩ 0 d := by
  have hlabels : ∀ width, ∀ label ∈ shownLabels d,
      shiftedExcerpt ⟨palette, source, file, false⟩ shift width label =
        shiftedExcerpt ⟨palette, source, file, false⟩ 0 width label := by
    intro width label hmem
    have hline := h label (mem_shownLabels.1 hmem).1
    rw [shiftedExcerpt_of_none ⟨palette, source, file, false⟩ hline,
      shiftedExcerpt_of_none ⟨palette, source, file, false⟩ hline]
  unfold shiftedDiagnostic shiftedExcerpts
  simp only [List.map_congr_left (hlabels _)]

end Renderer

/-- Colour leaves the layout as it is exactly if it has no width or no line of the text is
shown. -/
theorem uncolored_renderDiagnostics_eq_iff {palette : Palette} {source file : String}
    {diagnostics : List Diagnostic} (hpalette : palette.Unseen) (hsource : Unescaped source)
    (hfile : Unescaped file) (hdiagnostics : ∀ d ∈ diagnostics, d.Unescaped) :
    uncolored (renderDiagnostics palette source file diagnostics true) =
        renderDiagnostics palette source file diagnostics false ↔
      palette.blue.width = 0 ∨ ∀ d ∈ diagnostics, d.Unshown source := by
  rw [uncolored_renderDiagnostics hpalette hsource hfile hdiagnostics, renderDiagnostics_plain]
  generalize palette.blue.width = shift
  unfold shiftedRendering
  constructor
  · intro hsame
    refine or_iff_not_imp_left.2 fun hshift d hmem => Decidable.byContradiction fun hshown => ?_
    have hlengths := congrArg String.length hsame
    have hshorter := fun other => Renderer.length_shiftedDiagnostic palette source file other
      (Nat.pos_of_ne_zero hshift)
    obtain ⟨-, hlt⟩ := @length_join_map Diagnostic
      (fun d => Renderer.shiftedDiagnostic ⟨palette, source, file, false⟩ shift d ++ "\n")
      (fun d => Renderer.shiftedDiagnostic ⟨palette, source, file, false⟩ 0 d ++ "\n") diagnostics
      fun other _ => by
        simpa only [String.length_append, Nat.add_le_add_iff_right] using (hshorter other).1
    have hless := hlt ⟨d, hmem, by
      simpa only [String.length_append, Nat.add_lt_add_iff_right] using (hshorter d).2 hshown⟩
    simp only [String.length_append] at hlengths
    omega
  · rintro (rfl | hunshown)
    · rfl
    · have hparts : ∀ d ∈ diagnostics,
          Renderer.shiftedDiagnostic ⟨palette, source, file, false⟩ shift d ++ "\n" =
            Renderer.shiftedDiagnostic ⟨palette, source, file, false⟩ 0 d ++ "\n" :=
        fun d hmem => by
          rw [Renderer.shiftedDiagnostic_of_unshown palette file (hunshown d hmem) shift]
      dsimp only
      rw [List.map_congr_left hparts]

/-- Colour moves the line numbers and nothing else. If no text has an escape character, and what
is written around coloured text is not shown, then coloured diagnostics without their escape
sequences are the plain ones with the line numbers further to the left by the width of the colour,
or as far as there are blanks before them; and they are the same as the plain ones if the colour
has no width or no label points into a line of the text, and only then. -/
theorem color_shifts_numbers (palette : Palette) (source file : String)
    (diagnostics : List Diagnostic) (hpalette : palette.Unseen) (hsource : Unescaped source)
    (hfile : Unescaped file) (hdiagnostics : ∀ d ∈ diagnostics, d.Unescaped) :
    renderDiagnostics palette source file diagnostics false =
      shiftedRendering palette source file diagnostics 0 ∧
    uncolored (renderDiagnostics palette source file diagnostics true) =
      shiftedRendering palette source file diagnostics palette.blue.width ∧
    (uncolored (renderDiagnostics palette source file diagnostics true) =
        renderDiagnostics palette source file diagnostics false ↔
      palette.blue.width = 0 ∨ ∀ d ∈ diagnostics, d.Unshown source) :=
  ⟨renderDiagnostics_plain palette source file diagnostics,
    uncolored_renderDiagnostics hpalette hsource hfile hdiagnostics,
    uncolored_renderDiagnostics_eq_iff hpalette hsource hfile hdiagnostics⟩

/-- A diagnostic of the second line of a text. -/
def Diagnostic.ofSecondLine : Diagnostic :=
  ⟨some "E0101", "Unexpected token ';'.", [⟨⟨2, 5⟩, "here"⟩], ["help: give a value"]⟩

/-- A diagnostic that has no place in a text of two lines. -/
def Diagnostic.outside : Diagnostic :=
  ⟨none, "No main function found.", [⟨.unknown, ""⟩, ⟨⟨4, 1⟩, "missing"⟩], []⟩

theorem Diagnostic.unescaped_ofSecondLine : Diagnostic.ofSecondLine.Unescaped :=
  ⟨by decide, by decide, by decide, by decide⟩

/-- On a terminal the numbers move by ten columns, and a diagnostic keeps its layout if it is
outside of the text, and only then. -/
theorem color_shifts_numbers_terminal :
    let source := "a = 1;\nb = ;\n"
    Palette.terminal.blue.width = 10 ∧ Diagnostic.outside.Unshown source ∧
    uncolored (renderDiagnostics .terminal source "script" [.ofSecondLine] true) =
      shiftedRendering .terminal source "script" [.ofSecondLine] 10 ∧
    uncolored (renderDiagnostics .terminal source "script" [.outside] true) =
      renderDiagnostics .terminal source "script" [.outside] false := by
  intro source
  have hunshown : Diagnostic.outside.Unshown source := by decide
  have hunescaped : Diagnostic.outside.Unescaped := ⟨by decide, by decide, by decide, by decide⟩
  obtain ⟨-, hmoved, -⟩ := color_shifts_numbers .terminal source "script" [.ofSecondLine]
    Palette.unseen_terminal (by decide) (by decide)
    (List.forall_mem_singleton.2 Diagnostic.unescaped_ofSecondLine)
  obtain ⟨-, -, hkept⟩ := color_shifts_numbers .terminal source "script" [.outside]
    Palette.unseen_terminal (by decide) (by decide) (List.forall_mem_singleton.2 hunescaped)
  exact ⟨by decide, hunshown, hmoved, hkept.2 (.inr (List.forall_mem_singleton.2 hunshown))⟩

/-- The number of the second line is not where it is without colour. -/
theorem color_moves_number :
    let source := "a = 1;\nb = ;\n"
    let heading := "error[E0101]: Unexpected token ';'.\n  --> script:2:5\n   |\n"
    let ending := "   |     ^ here\n   |\n  = help: give a value\n\n" ++
      "error: aborting due to 1 error\n"
    Diagnostic.ofSecondLine.Unescaped ∧
    renderDiagnostics .terminal source "script" [.ofSecondLine] false =
      heading ++ " 2 | b = ;\n" ++ ending ∧
    uncolored (renderDiagnostics .terminal source "script" [.ofSecondLine] true) =
      heading ++ "2 | b = ;\n" ++ ending ∧
    uncolored (renderDiagnostics .terminal source "script" [.ofSecondLine] true) ≠
      renderDiagnostics .terminal source "script" [.ofSecondLine] false := by
  intro source heading ending
  have hplain : renderDiagnostics .terminal source "script" [.ofSecondLine] false =
      heading ++ " 2 | b = ;\n" ++ ending := by decide +kernel
  have hcolored : uncolored (renderDiagnostics .terminal source "script" [.ofSecondLine] true) =
      heading ++ "2 | b = ;\n" ++ ending := by
    rw [uncolored_renderDiagnostics Palette.unseen_terminal (by decide) (by decide)
      (List.forall_mem_singleton.2 Diagnostic.unescaped_ofSecondLine)]
    decide +kernel
  refine ⟨Diagnostic.unescaped_ofSecondLine, hplain, hcolored, ?_⟩
  rw [hplain, hcolored]
  decide

end Betty
