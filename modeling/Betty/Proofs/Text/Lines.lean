import Betty.Console
import Betty.Diagnostic.Render
import Mathlib.Data.List.DropRight
import Mathlib.Data.List.TakeDrop

/-!
# Lines

There are two ways to find the lines of something. An input is read off line by line, as
bytes, where a line is taken with the line feed that ends it. A source text is cut into lines
when one of them has to be shown, and the lines are then without their ends.

Reading an input off to its end yields its lines in order, each of them once, and every line
of an input that is valid text is valid text. Cutting undoes putting lines together, if these
have no ends of their own.

## Main definitions

* `Console.lines`: the lines of an input.
* `Console.ReadsOff`: an input is read off, line by line.
* `encoded`: the bytes of characters.
* `IsLine`: a row of characters that is a line with its end.

## Main results

* `Console.ReadsOff.lines`: what has been read off are the lines of the input.
* `splitLine_encoded`: a line of an input that is valid text.
* `sourceLine?_intercalate`: the lines of a text that has been put together from lines.
-/

namespace Betty

/-! ### Inputs -/

namespace Console

theorem splitLine_eq (bytes : List UInt8) :
    splitLine bytes = (bytes.takeWhile (· ≠ 10) ++ (bytes.dropWhile (· ≠ 10)).take 1,
      (bytes.dropWhile (· ≠ 10)).drop 1) := by
  simp only [splitLine, List.span_eq_takeWhile_dropWhile]

/-- The line and the rest make up the bytes. -/
theorem splitLine_append (bytes : List UInt8) :
    (splitLine bytes).1 ++ (splitLine bytes).2 = bytes := by
  rw [splitLine_eq, List.append_assoc, List.take_append_drop, List.takeWhile_append_dropWhile]

theorem splitLine_newline (bytes : List UInt8) : splitLine (10 :: bytes) = ([10], bytes) := by
  rw [splitLine_eq]
  rfl

theorem splitLine_cons {byte : UInt8} (h : byte ≠ 10) (bytes : List UInt8) :
    splitLine (byte :: bytes) = (byte :: (splitLine bytes).1, (splitLine bytes).2) := by
  simp [splitLine_eq, h]

/-- Bytes that do not end the line belong to it. -/
theorem splitLine_append_of_not_mem {front : List UInt8} (h : ∀ byte ∈ front, byte ≠ 10)
    (bytes : List UInt8) :
    splitLine (front ++ bytes) = (front ++ (splitLine bytes).1, (splitLine bytes).2) := by
  induction front with
  | nil => rfl
  | cons byte front ih =>
    obtain ⟨hbyte, hfront⟩ := List.forall_mem_cons.1 h
    rw [List.cons_append, splitLine_cons hbyte, ih hfront]
    rfl

theorem splitLine_ne_nil {bytes : List UInt8} (h : bytes ≠ []) : (splitLine bytes).1 ≠ [] := by
  cases bytes with
  | nil => exact absurd rfl h
  | cons byte bytes =>
    by_cases hbyte : byte = 10
    · rw [hbyte, splitLine_newline]
      exact List.cons_ne_nil _ _
    · rw [splitLine_cons hbyte]
      exact List.cons_ne_nil _ _

/-- The lines of an input, with the line feeds that end them. -/
def lines : List UInt8 → List (List UInt8)
  | [] => []
  | byte :: bytes =>
    if byte = 10 then [10] :: lines bytes
    else
      match lines bytes with
      | [] => [[byte]]
      | line :: rest => (byte :: line) :: rest

/-- Reading takes the first line. -/
theorem lines_eq_cons {bytes : List UInt8} (h : bytes ≠ []) :
    lines bytes = (splitLine bytes).1 :: lines (splitLine bytes).2 := by
  induction bytes with
  | nil => exact absurd rfl h
  | cons byte bytes ih =>
    by_cases hbyte : byte = 10
    · rw [hbyte, lines, if_pos rfl, splitLine_newline]
    · rw [lines, if_neg hbyte, splitLine_cons hbyte]
      cases bytes with
      | nil => rfl
      | cons next more => rw [ih (List.cons_ne_nil next more)]

/-- The input is read off, line by line. At its end the lines that are read are empty. -/
inductive ReadsOff : List UInt8 → List (List UInt8) → List UInt8 → Prop
  | nil (bytes : List UInt8) : ReadsOff bytes [] bytes
  | cons {bytes rest : List UInt8} {read : List (List UInt8)}
    (h : ReadsOff (splitLine bytes).2 read rest) : ReadsOff bytes ((splitLine bytes).1 :: read) rest

namespace ReadsOff

variable {bytes middle rest : List UInt8} {read more : List (List UInt8)}

theorem line (bytes : List UInt8) : ReadsOff bytes [(splitLine bytes).1] (splitLine bytes).2 :=
  .cons (.nil _)

theorem trans (h : ReadsOff bytes read middle) (h' : ReadsOff middle more rest) :
    ReadsOff bytes (read ++ more) rest := by
  induction h with
  | nil bytes => exact h'
  | cons _ ih => exact .cons (ih h')

theorem flatten (h : ReadsOff bytes read rest) : bytes = read.flatten ++ rest := by
  induction h with
  | nil bytes => rfl
  | @cons bytes rest read _ ih =>
    rw [List.flatten_cons, List.append_assoc, ← ih, splitLine_append]

/-- What has been read are the lines of the input, in order and each of them once. -/
theorem lines (h : ReadsOff bytes read rest) :
    Console.lines bytes = read.filter (· ≠ []) ++ Console.lines rest := by
  induction h with
  | nil bytes => rfl
  | @cons bytes rest read _ ih =>
    by_cases hbytes : bytes = []
    -- At the end of the input an empty line is read, and the filter drops it.
    · rw [hbytes] at ih ⊢
      exact ih
    · have hline : decide ((splitLine bytes).1 ≠ []) := decide_eq_true (splitLine_ne_nil hbytes)
      rw [lines_eq_cons hbytes, ih, List.filter_cons, if_pos hline, List.cons_append]

end ReadsOff

end Console

/-! ### Valid text -/

/-- The bytes of characters. -/
def encoded (cs : List Char) : List UInt8 :=
  cs.flatMap String.utf8EncodeChar

/-- The bytes of a text. -/
theorem toUTF8_eq_encoded (text : String) : text.toUTF8.data.toList = encoded text.toList := by
  have hbytes : text.toByteArray = text.toList.utf8Encode := by
    rw [← String.toByteArray_ofList, String.ofList_toList]
  rw [String.toUTF8, hbytes, List.utf8Encode, List.data_toByteArray, List.toList_toArray]
  rfl

/-- The bytes of characters are read as these characters. -/
theorem fromUTF8?_encoded (cs : List Char) :
    String.fromUTF8? (ByteArray.mk (encoded cs).toArray) = some (String.ofList cs) := by
  have hbytes : ByteArray.mk (encoded cs).toArray = (String.ofList cs).toByteArray := by
    rw [String.toByteArray_ofList]
    exact ByteArray.ext List.data_toByteArray.symm
  rw [hbytes]
  exact dif_pos (String.ofList cs).isValidUTF8

/-- A line feed is one byte, and no other character has this byte. -/
theorem ne_newline_of_mem_utf8EncodeChar {c : Char} (h : c ≠ '\n') :
    ∀ byte ∈ String.utf8EncodeChar c, byte ≠ 10 := by
  have hbyte : ∀ n, n < 256 → n ≠ 10 → UInt8.ofNat n ≠ 10 := by
    intro n hn hten heq
    have htoNat := congrArg UInt8.toNat heq
    rw [UInt8.toNat_ofNat_of_lt' hn] at htoNat
    exact hten htoNat
  have hcode : c.val.toNat ≠ 10 := fun hten => h (Char.ext (UInt32.toNat_inj.1 hten))
  -- Apart from the characters of one byte, all bytes are at least 128.
  unfold String.utf8EncodeChar
  dsimp only
  split
  · exact List.forall_mem_singleton.2 (hbyte _ (by omega) hcode)
  · split
    · simp only [List.forall_mem_cons]
      exact ⟨hbyte _ (by omega) (by omega), hbyte _ (by omega) (by omega), List.forall_mem_nil _⟩
    · split
      · simp only [List.forall_mem_cons]
        exact ⟨hbyte _ (by omega) (by omega), hbyte _ (by omega) (by omega),
          hbyte _ (by omega) (by omega), List.forall_mem_nil _⟩
      · simp only [List.forall_mem_cons]
        exact ⟨hbyte _ (by omega) (by omega), hbyte _ (by omega) (by omega),
          hbyte _ (by omega) (by omega), hbyte _ (by omega) (by omega), List.forall_mem_nil _⟩

/-- The characters are a line: if there is a line feed, it is the last of them. -/
def IsLine (cs : List Char) : Prop :=
  ∃ front, '\n' ∉ front ∧ (cs = front ∨ cs = front ++ ['\n'])

theorem IsLine.cons {c : Char} {cs : List Char} (hc : c ≠ '\n') (h : IsLine cs) :
    IsLine (c :: cs) := by
  obtain ⟨front, hfront, hcs⟩ := h
  refine ⟨c :: front, List.not_mem_cons_of_ne_of_not_mem hc.symm hfront, ?_⟩
  rcases hcs with rfl | rfl
  · exact .inl rfl
  · exact .inr rfl

/-- The first line of characters, found in their bytes. -/
theorem splitLine_encoded (cs : List Char) :
    ∃ line rest, IsLine line ∧ cs = line ++ rest ∧
      Console.splitLine (encoded cs) = (encoded line, encoded rest) := by
  induction cs with
  | nil => exact ⟨[], [], ⟨[], List.not_mem_nil, .inl rfl⟩, rfl, rfl⟩
  | cons c cs ih =>
    by_cases hc : c = '\n'
    · refine ⟨['\n'], cs, ⟨[], List.not_mem_nil, .inr rfl⟩, by rw [hc]; rfl, ?_⟩
      rw [hc]
      exact Console.splitLine_newline (encoded cs)
    · obtain ⟨line, rest, hline, hcs, hsplit⟩ := ih
      refine ⟨c :: line, rest, hline.cons hc, by rw [hcs]; rfl, ?_⟩
      have hbytes := Console.splitLine_append_of_not_mem (ne_newline_of_mem_utf8EncodeChar hc)
        (encoded cs)
      rw [hsplit] at hbytes
      exact hbytes

/-- Inputs that are valid text stay so while they are read off. -/
theorem Console.ReadsOff.encoded {bytes rest : List UInt8} {read : List (List UInt8)}
    (h : ReadsOff bytes read rest) (hbytes : ∃ cs, bytes = Betty.encoded cs) :
    ∃ cs, rest = Betty.encoded cs := by
  induction h with
  | nil bytes => exact hbytes
  | cons _ ih =>
    obtain ⟨cs, rfl⟩ := hbytes
    obtain ⟨_, after, _, _, hsplit⟩ := splitLine_encoded cs
    exact ih ⟨after, congrArg Prod.snd hsplit⟩

/-- Reading a line of valid text. -/
theorem Console.readLine_encoded {console : Console} {cs : List Char}
    (h : console.input = Betty.encoded cs) :
    ∃ text, IsLine text.toList ∧
      String.fromUTF8? (ByteArray.mk (splitLine console.input).1.toArray) = some text ∧
      readLine console = .done text { console with input := (splitLine console.input).2 } := by
  obtain ⟨line, rest, hline, _, hsplit⟩ := splitLine_encoded cs
  have htext : String.fromUTF8? (ByteArray.mk (splitLine console.input).1.toArray) =
      some (String.ofList line) := by
    rw [h, hsplit]
    exact fromUTF8?_encoded line
  refine ⟨String.ofList line, by rwa [String.toList_ofList], htext, ?_⟩
  unfold readLine
  dsimp only
  rw [htext]

/-! ### Ends of lines -/

theorem toList_stripLineEnd (text : String) :
    (stripLineEnd text).toList = text.toList.rdropWhile fun c => c = '\n' || c = '\r' := by
  unfold stripLineEnd
  rw [String.toList_ofList]
  rfl

/-- Nothing but line feeds and carriage returns is taken away. -/
theorem stripLineEnd_append (text : String) :
    ∃ ending, text = stripLineEnd text ++ ending ∧
      ∀ c ∈ ending.toList, c = '\n' ∨ c = '\r' := by
  refine ⟨String.ofList (text.toList.rtakeWhile fun c => c = '\n' || c = '\r'), ?_, ?_⟩
  · rw [← String.toList_inj, String.toList_append, toList_stripLineEnd, String.toList_ofList,
      List.rdropWhile_append_rtakeWhile]
  · intro c hc
    rw [String.toList_ofList] at hc
    simpa using List.mem_rtakeWhile_imp hc

/-- No line feed or carriage return is left at the end. -/
theorem getLast?_stripLineEnd (text : String) :
    ∀ c ∈ (stripLineEnd text).toList.getLast?, c ≠ '\n' ∧ c ≠ '\r' := by
  rw [toList_stripLineEnd]
  intro c hc
  obtain ⟨hne, hlast⟩ := List.mem_getLast?_eq_getLast hc
  have hkept := List.rdropWhile_last_not (fun c => c = '\n' || c = '\r') text.toList hne
  rw [← hlast] at hkept
  simpa using hkept

/-- A line has no line feed when its end is taken away. -/
theorem IsLine.newline_not_mem_stripLineEnd {text : String} (h : IsLine text.toList) :
    '\n' ∉ (stripLineEnd text).toList := by
  obtain ⟨front, hfront, htext⟩ := h
  have hsubset : text.toList.rdropWhile (fun c => c = '\n' || c = '\r') ⊆ front := by
    rcases htext with htext | htext
    · rw [htext]
      exact (List.rdropWhile_prefix _ front).subset
    · rw [htext, List.rdropWhile_concat_pos _ _ _ rfl]
      exact (List.rdropWhile_prefix _ front).subset
  rw [toList_stripLineEnd]
  exact fun hmem => hfront (hsubset hmem)

/-! ### Texts made of lines -/

theorem linesFrom_cons {c : Char} (h : c ≠ '\n') (read rest : List Char) :
    linesFrom read (c :: rest) = linesFrom (c :: read) rest := by
  rw [linesFrom.eq_def]
  exact if_neg h

/-- A line that ends at a line feed. -/
theorem linesFrom_newline {read line : List Char} (hline : '\n' ∉ line)
    (hlast : (read.reverse ++ line).getLast? ≠ some '\r') (rest : List Char) :
    linesFrom read (line ++ '\n' :: rest) = (read.reverse ++ line) :: linesFrom [] rest := by
  induction line generalizing read with
  | nil =>
    rw [List.append_nil] at hlast ⊢
    rw [List.nil_append, linesFrom, if_pos rfl]
    -- What is left is that there is no carriage return to be taken along.
    intro before hread
    rw [hread] at hlast
    simp at hlast
  | cons c line ih =>
    obtain ⟨hc, hline⟩ := not_or.1 (mt List.mem_cons.2 hline)
    have hread : read.reverse ++ c :: line = (c :: read).reverse ++ line := by simp
    rw [hread] at hlast ⊢
    rw [List.cons_append, linesFrom_cons (Ne.symm hc), ih hline hlast]

/-- A line that the text ends with. -/
theorem linesFrom_end {read line : List Char} (hline : '\n' ∉ line)
    (hne : read.reverse ++ line ≠ []) : linesFrom read line = [read.reverse ++ line] := by
  induction line generalizing read with
  | nil =>
    rw [List.append_nil] at hne ⊢
    have hread : read.isEmpty = false := by simpa using hne
    rw [linesFrom, hread]
    rfl
  | cons c line ih =>
    obtain ⟨hc, hline⟩ := not_or.1 (mt List.mem_cons.2 hline)
    have hread : read.reverse ++ c :: line = (c :: read).reverse ++ line := by simp
    rw [hread] at hne ⊢
    rw [linesFrom_cons (Ne.symm hc), ih hline hne]

/-- The characters are those of a line that is not empty and has no end of its own. -/
structure Unended (line : List Char) : Prop where
  ne_nil : line ≠ []
  newline : '\n' ∉ line
  last : line.getLast? ≠ some '\r'

theorem linesFrom_intercalate {lines : List (List Char)} (h : ∀ line ∈ lines, Unended line) :
    linesFrom [] (['\n'].intercalate lines) = lines := by
  induction lines with
  | nil => rfl
  | cons line rest ih =>
    obtain ⟨hline, hrest⟩ := List.forall_mem_cons.1 h
    cases rest with
    | nil =>
      rw [List.intercalate_singleton]
      exact linesFrom_end hline.newline hline.ne_nil
    | cons next more =>
      rw [List.intercalate_cons_cons, List.append_assoc, List.singleton_append,
        @linesFrom_newline [] line hline.newline hline.last, ih hrest]
      rfl

/-- The lines of a text that has been put together from lines. -/
theorem sourceLine?_intercalate {lines : List String}
    (h : ∀ line ∈ lines, Unended line.toList) (index : Nat) :
    sourceLine? ("\n".intercalate lines) (index + 1) = lines[index]? := by
  have hlines : linesFrom [] ("\n".intercalate lines).toList = lines.map String.toList := by
    rw [String.toList_intercalate]
    exact linesFrom_intercalate (List.forall_mem_map.2 h)
  have htext : textLines ("\n".intercalate lines) = lines := by
    unfold textLines
    rw [hlines, List.map_map]
    exact (List.map_congr_left fun _ _ => String.ofList_toList).trans (List.map_id lines)
  unfold sourceLine?
  rw [if_neg (Nat.succ_ne_zero index), htext, Nat.add_sub_cancel]

end Betty
