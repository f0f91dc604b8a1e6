import DialogueScript.ScriptError
import DialogueScript.Proofs.LineTracking

namespace DialogueScript

section Rows

def textsFrom (offset : Nat) (text : List Char) : List (List Char) :=
  ((linesFrom offset text).1 :: (linesFrom offset text).2).map TextLine.text

theorem textsFrom_row {row : List Char} (h : ∀ c ∈ row, isBreak c = false) (offset : Nat) :
    textsFrom offset row = [row] := by
  rw [← List.append_nil row, textsFrom, linesFrom_append h, linesFrom]
  rfl

theorem textsFrom_append {row : List Char} (h : ∀ c ∈ row, isBreak c = false) (offset : Nat)
    (rest : List Char) :
    textsFrom offset (row ++ '\n' :: rest) = row :: textsFrom (offset + byteLength row + 1) rest := by
  have hbreak := linesFrom_break (.lineFeed rest) (offset + byteLength row)
  rw [List.singleton_append] at hbreak
  rw [textsFrom, linesFrom_append h, hbreak, List.append_nil]
  rfl

end Rows

namespace Blank

theorem trimEnd_eq (text : List Char) : trimEnd text = text.rdropWhile isBlank := rfl

theorem trimEnd_drop (text : List Char) (k : Nat) : trimEnd (text.drop k) = (trimEnd text).drop k := by
  simp only [trimEnd_eq]
  induction text using List.reverseRecOn with
  | nil => simp
  | append_singleton text c ih =>
    rcases Nat.lt_or_ge text.length k with hk | hk
    · have hshort := (List.rdropWhile_prefix isBlank (text ++ [c])).length_le
      rw [List.length_append, List.length_singleton] at hshort
      rw [List.drop_of_length_le (by simpa using hk), List.drop_of_length_le (by omega),
        List.rdropWhile_nil]
    · rw [List.drop_append_of_le_length hk]
      by_cases hc : isBlank c = true
      · rw [List.rdropWhile_concat_pos _ _ _ hc, List.rdropWhile_concat_pos _ _ _ hc, ih]
      · rw [List.rdropWhile_concat_neg _ _ _ hc, List.rdropWhile_concat_neg _ _ _ hc,
          List.drop_append_of_le_length hk]

end Blank

def isIndent (c : Char) : Bool := c = ' ' || c = '\t'

def TextLine.indent (line : TextLine) : Nat := (line.text.takeWhile isIndent).length

theorem TextLine.drop_indent (line : TextLine) : line.text.drop line.indent = line.text.dropWhile isIndent :=
  calc
    line.text.drop line.indent =
        (line.text.takeWhile isIndent ++ line.text.dropWhile isIndent).drop line.indent := by
      rw [List.takeWhile_append_dropWhile]
    _ = line.text.dropWhile isIndent := List.drop_left

/-- The only caret of `row` stands under the character of `text` with index `i`: that character is in `shown`
at the place of the caret, and there it is followed by the rest of the text. -/
structure CaretUnder (shown row text : List Char) (i : Nat) : Prop where
  single : row.count '^' = 1
  char : ∃ c, text[i]? = some c ∧ shown[row.idxOf '^']? = some c
  follows : shown.drop (row.idxOf '^') = Blank.trimEnd (text.drop i)

namespace ScriptError

variable {e : ScriptError} {source : String} {line : TextLine}

/-- The row of an excerpt that shows the line, behind the number of the line. -/
def shownRow (number : Nat) (line : TextLine) : List Char :=
  (toString number ++ " | ").toList ++ Blank.trimEnd (line.text.drop line.indent)

def margin (number : Nat) : List Char := List.replicate ((toString number).length + 1) ' ' ++ ['|']

/-- The row of an excerpt with the caret, `shift` characters behind the margin. -/
def caretRow (number shift : Nat) : List Char :=
  margin number ++ [' '] ++ List.replicate shift '-' ++ ['^']

section Plain

theorem plain_replicate {c : Char} (h : isBreak c = false) (n : Nat) : ∀ d ∈ List.replicate n c, isBreak d = false := by
  intro d hd
  rw [List.eq_of_mem_replicate hd]
  exact h

theorem plain_toString (n : Nat) : ∀ c ∈ (toString n).toList, isBreak c = false := by
  intro c hc
  rw [show toString n = String.ofList (Nat.toDigits 10 n) from rfl, String.toList_ofList] at hc
  exact Lexeme.not_isBreak_of (by decide) (Nat.isDigit_of_mem_toDigits (by decide) (by decide) hc)

theorem plain_margin (number : Nat) : ∀ c ∈ margin number, isBreak c = false :=
  List.forall_mem_append.2 ⟨plain_replicate (by decide) _, by simp [isBreak]⟩

theorem plain_caretRow (number shift : Nat) : ∀ c ∈ caretRow number shift, isBreak c = false := by
  refine List.forall_mem_append.2 ⟨List.forall_mem_append.2 ⟨?_, plain_replicate (by decide) _⟩, by simp [isBreak]⟩
  exact List.forall_mem_append.2 ⟨plain_margin number, by simp [isBreak]⟩

theorem plain_shownRow (number : Nat) (h : ∀ c ∈ line.text, isBreak c = false) :
    ∀ c ∈ shownRow number line, isBreak c = false := by
  unfold shownRow
  rw [String.toList_append]
  refine List.forall_mem_append.2 ⟨List.forall_mem_append.2 ⟨plain_toString _, by simp [isBreak]⟩, fun c hc => ?_⟩
  exact h c (List.mem_of_mem_drop ((List.rdropWhile_prefix Blank.isBlank _).mem hc))

end Plain

theorem toList_excerpt (hline : line? source e.position.line = some line) : (e.excerpt source).toList =
    margin e.position.line ++ '\n' :: (shownRow e.position.line line ++ '\n' ::
      caretRow e.position.line (e.position.column - 1 - line.indent)) := by
  unfold excerpt
  rw [hline]
  simp [margin, shownRow, caretRow, TextLine.drop_indent]
  rfl

theorem texts_excerpt (hline : line? source e.position.line = some line) :
    (lines (e.excerpt source)).map TextLine.text = [margin e.position.line, shownRow e.position.line line,
      caretRow e.position.line (e.position.column - 1 - line.indent)] := by
  have hplain := plain_of_mem_linesFrom 0 _ _ (mem_lines_of_line? hline)
  change textsFrom 0 (e.excerpt source).toList = _
  rw [toList_excerpt hline, textsFrom_append (plain_margin _), textsFrom_append (plain_shownRow _ hplain),
    textsFrom_row (plain_caretRow _ _)]

theorem caretRow_caret (number shift : Nat) : (caretRow number shift).count '^' = 1 ∧
    (caretRow number shift).idxOf '^' = (toString number ++ " | ").toList.length + shift := by
  have hfront : '^' ∉ margin number ++ [' '] ++ List.replicate shift '-' := by simp [margin, List.mem_replicate]
  constructor
  · rw [caretRow, List.count_append, List.count_eq_zero.2 hfront]
    rfl
  · rw [caretRow, List.idxOf_append_of_notMem hfront]
    simp only [margin, String.toList_append, List.length_append, List.length_replicate, List.idxOf_cons_self,
      String.length_toList]
    rfl

/-- A caret behind the margin and `i - indent` dashes is under the character with index `i`. -/
theorem caretUnder {i : Nat} (number : Nat) (hindent : line.indent ≤ i)
    (hi : i < (Blank.trimEnd line.text).length) :
    CaretUnder (shownRow number line) (caretRow number (i - line.indent)) line.text i := by
  obtain ⟨hsingle, hidx⟩ := caretRow_caret number (i - line.indent)
  have hfollows : (shownRow number line).drop ((caretRow number (i - line.indent)).idxOf '^') =
      Blank.trimEnd (line.text.drop i) := by
    rw [hidx, shownRow, ← List.drop_drop, List.drop_left, ← Blank.trimEnd_drop, List.drop_drop,
      Nat.add_sub_cancel' hindent]
  have htext := List.prefix_iff_getElem?.1 (List.rdropWhile_prefix Blank.isBlank line.text) i hi
  refine ⟨hsingle, ⟨_, htext, ?_⟩, hfollows⟩
  rw [← Nat.add_zero (List.idxOf _ _), ← List.getElem?_drop, hfollows, Blank.trimEnd_drop,
    List.getElem?_drop, Nat.add_zero, List.getElem?_eq_getElem hi]
  rfl

theorem indent_lt_of_not_blank (h : ∃ c ∈ line.text, Blank.isBlank c = false) :
    line.indent < (Blank.trimEnd line.text).length := by
  obtain ⟨c, hc, hblank⟩ := h
  have hmem : c ∈ line.text.drop line.indent := by
    rw [← List.takeWhile_append_dropWhile (p := isIndent) (l := line.text)] at hc
    rw [line.drop_indent]
    refine (List.mem_append.1 hc).resolve_left fun hc => ?_
    have hindent : c = ' ' ∨ c = '\t' := by simpa [isIndent] using List.mem_takeWhile_imp hc
    rcases hindent with rfl | rfl <;> cases hblank
  by_contra hle
  have hempty : Blank.trimEnd (line.text.drop line.indent) = [] := by
    rw [Blank.trimEnd_drop, List.drop_of_length_le (Nat.le_of_not_lt hle)]
  have hblanks := List.rdropWhile_eq_nil_iff.1 hempty c hmem
  rw [hblank] at hblanks
  cases hblanks

end ScriptError

/-- The excerpt of an error on a line of the source is three rows: a margin, the line behind its number, without
its indentation and the white space at its end, and a caret. The caret is under the character at the column of
the error if that is one of those shown; if the column is in the indentation of a line with something on it, the
caret is under the first that is shown. -/
theorem caret_under_error (e : ScriptError) {source : String} {line : TextLine}
    (hline : line? source e.position.line = some line) :
    ∃ row, (lines (e.excerpt source)).map TextLine.text =
        [ScriptError.margin e.position.line, ScriptError.shownRow e.position.line line, row] ∧
      (line.indent < e.position.column → e.position.column ≤ (Blank.trimEnd line.text).length →
        CaretUnder (ScriptError.shownRow e.position.line line) row line.text (e.position.column - 1)) ∧
      (e.position.column ≤ line.indent → (∃ c ∈ line.text, Blank.isBlank c = false) →
        CaretUnder (ScriptError.shownRow e.position.line line) row line.text line.indent) := by
  refine ⟨_, ScriptError.texts_excerpt hline, fun hindent hcolumn => ?_, fun hcolumn htext => ?_⟩
  · exact ScriptError.caretUnder _ (by omega) (by omega)
  · have hcaret := ScriptError.caretUnder e.position.line (Nat.le_refl _) (ScriptError.indent_lt_of_not_blank htext)
    -- a column that far to the left asks for no dashes
    have hshift : e.position.column - 1 - line.indent = line.indent - line.indent := by omega
    rwa [← hshift] at hcaret

/-- An indented line with a character of two bytes, blanks at its end, and a caret of its own. -/
def caretScript : String := "node é\n \té^x \n"

theorem caret_under_error_caretScript :
    line? caretScript 2 = some ⟨8, [' ', '\t', 'é', '^', 'x', ' ']⟩ ∧
    (∃ row, (lines (ScriptError.excerpt ⟨.unexpectedCharacter '^', ⟨2, 4⟩⟩ caretScript)).map TextLine.text =
        ["  |".toList, "2 | é^x".toList, row] ∧
      CaretUnder "2 | é^x".toList row [' ', '\t', 'é', '^', 'x', ' '] 3) ∧
    ∃ row, (lines (ScriptError.excerpt ⟨.unexpectedIndentation, ⟨2, 1⟩⟩ caretScript)).map TextLine.text =
        ["  |".toList, "2 | é^x".toList, row] ∧
      CaretUnder "2 | é^x".toList row [' ', '\t', 'é', '^', 'x', ' '] 2 := by
  have hline : line? caretScript 2 = some ⟨8, [' ', '\t', 'é', '^', 'x', ' ']⟩ := by decide
  refine ⟨hline, ?_, ?_⟩
  · obtain ⟨row, htexts, hcaret, -⟩ :=
      caret_under_error ⟨.unexpectedCharacter '^', ⟨2, 4⟩⟩ hline
    exact ⟨row, htexts, hcaret (by decide) (by decide)⟩
  · obtain ⟨row, htexts, -, hcaret⟩ := caret_under_error ⟨.unexpectedIndentation, ⟨2, 1⟩⟩ hline
    exact ⟨row, htexts, hcaret (by decide) ⟨'é', by decide, by decide⟩⟩

end DialogueScript
