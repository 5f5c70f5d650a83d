import ExprLang.Diagnostic.Excerpt
import ExprLang.Proofs.Diagnostic.Message
import ExprLang.Proofs.Source.Line

/-!
# `Proofs.Diagnostic.Excerpt` — the caret stands below the problem

What is reported of a text stands at one of its tokens, or at its end. So the line of the diagnostic
exists, the indentation of the line ends in front of the diagnostic, and the excerpt has its caret
below the character that the diagnostic speaks of.

## Contents
- `Reported.exists_restAt`: the place of a diagnostic.
- `Stripped`, `indentation_le`: a line without its indentation and without the white space at its end.
- `Diagnostic.rows`, `excerpt_eq`: the rows of an excerpt.
- `Diagnostic.PointsInto`, `caret_points`: the excerpt of what is reported.
-/

namespace ExprLang

/-! ## Places -/

section

variable {source : String} {d : Diagnostic}

/-- What is reported stands at a token of the text. -/
theorem Reported.exists_token (h : Reported source d) :
    ∃ t ∈ tokenize source, t.position = d.position := by
  obtain ⟨s', horderly⟩ := h.orderly
  cases horderly with
  | stopped hpasses =>
      refine ⟨s'.peek, peek_mem hpasses, ?_⟩
      unfold TokenStream.diagnose
      split <;> rfl
  | @disallowed operator w _ hpasses hmem =>
      refine ⟨operator, ?_, rfl⟩
      rw [tokenize_eq_of_passes hpasses]
      exact List.mem_append_left _ hmem

/-- **The place of what is reported** is the end of the text, or no blank character stands there. -/
theorem Reported.exists_restAt (h : Reported source d) :
    ∃ here, RestAt source.toList d.position here ∧ ∀ c, here.head? = some c → isBlank c = false := by
  have hplace : ∀ t ∈ tokensBeforeEnd source, t.position = d.position → ∃ here,
      RestAt source.toList d.position here ∧ ∀ c, here.head? = some c → isBlank c = false := by
    intro t ht hposition
    obtain ⟨here, hrest, hheads⟩ := exists_heads ht
    obtain ⟨c, u, rfl, hc⟩ := hheads.not_blank
    rw [hposition] at hrest
    refine ⟨c :: u, hrest, ?_⟩
    rintro _ ⟨⟩
    exact hc
  by_cases hnoError : ∀ t ∈ tokenize source, t.kind ≠ .error
  · obtain ⟨t, ht, hposition⟩ := h.exists_token
    rw [tokenize_eq] at ht hnoError
    rcases List.mem_append.mp ht with hmem | hend
    · exact hplace t hmem hposition
    · obtain rfl := List.mem_singleton.mp hend
      refine ⟨[], ?_, nofun⟩
      rw [← hposition]
      exact restAt_end fun t ht => hnoError t (List.mem_append_left _ ht)
  · -- the end of such a text is out of reach, so it does not matter where it stands
    simp only [Classical.not_forall, Decidable.not_not] at hnoError
    obtain ⟨e, hmem, he⟩ := hnoError
    obtain ⟨before, after, htokens⟩ := List.append_of_mem hmem
    obtain ⟨⟨t, ht, hposition⟩, -⟩ := h.blames htokens he
    obtain ⟨after', hbefore⟩ := tokensBeforeEnd_of_error htokens he
    refine hplace t ?_ hposition
    rw [hbefore, ← List.singleton_append, ← List.append_assoc]
    exact List.mem_append_left after' ht

end

/-! ## Stripped lines -/

/-- The line is made of `indent`, all spaces and tabs, of `shown`, and of `tail`, all white space.
    Neither `indent` nor `tail` could be longer. -/
structure Stripped (line indent shown tail : List Char) : Prop where
  line_eq : line = indent ++ shown ++ tail
  indent : ∀ c ∈ indent, c = ' ' ∨ c = '\t'
  head : ∀ c, (shown ++ tail).head? = some c → c ≠ ' ' ∧ c ≠ '\t'
  tail : ∀ c ∈ tail, Text.isWhiteSpace c = true
  last : ∀ c, shown.getLast? = some c → Text.isWhiteSpace c = false

/-- The head of what is left when characters were dropped is not such a character. -/
theorem eq_false_of_head?_dropWhile {p : Char → Bool} {text : List Char} {c : Char}
    (h : (text.dropWhile p).head? = some c) : p c = false := by
  have hhead := List.head?_dropWhile_not p text
  rwa [h] at hhead

theorem exists_stripped (line : List Char) :
    ∃ indent tail, indent.length = indentation line ∧
      Stripped line indent (Text.trimEnd (line.drop (indentation line))) tail := by
  have happend := List.takeWhile_append_dropWhile (p := fun c => c = ' ' || c = '\t') (l := line)
  have hdrop := congrArg (List.drop (indentation line)) happend
  rw [indentation, List.drop_left, ← indentation] at hdrop
  generalize line.drop (indentation line) = body at hdrop
  refine ⟨line.takeWhile fun c => c = ' ' || c = '\t',
    (body.reverse.takeWhile Text.isWhiteSpace).reverse, rfl, ?_⟩
  have htrim : Text.trimEnd body ++ (body.reverse.takeWhile Text.isWhiteSpace).reverse = body := by
    rw [Text.trimEnd, ← List.reverse_append, List.takeWhile_append_dropWhile, List.reverse_reverse]
  constructor
  · rw [List.append_assoc, htrim, ← hdrop, happend]
  · intro c hc
    have hindent := List.all_eq_true.mp List.all_takeWhile c hc
    simpa using hindent
  · intro c hc
    rw [htrim, ← hdrop] at hc
    simpa using eq_false_of_head?_dropWhile hc
  · intro c hc
    rw [List.mem_reverse] at hc
    exact List.all_eq_true.mp List.all_takeWhile c hc
  · intro c hc
    rw [Text.trimEnd, List.getLast?_reverse] at hc
    exact eq_false_of_head?_dropWhile hc

/-- A line is not indented beyond a character that is no space and no tab, nor beyond its end. -/
theorem indentation_le {line : List Char} {n : Nat}
    (h : ∀ c, (line.drop n).head? = some c → c ≠ ' ' ∧ c ≠ '\t') : indentation line ≤ n := by
  induction line generalizing n with
  | nil => exact Nat.zero_le n
  | cons c line ih =>
      by_cases hc : c = ' ' ∨ c = '\t'
      · cases n with
        | zero =>
            have hne := h c rfl
            exact absurd hc (not_or.mpr hne)
        | succ n =>
            have hle : indentation line ≤ n := ih fun d hd => h d hd
            unfold indentation at hle ⊢
            rw [List.takeWhile_cons_of_pos (by simpa using hc)]
            exact Nat.succ_le_succ hle
      · unfold indentation
        rw [List.takeWhile_cons_of_neg (by simpa using hc)]
        exact Nat.zero_le n

/-! ## Rows -/

/-- What stands in front of a line: its number, and a bar. -/
def gutter (number : Nat) : List Char := (toString number).toList ++ [' ', '|', ' ']

/-- A bar below that of the gutter. -/
def margin (number : Nat) : List Char := List.replicate ((toString number).length + 1) ' ' ++ ['|']

/-- A caret behind so many dashes. -/
def caretRow (number dashes : Nat) : List Char :=
  margin number ++ ' ' :: (List.replicate dashes '-' ++ ['^'])

/-- The rows of an excerpt: the diagnostic, a bar, the line as far as it is shown, and a caret. -/
def Diagnostic.rows (d : Diagnostic) (shown : List Char) (dashes : Nat) : List (List Char) :=
  [(toString d).toList, margin d.position.line, gutter d.position.line ++ shown,
    caretRow d.position.line dashes]

theorem toList_pushn (c : Char) (n : Nat) : ("".pushn c n).toList = List.replicate n c := by
  induction n with
  | zero => rfl
  | succ n ih =>
      show (("".pushn c n).push c).toList = _
      rw [String.toList_push, ih, List.replicate_succ']

theorem length_gutter (number : Nat) :
    (gutter number).length = (toString number).length + 3 := by
  unfold gutter
  rw [List.length_append, String.length_toList]
  rfl

/-- The bars stand one below the other. -/
theorem bars_getElem? (number : Nat) :
    (margin number)[(toString number).length + 1]? = some '|' ∧
      (gutter number)[(toString number).length + 1]? = some '|' := by
  constructor
  · simp [margin]
  · have hle : (toString number).toList.length ≤ (toString number).length + 1 := by
      rw [String.length_toList]
      exact Nat.le_succ _
    rw [gutter, List.getElem?_append_right hle, String.length_toList, Nat.add_sub_cancel_left]
    rfl

theorem caretRow_getElem? (number dashes : Nat) :
    (caretRow number dashes)[(gutter number).length + dashes]? = some '^' := by
  have hlength : (margin number ++ ' ' :: List.replicate dashes '-').length =
      (gutter number).length + dashes := by
    rw [length_gutter]
    simp [margin]
    omega
  rw [← hlength, caretRow, ← List.cons_append, ← List.append_assoc]
  simp

/-- **The excerpt has four rows** when the line exists and is not indented too far. -/
theorem excerpt_eq {d : Diagnostic} {source : String} {line : List Char}
    (hline : Source.line? source.toList d.position.line = some line)
    (hindent : indentation line < d.position.column) :
    (d.excerpt source).toList =
      List.intercalate ['\n'] (d.rows (Text.trimEnd (line.drop (indentation line)))
        (d.position.column - 1 - indentation line)) := by
  have hcolumn : max (d.position.column - indentation line) 1 - 1 =
      d.position.column - 1 - indentation line := by omega
  unfold Diagnostic.excerpt
  rw [hline]
  simp only [hcolumn]
  simp [Diagnostic.rows, gutter, margin, caretRow, toList_pushn, List.intercalate,
    String.toList_append]

/-- Rows that are made of a line without line feeds have none either. -/
theorem rows_oneLine {d : Diagnostic} {shown : List Char} (hd : OneLine (toString d))
    (hshown : '\n' ∉ shown) (dashes : Nat) : ∀ row ∈ d.rows shown dashes, '\n' ∉ row := by
  have hnumber : '\n' ∉ (toString d.position.line).toList := oneLine_toString _
  have hmargin : '\n' ∉ margin d.position.line := by simp [margin, List.mem_replicate]
  have hgutter : '\n' ∉ gutter d.position.line := by simpa [gutter] using hnumber
  have hcaret : '\n' ∉ caretRow d.position.line dashes := by
    simpa [caretRow, List.mem_replicate] using hmargin
  have hline : '\n' ∉ gutter d.position.line ++ shown := by
    simpa using ⟨hgutter, hshown⟩
  intro row hrow
  simp only [Diagnostic.rows, List.mem_cons, List.not_mem_nil, or_false] at hrow
  rcases hrow with rfl | rfl | rfl | rfl
  · exact hd
  · exact hmargin
  · exact hline
  · exact hcaret

/-- The excerpt of `d` has four rows, and its caret points to `here`, which is what is left of
    `source` from the position of `d` on. -/
structure Diagnostic.PointsInto (d : Diagnostic) (source : String)
    (line indent shown tail here : List Char) : Prop where
  found : Source.line? source.toList d.position.line = some line
  stripped : Stripped line indent shown tail
  indent_lt : indent.length < d.position.column
  excerpt : (d.excerpt source).toList =
    List.intercalate ['\n'] (d.rows shown (d.position.column - 1 - indent.length))
  unbroken : ∀ row ∈ d.rows shown (d.position.column - 1 - indent.length), '\n' ∉ row
  bars : (margin d.position.line)[(toString d.position.line).length + 1]? = some '|' ∧
    (gutter d.position.line)[(toString d.position.line).length + 1]? = some '|'
  caret : (caretRow d.position.line (d.position.column - 1 - indent.length))[
    (gutter d.position.line).length + (d.position.column - 1 - indent.length)]? = some '^'
  place : RestAt source.toList d.position here ∧
    (line.drop (d.position.column - 1)).head? = here.head?
  /-- Below what is shown of the line, the caret stands below the character it points to. -/
  above : d.position.column - 1 < (indent ++ shown).length →
    (gutter d.position.line ++ shown)[
      (gutter d.position.line).length + (d.position.column - 1 - indent.length)]? = here.head?

/-- **The caret stands below the problem**, whatever is reported of a text. -/
theorem caret_points {source : String} {d : Diagnostic} (h : Reported source d) :
    ∃ line indent shown tail here, d.PointsInto source line indent shown tail here := by
  obtain ⟨here, hrest, hblank⟩ := h.exists_restAt
  obtain ⟨line, hline, hfeed, hcolumn, hhere⟩ := hrest.exists_line hblank
  -- the indentation ends in front of a character that is not blank
  have hindent : indentation line ≤ d.position.column - 1 := by
    apply indentation_le
    intro c hc
    rw [hhere] at hc
    have hc' := hblank c hc
    constructor <;> rintro rfl <;> cases hc'
  have hlt : indentation line < d.position.column := by omega
  obtain ⟨indent, tail, hlength, hstripped⟩ := exists_stripped line
  have hexcerpt := excerpt_eq hline hlt
  generalize Text.trimEnd (line.drop (indentation line)) = shown at hstripped hexcerpt
  rw [← hlength] at hindent hlt hexcerpt
  have hshown : '\n' ∉ shown := by
    intro hmem
    rw [hstripped.line_eq] at hfeed
    exact hfeed (List.mem_append_left tail (List.mem_append_right indent hmem))
  refine ⟨line, indent, shown, tail, here, hline, hstripped, hlt, hexcerpt,
    rows_oneLine h.oneLine hshown _, bars_getElem? _, caretRow_getElem? _ _, ⟨hrest, hhere⟩, ?_⟩
  intro hinside
  rw [← hhere, List.head?_drop, hstripped.line_eq, List.getElem?_append_left hinside,
    List.getElem?_append_right hindent, List.getElem?_append_right (Nat.le_add_right _ _),
    Nat.add_sub_cancel_left]

/-- A value is missing on the second line, which is indented; the first one ends with a carriage
    return. -/
theorem caret_points_missing :
    Reported "x;\r\n\tx +;" ⟨.expectedValue, ⟨2, 5⟩⟩ ∧
    ∃ line indent shown tail here,
      Diagnostic.PointsInto ⟨.expectedValue, ⟨2, 5⟩⟩ "x;\r\n\tx +;" line indent shown tail here := by
  have hname : Piece.cut 'x' [';', '\r', '\n', '\t', 'x', ' ', '+', ';'] =
      (.token .identifier ['x'], [';', '\r', '\n', '\t', 'x', ' ', '+', ';']) := rfl
  have hmark : Piece.cut ';' ['\r', '\n', '\t', 'x', ' ', '+', ';'] =
      (.token .semicolon [';'], ['\r', '\n', '\t', 'x', ' ', '+', ';']) := rfl
  have hbreak : Piece.cut '\r' ['\n', '\t', 'x', ' ', '+', ';'] =
      (.gap ['\r', '\n', '\t'], ['x', ' ', '+', ';']) := rfl
  have hname' : Piece.cut 'x' [' ', '+', ';'] = (.token .identifier ['x'], [' ', '+', ';']) := rfl
  have hspace : Piece.cut ' ' ['+', ';'] = (.gap [' '], ['+', ';']) := rfl
  have hplus : Piece.cut '+' [';'] = (.token .plus ['+'], [';']) := rfl
  have hmark' : Piece.cut ';' [] = (.token .semicolon [';'], []) := rfl
  have hscan : Scan.ofSource "x;\r\n\tx +;" =
      ⟨[⟨.identifier, "x", ⟨1, 1⟩⟩, ⟨.semicolon, ";", ⟨1, 2⟩⟩, ⟨.identifier, "x", ⟨2, 2⟩⟩,
        ⟨.plus, "+", ⟨2, 4⟩⟩, ⟨.semicolon, ";", ⟨2, 5⟩⟩], ⟨⟨2, 6⟩, []⟩⟩ := by
    show scan .start ['x', ';', '\r', '\n', '\t', 'x', ' ', '+', ';'] = _
    rw [scan_token hname, scan_token hmark, scan_gap hbreak, scan_token hname', scan_gap hspace,
      scan_token hplus, scan_token hmark', scan_nil]
    rfl
  have h : Reported "x;\r\n\tx +;" ⟨.expectedValue, ⟨2, 5⟩⟩ := by
    apply Reported.program
    rw [parseProgram, TokenStream.ofSource, hscan]
    rfl
  exact ⟨h, caret_points h⟩

end ExprLang
