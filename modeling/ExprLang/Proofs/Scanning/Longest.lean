import ExprLang.Proofs.Scanning.Place

/-!
# `Proofs.Scanning.Longest` — every token is as long as it can be

`Written k text` says which texts are lexemes of kind `k`, with no regard to what stands around
them. Several lexemes may start at one place, of different lengths and kinds; a token is the longest
of them. The proof turns this around: whatever lexeme a text starts with goes on, by zero or more
characters, to one that nothing goes on with (`Written.goesOn`), and of these there is only one,
because it is what a cut finds (`Lexeme.unique`). Only a slash that starts a comment goes on to none.

## Contents
- `NameLetter`, `Digit`, `Written`: the lexemes of each kind.
- `Lexeme.written`, `Lexeme.unique`, `Lexeme.not_comment`: what is scanned as a token.
- `GoesOnToToken`, `Written.goesOn`: lexemes as the starts of tokens.
- `Longest`, `tokens_longest`: the tokens of a source text.
-/

namespace ExprLang

/-! ## Lexemes -/

/-- A character that a name may start with. -/
def NameLetter (c : Char) : Prop :=
  ('a' ≤ c ∧ c ≤ 'z') ∨ ('A' ≤ c ∧ c ≤ 'Z') ∨ c ∈ ['æ', 'ø', 'å', 'Æ', 'Ø', 'Å', '_']

/-- A decimal digit. -/
def Digit (c : Char) : Prop := '0' ≤ c ∧ c ≤ '9'

/-- The text is written as a token of kind `k`, whatever stands behind it: a word, a number, a
    literal or a symbol. -/
inductive Written : Kind → List Char → Prop where
  | word {c u} (hc : NameLetter c) (hu : ∀ d ∈ u, NameLetter d ∨ Digit d) :
      Written (Kind.ofWord (String.ofList (c :: u))) (c :: u)
  | int {c u} (hc : Digit c) (hu : ∀ d ∈ u, Digit d) : Written .int (c :: u)
  | float {c u v} (hc : Digit c) (hu : ∀ d ∈ u, Digit d) (hv : ∀ d ∈ v, Digit d) :
      Written .float (c :: u ++ '.' :: v)
  | char {c} (hc : c ≠ '\\') : Written .char ['\'', c, '\'']
  | escape {c} : Written .char ['\'', '\\', c, '\'']
  | string {u} (hu : StringBody u) : Written .string ('"' :: u)
  | single {k c} (hk : Kind.ofChar? c = some k) : Written k [c]
  | pair {k c d} (hk : Kind.ofPair? c d = some k) : Written k [c, d]

theorem isDigit_iff {c : Char} : c.isDigit = true ↔ Digit c := by
  unfold Digit
  rw [Char.isDigit, Bool.and_eq_true, decide_eq_true_eq, decide_eq_true_eq]
  exact Iff.rfl

theorem isNameStart_iff {c : Char} : isNameStart c = true ↔ NameLetter c := by
  have hlower : c.isLower = true ↔ 'a' ≤ c ∧ c ≤ 'z' := by
    show (decide ('a' ≤ c) && decide (c ≤ 'z')) = true ↔ _
    rw [Bool.and_eq_true, decide_eq_true_eq, decide_eq_true_eq]
  have hupper : c.isUpper = true ↔ 'A' ≤ c ∧ c ≤ 'Z' := by
    show decide ('A' ≤ c ∧ c ≤ 'Z') = true ↔ _
    rw [decide_eq_true_eq]
  have halpha : c.isAlpha = (c.isUpper || c.isLower) := rfl
  unfold NameLetter
  simp only [isNameStart, halpha, Bool.or_eq_true, decide_eq_true_eq, hlower, hupper,
    List.mem_cons, List.not_mem_nil]
  grind

theorem isNamePart_iff {c : Char} : isNamePart c = true ↔ NameLetter c ∨ Digit c := by
  rw [isNamePart, Bool.or_eq_true, isNameStart_iff, isDigit_iff]

theorem all_isDigit_iff {u : List Char} : u.all Char.isDigit = true ↔ ∀ d ∈ u, Digit d := by
  simp only [List.all_eq_true, isDigit_iff]

theorem all_isNamePart_iff {u : List Char} :
    u.all isNamePart = true ↔ ∀ d ∈ u, NameLetter d ∨ Digit d := by
  simp only [List.all_eq_true, isNamePart_iff]

/-! ## What is scanned as a token -/

section

variable {k k' : Kind} {text text' rest rest' : List Char}

/-- A token is a lexeme. -/
theorem Lexeme.written (h : Lexeme k text rest) : Written k text := by
  cases h with
  | word hc hu => exact .word (isNameStart_iff.mp hc) (all_isNamePart_iff.mp hu)
  | int hc hu => exact .int (isDigit_iff.mp hc) (all_isDigit_iff.mp hu)
  | float hc hu hv =>
      exact .float (isDigit_iff.mp hc) (all_isDigit_iff.mp hu) (all_isDigit_iff.mp hv)
  | char hc => exact .char hc
  | escape => exact .escape
  | string hu => exact .string hu
  | single hk => exact .single hk
  | pair hk => exact .pair hk

/-- **A text is cut in one way**: at most one token stands at its front. -/
theorem Lexeme.unique (h : Lexeme k text rest) (h' : Lexeme k' text' rest')
    (heq : text ++ rest = text' ++ rest') : k = k' ∧ text = text' := by
  obtain ⟨c, u, rfl, hcut⟩ := Piece.cut_complete h
  obtain ⟨c', u', rfl, hcut'⟩ := Piece.cut_complete h'
  rw [List.cons_append, List.cons_append, List.cons.injEq] at heq
  obtain ⟨rfl, htail⟩ := heq
  rw [htail, hcut'] at hcut
  cases hcut
  exact ⟨rfl, rfl⟩

/-- A slash and a star start a comment, or something malformed if it has no end. -/
theorem Piece.cut_slash_star_ne {more : List Char} :
    Piece.cut '/' ('*' :: more) ≠ (.token k text, rest) := by
  intro h
  rw [Piece.cut_slash] at h
  cases hcomment : Piece.comment? ('*' :: more) with
  | none => exact (Piece.comment?_eq_none hcomment).2 rfl
  | some found =>
      rw [hcomment] at h
      cases h
      exact Piece.comment?_sound hcomment rfl

/-- A text that starts with a token does not start with a comment. -/
theorem Lexeme.not_comment (h : Lexeme k text rest) :
    ¬['/', '/'] <+: text ++ rest ∧ ¬['/', '*'] <+: text ++ rest := by
  obtain ⟨c, u, rfl, hcut⟩ := Piece.cut_complete h
  constructor
  · rintro ⟨more, hmore⟩
    simp only [List.cons_append, List.nil_append, List.cons.injEq] at hmore
    obtain ⟨rfl, htail⟩ := hmore
    rw [← htail, Piece.cut_lineComment] at hcut
    cases hcut
  · rintro ⟨more, hmore⟩
    simp only [List.cons_append, List.nil_append, List.cons.injEq] at hmore
    obtain ⟨rfl, htail⟩ := hmore
    rw [← htail] at hcut
    exact Piece.cut_slash_star_ne hcut

/-! ## Lexemes as the starts of tokens -/

/-- In front of `rest`, the lexeme `text` of kind `k` goes on to a token: to one of another kind only
    if that is longer. -/
def GoesOnToToken (k : Kind) (text rest : List Char) : Prop :=
  ∃ k' more rest', Lexeme k' (text ++ more) rest' ∧ more ++ rest' = rest ∧ (more = [] → k' = k)

/-- What is a token as it stands goes on by nothing. -/
theorem Lexeme.goesOn (h : Lexeme k text rest) : GoesOnToToken k text rest := by
  rw [← List.append_nil text] at h
  exact ⟨k, [], rest, h, rfl, fun _ => rfl⟩

/-- A run goes on with all that follows of its class. -/
theorem all_append_takeWhile {p : Char → Bool} {u : List Char} (hu : u.all p = true)
    (rest : List Char) : (u ++ rest.takeWhile p).all p = true := by
  rw [List.all_append, hu, List.all_takeWhile]
  rfl

/-- A number goes on with the digits behind it, and with a point and more digits if it has no point
    yet. -/
theorem int_goesOn {c : Char} {u : List Char} (hc : c.isDigit = true)
    (hu : u.all Char.isDigit = true) (rest : List Char) :
    GoesOnToToken .int (c :: u) rest := by
  have hrun := all_append_takeWhile hu rest
  have hsplit := List.takeWhile_append_dropWhile (p := Char.isDigit) (l := rest)
  have hstop := Piece.not_headIs_dropWhile Char.isDigit rest
  by_cases hpoint : (rest.dropWhile Char.isDigit).head? = some '.'
  · obtain ⟨v, hv⟩ := List.head?_eq_some_iff.mp hpoint
    refine ⟨.float, rest.takeWhile Char.isDigit ++ '.' :: v.takeWhile Char.isDigit,
      v.dropWhile Char.isDigit, ?_, ?_, ?_⟩
    · have hfloat := Lexeme.float hc hrun (List.all_takeWhile (l := v))
        (Piece.not_headIs_dropWhile Char.isDigit v)
      simpa using hfloat
    · rw [List.append_assoc, List.cons_append, List.takeWhile_append_dropWhile, ← hv, hsplit]
    · intro hnil
      simp at hnil
  · exact ⟨.int, _, _, .int hc hrun hstop hpoint, hsplit, fun _ => rfl⟩

/-- **Every lexeme goes on to a token**, unless it is the slash that starts a comment. -/
theorem Written.goesOn (h : Written k text) (hline : ¬['/', '/'] <+: text ++ rest)
    (hblock : ¬['/', '*'] <+: text ++ rest) : GoesOnToToken k text rest := by
  cases h with
  | @word c u hc hu =>
      have hrun := all_append_takeWhile (all_isNamePart_iff.mpr hu) rest
      have hstop := Piece.not_headIs_dropWhile isNamePart rest
      refine ⟨_, rest.takeWhile isNamePart, _, .word (isNameStart_iff.mpr hc) hrun hstop,
        List.takeWhile_append_dropWhile, ?_⟩
      intro hnil
      simp [hnil]
  | int hc hu => exact int_goesOn (isDigit_iff.mpr hc) (all_isDigit_iff.mpr hu) rest
  | @float c u v hc hu hv =>
      have hrun := all_append_takeWhile (all_isDigit_iff.mpr hv) rest
      have hfloat := Lexeme.float (isDigit_iff.mpr hc) (all_isDigit_iff.mpr hu) hrun
        (Piece.not_headIs_dropWhile Char.isDigit rest)
      refine ⟨.float, rest.takeWhile Char.isDigit, _, ?_, List.takeWhile_append_dropWhile,
        fun _ => rfl⟩
      simpa using hfloat
  | char hc => exact (Lexeme.char hc).goesOn
  | escape => exact Lexeme.escape.goesOn
  | string hu => exact (Lexeme.string hu).goesOn
  | @single k c hk =>
      by_cases hpair : ∀ d, rest.head? = some d → Kind.ofPair? c d = none
      · refine (Lexeme.single hk hpair ?_).goesOn
        rintro rfl
        constructor
        · intro hhead
          obtain ⟨more, rfl⟩ := List.head?_eq_some_iff.mp hhead
          exact hline ⟨more, rfl⟩
        · intro hhead
          obtain ⟨more, rfl⟩ := List.head?_eq_some_iff.mp hhead
          exact hblock ⟨more, rfl⟩
      · -- the next character makes a symbol of two
        obtain ⟨d, hd⟩ := Classical.not_forall.mp hpair
        obtain ⟨hhead, hne⟩ := Classical.not_imp.mp hd
        obtain ⟨more, rfl⟩ := List.head?_eq_some_iff.mp hhead
        obtain ⟨k', hk'⟩ := Option.ne_none_iff_exists'.mp hne
        exact ⟨k', [d], more, .pair hk', rfl, fun hnil => absurd hnil (List.cons_ne_nil d [])⟩
  | pair hk => exact (Lexeme.pair hk).goesOn

end

/-! ## The tokens of a text -/

/-- Of all the lexemes that `rest` starts with, `text` is the longest, and `k` is its only kind. -/
def Longest (k : Kind) (text rest : List Char) : Prop :=
  text <+: rest ∧ Written k text ∧
    ∀ k' text', Written k' text' → text' <+: rest →
      text'.length ≤ text.length ∧ (text' = text → k' = k)

/-- **Nothing longer could have been scanned.** -/
theorem Lexeme.longest {k : Kind} {text rest : List Char} (h : Lexeme k text rest) :
    Longest k text (text ++ rest) := by
  refine ⟨List.prefix_append text rest, h.written, ?_⟩
  rintro k' text' hwritten ⟨tail, htail⟩
  obtain ⟨hline, hblock⟩ := h.not_comment
  rw [← htail] at hline hblock
  obtain ⟨k'', more, rest', hlexeme, hmore, hkind⟩ := hwritten.goesOn hline hblock
  -- what the other lexeme goes on to is the token that was scanned
  have heq : text' ++ more ++ rest' = text ++ rest := by rw [List.append_assoc, hmore, htail]
  obtain ⟨rfl, rfl⟩ := hlexeme.unique h heq
  refine ⟨by simp, ?_⟩
  intro hall
  have hnil : more = [] := List.self_eq_append_right.mp hall
  exact (hkind hnil).symm

/-- **Maximal munch.** At the position of every token that is neither malformed nor the end of the
    input the text has one rest, which starts with no comment, and the longest lexeme that it starts
    with is the value of the token, of the kind of the token and of no other. -/
theorem tokens_longest (source : String) (t : Token) (ht : t ∈ tokenize source)
    (herror : t.kind ≠ .error) (hend : t.kind ≠ .eof) :
    ∃ rest, RestAt source.toList t.position rest ∧
      (∀ rest', RestAt source.toList t.position rest' → rest' = rest) ∧
      ¬['/', '/'] <+: rest ∧ ¬['/', '*'] <+: rest ∧ Longest t.kind t.value.toList rest := by
  obtain ⟨rest, hrest, hheads⟩ := exists_heads (mem_tokensBeforeEnd ht hend)
  obtain ⟨s, rfl, hlexeme⟩ := hheads.lexeme_of_ne herror
  obtain ⟨hline, hblock⟩ := hlexeme.not_comment
  exact ⟨_, hrest, fun rest' hrest' => hrest'.unique hrest, hline, hblock, hlexeme.longest⟩

/-- Two stars are one symbol, and the assignment behind them is no part of it. -/
theorem tokens_longest_starStar :
    (⟨.starStar, "**", ⟨1, 2⟩⟩ ∈ tokenize "x**=1.2.3" ∧ Kind.starStar ≠ .error ∧
      Kind.starStar ≠ .eof) ∧
    ∃ rest, RestAt "x**=1.2.3".toList ⟨1, 2⟩ rest ∧
      (∀ rest', RestAt "x**=1.2.3".toList ⟨1, 2⟩ rest' → rest' = rest) ∧
      ¬['/', '/'] <+: rest ∧ ¬['/', '*'] <+: rest ∧ Longest .starStar "**".toList rest := by
  have hname : Piece.cut 'x' ['*', '*', '=', '1', '.', '2', '.', '3'] =
      (.token .identifier ['x'], ['*', '*', '=', '1', '.', '2', '.', '3']) := rfl
  have hstars : Piece.cut '*' ['*', '=', '1', '.', '2', '.', '3'] =
      (.token .starStar ['*', '*'], ['=', '1', '.', '2', '.', '3']) := rfl
  have hmem : ⟨.starStar, "**", ⟨1, 2⟩⟩ ∈ tokenize "x**=1.2.3" := by
    show _ ∈ (scan .start ['x', '*', '*', '=', '1', '.', '2', '.', '3']).tokens ++ _
    rw [scan_token hname, scan_token hstars]
    exact List.mem_append_left _ (List.mem_cons_of_mem _ List.mem_cons_self)
  exact ⟨⟨hmem, by decide, by decide⟩, tokens_longest _ _ hmem (by decide) (by decide)⟩

end ExprLang
