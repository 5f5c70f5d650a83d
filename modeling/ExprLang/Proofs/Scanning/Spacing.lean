import ExprLang.Proofs.Scanning.Value

/-!
# `Proofs.Scanning.Spacing` — tokens laid out anew

Between two tokens any spacing may stand: no token but a slash goes on with the first character of
one. So a text can be laid out anew, with other blanks and comments between its tokens, and the same
tokens are scanned from it. A comment in a spacing is skipped to its own end, whatever is nested in
it: its items are a comment body of the scanner (`CommentItems.body`, by induction on the nesting).

## Contents
- `Blank`, `CommentItems`, `Spacing`: what may stand between two tokens.
- `Spacing.scans`: a spacing is skipped.
- `Parted`, `Lexeme.of_parted`: what a token does not go on with.
- `laidOut`, `laidOut_scans`: tokens with a spacing behind each of them.
- `tokenize_laidOut`: source texts.
-/

namespace ExprLang

/-! ## Spacings -/

/-- A blank character. -/
def Blank (c : Char) : Prop := c = ' ' ∨ c = '\t' ∨ c = '\r' ∨ c = '\n'

theorem isBlank_iff {c : Char} : isBlank c = true ↔ Blank c := by
  simp only [isBlank, Blank, Bool.or_eq_true, decide_eq_true_eq, or_assoc]

/-- The inside of a block comment: characters other than slashes and stars, and block comments. -/
inductive CommentItems : List Char → Prop where
  | nil : CommentItems []
  | plain {c u} (hslash : c ≠ '/') (hstar : c ≠ '*') (h : CommentItems u) : CommentItems (c :: u)
  | nested {u v} (hu : CommentItems u) (hv : CommentItems v) :
      CommentItems ('/' :: '*' :: (u ++ '*' :: '/' :: v))

/-- Blanks, line comments up to the end of their line, and block comments. -/
inductive Spacing : List Char → Prop where
  | nil : Spacing []
  | blank {c v} (hc : Blank c) (h : Spacing v) : Spacing (c :: v)
  | line {u v} (hu : '\n' ∉ u) (h : Spacing v) : Spacing ('/' :: '/' :: (u ++ '\n' :: v))
  | block {u v} (hu : CommentItems u) (h : Spacing v) :
      Spacing ('/' :: '*' :: (u ++ '*' :: '/' :: v))

/-- **The items of a comment end where the comment does**, by induction on the nesting. -/
theorem CommentItems.body {u : List Char} (h : CommentItems u) : CommentBody (u ++ ['*', '/']) := by
  induction h with
  | nil => exact .close
  | plain hslash hstar _ ih => exact .plain (fun hc => hslash hc.1) (fun hc => hstar hc.1) ih
  | @nested u v _ _ ihu ihv =>
      have hnested := CommentBody.nested ihu ihv
      simpa using hnested

/-- A spacing starts with a blank character or with the slash of a comment. -/
theorem Spacing.head {g : List Char} {c : Char} (h : Spacing g) (hc : g.head? = some c) :
    Blank c ∨ c = '/' := by
  cases h with
  | nil => cases hc
  | blank hblank => exact Or.inl (Option.some.inj hc ▸ hblank)
  | line => exact Or.inr (Option.some.inj hc).symm
  | block => exact Or.inr (Option.some.inj hc).symm

/-- **A spacing is skipped.** -/
theorem Spacing.scans {g s : List Char} (hg : Spacing g) {p : Position} {ts : List Token}
    {stop : Cursor} (h : Scans (p.after g) s ts stop) : Scans p (g ++ s) ts stop := by
  induction hg generalizing p with
  | nil => exact h
  | blank hc _ ih => exact .blank (isBlank_iff.mpr hc) (ih h)
  | @line u v hu _ ih =>
      have hsplit : '/' :: '/' :: (u ++ '\n' :: v) = '/' :: '/' :: (u ++ ['\n']) ++ v := by simp
      rw [hsplit, Position.after_append] at h
      have hline := Scans.line hu (ih h)
      simpa using hline
  | @block u v hu _ ih =>
      have hsplit : '/' :: '*' :: (u ++ '*' :: '/' :: v) =
          '/' :: '*' :: (u ++ ['*', '/']) ++ v := by simp
      rw [hsplit, Position.after_append] at h
      have hblock := Scans.block hu.body (ih h)
      simpa using hblock

/-! ## Tokens in front of a spacing -/

/-- The text parts a token of kind `k` from what comes next: it is empty, or starts with a blank
    character, or with a slash that does not make a comment of the token. -/
def Parted (k : Kind) (rest : List Char) : Prop :=
  ∀ c, rest.head? = some c → Blank c ∨ c = '/' ∧ k ≠ .slash

section

variable {k : Kind} {rest : List Char}

theorem Parted.not_headIs (h : Parted k rest) {p : Char → Bool} (hslash : p '/' = false)
    (hblank : ∀ c, Blank c → p c = false) : ¬HeadIs p rest := by
  rintro ⟨c, hc, hp⟩
  rcases h c hc with hb | ⟨rfl, -⟩
  · rw [hblank c hb] at hp
    cases hp
  · rw [hslash] at hp
    cases hp

/-- No symbol has a blank character or a slash behind its first character. -/
theorem Parted.ofPair?_eq_none (h : Parted k rest) {c d : Char} (hd : rest.head? = some d) :
    Kind.ofPair? c d = none := by
  rcases h d hd with hb | ⟨rfl, -⟩
  · exact Kind.ofPair?_of_isBlank (isBlank_iff.mpr hb)
  · unfold Kind.ofPair?
    split <;> first | rfl | contradiction

theorem isNamePart_of_blank {c : Char} (hc : Blank c) : isNamePart c = false := by
  have hblank := isBlank_iff.mpr hc
  rw [isNamePart, Piece.isNameStart_of_isBlank hblank, Piece.isDigit_of_isBlank hblank]
  rfl

theorem isDigit_of_blank {c : Char} (hc : Blank c) : c.isDigit = false :=
  Piece.isDigit_of_isBlank (isBlank_iff.mpr hc)

/-- **A token ends where it did** in front of every text that parts it from what comes next. -/
theorem Lexeme.of_parted {text rest₀ : List Char} (h : Lexeme k text rest₀) (hrest : Parted k rest) :
    Lexeme k text rest := by
  have hname : ¬HeadIs isNamePart rest :=
    hrest.not_headIs (by decide) fun _ => isNamePart_of_blank
  have hdigit : ¬HeadIs Char.isDigit rest :=
    hrest.not_headIs (by decide) fun _ => isDigit_of_blank
  cases h with
  | word hc hu => exact .word hc hu hname
  | int hc hu =>
      refine .int hc hu hdigit ?_
      intro hpoint
      rcases hrest _ hpoint with hb | ⟨hslash, -⟩
      · exact absurd hb (by unfold Blank; decide)
      · exact absurd hslash (by decide)
  | float hc hu hv => exact .float hc hu hv hdigit
  | char hc => exact .char hc
  | escape => exact .escape
  | string hu => exact .string hu
  | @single k c _ hk =>
      refine .single hk (fun d hd => hrest.ofPair?_eq_none hd) ?_
      rintro rfl
      -- this token is a slash, so a blank character stands behind it
      have hkind : k = .slash := (Option.some.inj hk).symm
      have hblank : ∀ d, rest.head? = some d → Blank d :=
        fun d hd => (hrest d hd).resolve_right fun hslash => hslash.2 hkind
      constructor <;> intro hd <;> exact absurd (hblank _ hd) (by unfold Blank; decide)
  | pair hk => exact .pair hk

end

/-! ## Tokens laid out anew -/

/-- The text of tokens, each with a spacing behind it. -/
def laidOut : List (Token × List Char) → List Char
  | [] => []
  | (t, g) :: pieces => t.value.toList ++ (g ++ laidOut pieces)

/-- What a token is, wherever it stands. -/
def Token.content (t : Token) : Kind × String := (t.kind, t.value)

/-- The token in front is parted from the other ones: its spacing is empty only behind all of
    them. -/
theorem parted_laidOut {t : Token} {g : List Char} {pieces : List (Token × List Char)}
    (hg : Spacing g) (hlast : g = [] → pieces = [])
    (hslash : t.kind = .slash → g ≠ [] → ∃ c v, g = c :: v ∧ Blank c) :
    Parted t.kind (g ++ laidOut pieces) := by
  intro c hc
  cases g with
  | nil =>
      rw [hlast rfl] at hc
      cases hc
  | cons d v =>
      rcases hg.head hc with hb | rfl
      · exact Or.inl hb
      · refine Or.inr ⟨rfl, fun hk => ?_⟩
        obtain ⟨_, _, heq, hb⟩ := hslash hk (List.cons_ne_nil d v)
        rw [List.head?_append, heq] at hc
        obtain rfl := Option.some.inj hc
        exact absurd hb (by unfold Blank; decide)

/-- **Tokens laid out anew are scanned again**, by induction on the tokens. -/
theorem laidOut_scans {pieces : List (Token × List Char)} (p : Position)
    (hlexeme : ∀ piece ∈ pieces, ∃ rest, Lexeme piece.1.kind piece.1.value.toList rest)
    (hspacing : ∀ piece ∈ pieces, Spacing piece.2)
    (hinterior : ∀ piece ∈ pieces.dropLast, piece.2 ≠ [])
    (hslash : ∀ piece ∈ pieces, piece.1.kind = .slash → piece.2 ≠ [] →
      ∃ c v, piece.2 = c :: v ∧ Blank c) :
    ∃ ts stop, Scans p (laidOut pieces) ts stop ∧
      ts.map Token.content = pieces.map fun piece => piece.1.content := by
  induction pieces generalizing p with
  | nil => exact ⟨[], _, .done, rfl⟩
  | cons piece pieces ih =>
      obtain ⟨t, g⟩ := piece
      obtain ⟨⟨rest, hfirst⟩, hlexeme⟩ := List.forall_mem_cons.mp hlexeme
      obtain ⟨hg, hspacing⟩ := List.forall_mem_cons.mp hspacing
      obtain ⟨hblank, hslash⟩ := List.forall_mem_cons.mp hslash
      have hlast : g = [] → pieces = [] := by
        intro hnil
        by_cases hmore : pieces = []
        · exact hmore
        · rw [List.dropLast_cons_of_ne_nil hmore] at hinterior
          exact absurd hnil (hinterior _ List.mem_cons_self)
      have htail : ∀ piece ∈ pieces.dropLast, piece.2 ≠ [] := by
        intro piece hpiece
        refine hinterior piece ?_
        rw [List.dropLast_cons_of_ne_nil (List.ne_nil_of_mem (List.dropLast_subset _ hpiece))]
        exact List.mem_cons_of_mem _ hpiece
      obtain ⟨ts, stop, hscans, hcontent⟩ :=
        ih ((p.after t.value.toList).after g) hlexeme hspacing htail hslash
      have htoken := hfirst.of_parted (parted_laidOut hg hlast hblank)
      refine ⟨_, stop, .token htoken (hg.scans hscans), ?_⟩
      rw [List.map_cons, List.map_cons, hcontent]
      simp only [Token.content, String.ofList_toList]

/-- **Layout does not matter.** Lay the tokens of a text without a malformed piece out anew, with
    spacings in front of, between and behind them, where those between two tokens are not empty, and
    those behind a slash start with a blank character if they are not empty. The tokens of the new
    text have the same kinds and values, and behind them stands the end of the input. -/
theorem tokenize_laidOut {source : String} (hnoError : ∀ t ∈ tokenize source, t.kind ≠ .error)
    {first : List Char} {pieces : List (Token × List Char)}
    (htokens : pieces.map Prod.fst = tokensBeforeEnd source) (hfirst : Spacing first)
    (hspacing : ∀ piece ∈ pieces, Spacing piece.2)
    (hinterior : ∀ piece ∈ pieces.dropLast, piece.2 ≠ [])
    (hslash : ∀ piece ∈ pieces, piece.1.kind = .slash → piece.2 ≠ [] →
      ∃ c v, piece.2 = c :: v ∧ Blank c) :
    (tokenize (String.ofList (first ++ laidOut pieces))).map Token.content =
      (tokensBeforeEnd source).map Token.content ++ [(.eof, "")] := by
  have hlexeme : ∀ piece ∈ pieces, ∃ rest, Lexeme piece.1.kind piece.1.value.toList rest := by
    intro piece hpiece
    have hmem : piece.1 ∈ tokensBeforeEnd source := by
      rw [← htokens]
      exact List.mem_map_of_mem hpiece
    have herror : piece.1.kind ≠ .error := by
      refine hnoError _ ?_
      rw [tokenize_eq]
      exact List.mem_append_left _ hmem
    rw [tokensBeforeEnd_eq] at hmem
    exact (scans_scan .start source.toList).lexeme _ hmem herror
  obtain ⟨ts, stop, hscans, hcontent⟩ :=
    laidOut_scans (Position.start.after first) hlexeme hspacing hinterior hslash
  have hscan := scans_iff.mp (hfirst.scans hscans)
  rw [tokenize_eq, tokensBeforeEnd_eq, Scan.ofSource, String.toList_ofList, hscan, List.map_append,
    hcontent, ← htokens, List.map_map]
  rfl

/-- A division with a comment in a comment in front of it, a line comment behind its slash, and
    nothing at its end. -/
theorem tokenize_laidOut_division :
    ((∀ t ∈ tokenize "a/b", t.kind ≠ .error) ∧ Spacing "/*x/*y*/*/".toList) ∧
    (tokenize "/*x/*y*/*/a\n/ //z\nb").map Token.content =
      [(.identifier, "a"), (.slash, "/"), (.identifier, "b"), (.eof, "")] := by
  have hleft : Piece.cut 'a' ['/', 'b'] = (.token .identifier ['a'], ['/', 'b']) := rfl
  have hover : Piece.cut '/' ['b'] = (.token .slash ['/'], ['b']) := rfl
  have hright : Piece.cut 'b' [] = (.token .identifier ['b'], []) := rfl
  have htokens : tokenize "a/b" =
      [⟨.identifier, "a", ⟨1, 1⟩⟩, ⟨.slash, "/", ⟨1, 2⟩⟩, ⟨.identifier, "b", ⟨1, 3⟩⟩,
        ⟨.eof, "", ⟨1, 4⟩⟩] := by
    show (scan .start ['a', '/', 'b']).stream.pending = _
    rw [scan_token hleft, scan_token hover, scan_token hright, scan_nil]
    rfl
  have hnoError : ∀ t ∈ tokenize "a/b", t.kind ≠ .error := by
    rw [htokens]
    decide
  let pieces : List (Token × List Char) :=
    [(⟨.identifier, "a", ⟨1, 1⟩⟩, "\n".toList), (⟨.slash, "/", ⟨1, 2⟩⟩, " //z\n".toList),
      (⟨.identifier, "b", ⟨1, 3⟩⟩, [])]
  have hpieces : pieces.map Prod.fst = tokensBeforeEnd "a/b" := by
    rw [tokensBeforeEnd, htokens]
    decide
  have hfirst : Spacing "/*x/*y*/*/".toList :=
    .block (u := "x/*y*/".toList) (v := [])
      (.plain (by decide) (by decide)
        (.nested (u := ['y']) (v := []) (.plain (by decide) (by decide) .nil) .nil)) .nil
  have hline : Spacing " //z\n".toList :=
    .blank (Or.inl rfl) (.line (u := ['z']) (v := []) (by decide) .nil)
  have hbreak : Spacing "\n".toList := .blank (Or.inr (Or.inr (Or.inr rfl))) .nil
  have hspacing : ∀ piece ∈ pieces, Spacing piece.2 := by
    simp only [pieces, List.forall_mem_cons]
    exact ⟨hbreak, hline, .nil, List.forall_mem_nil _⟩
  have hslash : ∀ piece ∈ pieces, piece.1.kind = .slash → piece.2 ≠ [] →
      ∃ c v, piece.2 = c :: v ∧ Blank c := by
    simp only [pieces, List.forall_mem_cons]
    refine ⟨nofun, ?_, nofun, List.forall_mem_nil _⟩
    exact fun _ _ => ⟨' ', "//z\n".toList, rfl, Or.inl rfl⟩
  have hlaidOut := tokenize_laidOut hnoError hpieces hfirst hspacing (by decide) hslash
  refine ⟨⟨hnoError, hfirst⟩, ?_⟩
  rw [← hpieces] at hlaidOut
  exact hlaidOut

end ExprLang
