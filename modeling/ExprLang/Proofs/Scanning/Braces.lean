import ExprLang.Proofs.Reading.Lookahead
import ExprLang.Proofs.Scanning.Joining
import ExprLang.Proofs.Scanning.Reaching

/-!
# `Proofs.Scanning.Braces` — a text between curly brackets

A text that is put between curly brackets, the closing one on a line of its own, keeps its tokens:
the opening bracket goes on with nothing, and the line feed ends whatever stands in front of it. And
nothing malformed is mended by what is put behind it, since the brackets and the line feed end no
literal and no comment.

## Contents
- `Scans.elsewhere`: a scan of the same text from another position.
- `exists_of_ends_before`: a piece that ends in front of what follows.
- `Piece.isFault_before_lineFeed`, `Scans.error_before_lineFeed`: malformed texts in front of a line
  feed.
- `tokens_braced`, `noError_of_braced`: the tokens of a text between curly brackets.
-/

namespace ExprLang

/-! ## The same text elsewhere -/

/-- **The same text is scanned as the same lexemes** wherever it stands. -/
theorem Scans.elsewhere {p : Position} {s : List Char} {ts : List Token} {stop : Cursor}
    (h : Scans p s ts stop) (p' : Position) :
    ∃ ts' stop', Scans p' s ts' stop' ∧ ts'.map Token.lexeme = ts.map Token.lexeme := by
  refine ⟨_, _, h.moved (Position.moved p p') (Position.moved_after p p'), ?_⟩
  rw [List.map_map]
  rfl

/-! ## Malformed texts in front of a line feed -/

/-- A piece that ends with a character of which there is none behind `s` ends inside `s`. -/
theorem exists_of_ends_before {u rest s more : List Char} {q : Char} (hu : u.getLast? = some q)
    (hq : q ∉ more) (h : u ++ rest = s ++ more) : ∃ rest', s = u ++ rest' := by
  rcases List.append_eq_append_iff.mp h with ⟨w, hs, -⟩ | ⟨w, rfl, rfl⟩
  · exact ⟨w, hs⟩
  · cases List.eq_nil_or_concat w with
    | inl hw => exact ⟨[], by rw [hw, List.append_nil, List.append_nil]⟩
    | inr hw =>
        -- the last character would stand behind `s`
        obtain ⟨v, d, rfl⟩ := hw
        rw [List.concat_eq_append, ← List.append_assoc, List.getLast?_concat] at hu
        cases hu
        exact absurd (by simp) hq

theorem StringBody.getLast? {u : List Char} (h : StringBody u) : u.getLast? = some '"' := by
  induction h with
  | close => rfl
  | escaped _ ih => simp [List.getLast?_cons, ih]
  | plain _ _ _ ih => simp [List.getLast?_cons, ih]

theorem CommentBody.getLast? {u : List Char} (h : CommentBody u) : u.getLast? = some '/' := by
  induction h with
  | close => rfl
  | nested _ _ _ ih => simp [List.getLast?_cons, List.getLast?_append, ih]
  | plain _ _ _ ih => simp [List.getLast?_cons, ih]

/-- Nothing in the text ends a literal or a comment. -/
def EndsNothing (text : List Char) : Prop := '\'' ∉ text ∧ '"' ∉ text ∧ '/' ∉ text

namespace Piece

variable {c : Char} {s more : List Char}

/-- What starts with a lexeme is not malformed there. -/
theorem isFault_of_lexeme {k : Kind} {text rest : List Char} (h : Lexeme k text rest)
    (happend : c :: s = text ++ rest) : (cut c s).1.isFault = false := by
  rw [cut_eq_token_iff.mpr ⟨h, happend.symm⟩]
  rfl

/-- A lexeme at the front of a text that goes on behind a line feed is no fault without what goes
    on: it ends in front of the line feed. -/
theorem isFault_of_lexeme_before {k : Kind} {text rest : List Char} (hmore : EndsNothing more)
    (h : Lexeme k text rest) (happend : text ++ rest = (c :: s) ++ '\n' :: more) :
    (cut c s).1.isFault = false := by
  have hends : ∀ {q : Char}, q ≠ '\n' → q ∉ more → text.getLast? = some q →
      ∃ rest', c :: s = text ++ rest' := by
    intro q hfeed hq hlast
    refine exists_of_ends_before hlast (fun hmem => ?_) happend
    rcases List.mem_cons.mp hmem with heq | hmem
    · exact hfeed heq
    · exact hq hmem
  cases h with
  | word hc =>
      obtain ⟨rfl, -⟩ := List.cons.inj happend
      rw [cut_of_isNameStart hc]
      rfl
  | int hc | float hc =>
      obtain ⟨rfl, -⟩ := List.cons.inj happend
      rw [cut_of_isDigit hc]
      exact isFault_number _ s
  | char hc =>
      obtain ⟨rest', hs⟩ := hends (by decide) hmore.1 rfl
      exact isFault_of_lexeme (.char hc) hs
  | escape =>
      obtain ⟨rest', hs⟩ := hends (by decide) hmore.1 rfl
      exact isFault_of_lexeme .escape hs
  | string hu =>
      obtain ⟨rest', hs⟩ := hends (by decide) hmore.2.1 (by simp [List.getLast?_cons, hu.getLast?])
      exact isFault_of_lexeme (.string hu) hs
  | single hk hrest hcomment =>
      obtain ⟨rfl, rfl⟩ := List.cons.inj happend
      -- the next character, if there is one, is the same without what goes on
      have hhead : ∀ d, s.head? = some d → (s ++ '\n' :: more).head? = some d := by
        intro d hd
        rw [List.head?_append, hd]
        rfl
      refine isFault_of_lexeme (.single hk (fun d hd => hrest d (hhead d hd)) fun hc => ?_) rfl
      exact ⟨fun hd => (hcomment hc).1 (hhead _ hd), fun hd => (hcomment hc).2 (hhead _ hd)⟩
  | pair hk =>
      obtain ⟨rfl, htail⟩ := List.cons.inj happend
      cases s with
      | nil =>
          obtain ⟨rfl, -⟩ := List.cons.inj htail
          rw [Kind.ofPair?_of_isBlank (by decide)] at hk
          cases hk
      | cons d s =>
          obtain ⟨rfl, -⟩ := List.cons.inj htail
          exact isFault_of_lexeme (.pair hk) rfl

/-- **What is malformed stays so** when a line feed is put behind it, and then something that ends
    no literal and no comment. -/
theorem isFault_before_lineFeed (hmore : EndsNothing more) (h : (cut c s).1.isFault = true) :
    (cut c (s ++ '\n' :: more)).1.isFault = true := by
  cases hcut : cut c (s ++ '\n' :: more) with
  | mk piece rest =>
  cases piece with
  | fault cause text => rfl
  | token k text =>
      obtain ⟨hlexeme, happend⟩ := cut_eq_token_iff.mp hcut
      rw [isFault_of_lexeme_before hmore hlexeme happend] at h
      cases h
  | gap text =>
      rcases cut_eq_gap hcut with hblank | ⟨rfl, u, hs⟩ | ⟨rfl, u, hu, hs⟩
      · rw [cut_of_isBlank hblank] at h
        cases h
      · cases s with
        | nil => cases hs
        | cons d s =>
            obtain ⟨rfl, -⟩ := List.cons.inj hs
            rw [cut_lineComment] at h
            cases h
      · cases s with
        | nil => cases hs
        | cons d s =>
            obtain ⟨rfl, htail⟩ := List.cons.inj hs
            have hslash : '/' ∉ '\n' :: more := by simpa using hmore.2.2
            obtain ⟨rest', rfl⟩ := exists_of_ends_before hu.getLast? hslash htail.symm
            rw [cut_blockComment hu] at h
            cases h

end Piece

/-- A scan with a malformed piece has one also in front of a line feed. -/
theorem Scans.error_before_lineFeed {p : Position} {s more : List Char} {ts : List Token}
    {stop : Cursor} (h : Scans p s ts stop) (hmore : EndsNothing more)
    (herror : ∃ t ∈ ts, t.kind = .error) :
    ∃ ts' stop', Scans p (s ++ '\n' :: more) ts' stop' ∧ ∃ t ∈ ts', t.kind = .error := by
  obtain ⟨before, rest, ts', cause, rfl, hreaches, hmalformed, -⟩ := h.reaches_fault herror
  obtain ⟨c, tail, rfl⟩ := hmalformed.exists_cons
  obtain ⟨text, rest, hcut⟩ := Piece.cut_eq_fault_iff.mpr hmalformed
  have hlater : Reaches (c :: (tail ++ '\n' :: more)) p before ts' := hreaches.of_head fun d hd => hd
  have hfault := Piece.isFault_before_lineFeed (c := c) (s := tail) hmore (by rw [hcut]; rfl)
  cases hcut' : Piece.cut c (tail ++ '\n' :: more) with
  | mk piece rest' =>
  rw [hcut'] at hfault
  cases piece with
  | gap | token => cases hfault
  | fault cause' text' =>
      have hscans := hlater.scans (.fault hcut')
      rw [← List.cons_append, ← List.append_assoc] at hscans
      exact ⟨_, _, hscans, _, List.mem_concat_self, rfl⟩

/-! ## Curly brackets -/

/-- A bracket is a token whatever stands behind it. -/
theorem Scans.bracket {p : Position} {c : Char} {k : Kind} {s : List Char} {ts : List Token}
    {stop : Cursor} (hk : Kind.ofChar? c = some k) (hpair : ∀ d, Kind.ofPair? c d = none)
    (hslash : c ≠ '/') (h : Scans (p.next c) s ts stop) :
    Scans p (c :: s) (⟨k, String.ofList [c], p⟩ :: ts) stop :=
  .token (.single hk (fun d _ => hpair d) fun hc => absurd hc hslash) h

section

variable (source : String)

theorem toList_braced :
    ("\x7b" ++ source ++ "\n\x7d").toList = '{' :: (source.toList ++ '\n' :: ['}']) := by
  simp

/-- **Between curly brackets a text keeps its tokens**, if none of them is malformed. -/
theorem tokens_braced (hnoError : ∀ t ∈ tokensBeforeEnd source, t.kind ≠ .error) :
    ∃ opening w closing,
      tokensBeforeEnd ("\x7b" ++ source ++ "\n\x7d") = opening :: (w ++ [closing]) ∧
      opening.kind = .openCurly ∧ closing.kind = .closeCurly ∧
      w.map Token.lexeme = (tokensBeforeEnd source).map Token.lexeme := by
  obtain ⟨w, stop, hscans, hw⟩ :=
    (scans_scan .start source.toList).elsewhere (Position.start.next '{')
  rw [← Scan.ofSource, ← tokensBeforeEnd_eq] at hw
  have hproper : ∀ t ∈ w, t.kind ≠ .error := by
    intro t ht herror
    have hmem : t.lexeme ∈ (tokensBeforeEnd source).map Token.lexeme :=
      hw ▸ List.mem_map_of_mem ht
    obtain ⟨t', ht', hlexeme⟩ := List.mem_map.mp hmem
    exact hnoError t' ht' ((Prod.mk.inj hlexeme).1.trans herror)
  have hclosing : Scans (stop.position.next '\n') ['}']
      [⟨.closeCurly, String.ofList ['}'], stop.position.next '\n'⟩] _ :=
    .bracket rfl (fun _ => rfl) (by decide) .done
  have hbraced := Scans.bracket (c := '{') rfl (fun _ => rfl) (by decide)
    (hscans.join hproper hclosing)
  rw [← toList_braced] at hbraced
  exact ⟨_, w, _, hbraced.tokensBeforeEnd, rfl, rfl, hw⟩

/-- **Curly brackets mend nothing**: a text with a malformed piece has one between them. -/
theorem noError_of_braced
    (hnoError : ∀ t ∈ tokensBeforeEnd ("\x7b" ++ source ++ "\n\x7d"), t.kind ≠ .error) :
    ∀ t ∈ tokensBeforeEnd source, t.kind ≠ .error := by
  intro t ht herror
  obtain ⟨w, stop, hscans, hw⟩ :=
    (scans_scan .start source.toList).elsewhere (Position.start.next '{')
  rw [← Scan.ofSource, ← tokensBeforeEnd_eq] at hw
  have hmem : t.lexeme ∈ w.map Token.lexeme := hw ▸ List.mem_map_of_mem ht
  obtain ⟨t', ht', hlexeme⟩ := List.mem_map.mp hmem
  have hmore : EndsNothing ['}'] := ⟨by decide, by decide, by decide⟩
  obtain ⟨ts, stop', hscans', e, he, hkind⟩ :=
    hscans.error_before_lineFeed hmore ⟨t', ht', (Prod.mk.inj hlexeme).1.trans herror⟩
  have hbraced := Scans.bracket (c := '{') rfl (fun _ => rfl) (by decide) hscans'
  rw [← toList_braced] at hbraced
  rw [hbraced.tokensBeforeEnd] at hnoError
  exact hnoError e (List.mem_cons_of_mem _ he) hkind

end

end ExprLang
