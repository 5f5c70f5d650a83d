import ExprLang.Proofs.Scanning.Lexeme
import ExprLang.Token.Scan

/-!
# `Proofs.Scanning.Scans` — a scan as a derivation

`Scans p s ts stop` says what a scan is made of: blanks one by one, comments, tokens, and at most
one malformed piece, which ends it. It holds of exactly one list of tokens and one place, those that
`scan` computes (`scans_iff`). Statements about scans are proved by induction on it, and scans of
texts that were put together are built from its constructors.

## Contents
- `Scans`: the pieces of a text, one after the other.
- `scan_blank`, `scan_line`, `scan_block`, `scan_lexeme`: the equations of the scan.
- `scans_iff`: the scan is the one that is derived.
- `Lexeme.proper`, `Scans.kind_ne_eof`: the kinds of scanned tokens.
- `tokensBeforeEnd`, `tokenize_eq`, `mem_tokensBeforeEnd`: the tokens of a source text.
-/

namespace ExprLang

/-- The text `s`, which starts at `p`, is made of gaps and of the tokens `ts`, up to `stop`. -/
inductive Scans : Position → List Char → List Token → Cursor → Prop where
  | done {p} : Scans p [] [] ⟨p, []⟩
  | blank {p c s ts stop} (hc : isBlank c = true) (h : Scans (p.next c) s ts stop) :
      Scans p (c :: s) ts stop
  /-- A line comment, up to the end of its line. -/
  | line {p u s ts stop} (hu : '\n' ∉ u)
      (h : Scans (p.after ('/' :: '/' :: (u ++ ['\n']))) s ts stop) :
      Scans p ('/' :: '/' :: (u ++ '\n' :: s)) ts stop
  /-- A line comment at the end of the text. -/
  | lastLine {p u} (hu : '\n' ∉ u) :
      Scans p ('/' :: '/' :: u) [] ⟨p.after ('/' :: '/' :: u), []⟩
  | block {p u s ts stop} (hu : CommentBody u) (h : Scans (p.after ('/' :: '*' :: u)) s ts stop) :
      Scans p ('/' :: '*' :: (u ++ s)) ts stop
  | token {p k text s ts stop} (hk : Lexeme k text s) (h : Scans (p.after text) s ts stop) :
      Scans p (text ++ s) (⟨k, String.ofList text, p⟩ :: ts) stop
  | fault {p c s cause text rest} (h : Piece.cut c s = (.fault cause text, rest)) :
      Scans p (c :: s) [⟨.error, cause.message, p⟩] ⟨p.after text, rest⟩

/-! ## The equations of the scan -/

theorem scan_blank {c : Char} (hc : isBlank c = true) (p : Position) (s : List Char) :
    scan p (c :: s) = scan (p.next c) s := by
  rw [scan_gap (Piece.cut_of_isBlank hc s), Position.after_cons]
  cases s with
  | nil => rfl
  | cons d s =>
      cases hd : isBlank d with
      | true => simp [scan_gap (Piece.cut_of_isBlank hd s), hd]
      | false => simp [hd]

/-- The rest of a line ends before a line feed or at the end of the text. -/
theorem span_line {u : List Char} (hu : '\n' ∉ u) {rest : List Char}
    (hrest : rest.head? = some '\n' ∨ rest = []) :
    (u ++ rest).takeWhile (· ≠ '\n') = u ∧ (u ++ rest).dropWhile (· ≠ '\n') = rest := by
  refine Piece.span_append ?_ ?_
  · rw [List.all_eq_true]
    intro c hc
    have hne : c ≠ '\n' := by
      rintro rfl
      exact hu hc
    simpa using hne
  · rintro ⟨c, hc, hne⟩
    rcases hrest with hhead | rfl
    · rw [hhead] at hc
      cases hc
      cases hne
    · cases hc

theorem scan_line {u : List Char} (hu : '\n' ∉ u) (p : Position) (s : List Char) :
    scan p ('/' :: '/' :: (u ++ '\n' :: s)) = scan (p.after ('/' :: '/' :: (u ++ ['\n']))) s := by
  have hfeed : ('\n' :: s).head? = some '\n' ∨ '\n' :: s = [] := Or.inl rfl
  obtain ⟨htake, hdrop⟩ := span_line hu hfeed
  have hcut := Piece.cut_lineComment (u ++ '\n' :: s)
  rw [htake, hdrop] at hcut
  rw [scan_gap hcut, scan_blank (by decide), ← List.cons_append, ← List.cons_append,
    Position.after_append]
  rfl

theorem scan_lastLine {u : List Char} (hu : '\n' ∉ u) (p : Position) :
    scan p ('/' :: '/' :: u) = ⟨[], ⟨p.after ('/' :: '/' :: u), []⟩⟩ := by
  obtain ⟨htake, hdrop⟩ := span_line hu (Or.inr (Eq.refl ([] : List Char)))
  have hcut := Piece.cut_lineComment (u ++ [])
  rw [htake, hdrop, List.append_nil] at hcut
  rw [scan_gap hcut, scan_nil]

theorem scan_block {u : List Char} (hu : CommentBody u) (p : Position) (s : List Char) :
    scan p ('/' :: '*' :: (u ++ s)) = scan (p.after ('/' :: '*' :: u)) s :=
  scan_gap (Piece.cut_blockComment hu s)

theorem scan_lexeme {k : Kind} {text s : List Char} (h : Lexeme k text s) (p : Position) :
    scan p (text ++ s) = ⟨⟨k, String.ofList text, p⟩ :: (scan (p.after text) s).tokens,
      (scan (p.after text) s).stop⟩ := by
  obtain ⟨c, u, rfl, hcut⟩ := Piece.cut_complete h
  exact scan_token hcut

/-! ## The scan is derived -/

/-- **Every scan is derived**, by induction on the length of the text. -/
theorem scans_scan (p : Position) (s : List Char) :
    Scans p s (scan p s).tokens (scan p s).stop := by
  induction hn : s.length using Nat.strongRecOn generalizing p s with
  | ind n ih =>
      have hshorter : ∀ (p : Position) (s' : List Char), s'.length < s.length →
          Scans p s' (scan p s').tokens (scan p s').stop :=
        fun p s' hlt => ih s'.length (hn ▸ hlt) p s' rfl
      cases s with
      | nil =>
          rw [scan_nil]
          exact .done
      | cons c s =>
          cases hcut : Piece.cut c s with
          | mk piece rest =>
          cases piece with
          | gap text =>
              rcases Piece.cut_eq_gap hcut with hblank | ⟨rfl, u, rfl⟩ | ⟨rfl, u, hu, rfl⟩
              · rw [scan_blank hblank]
                exact .blank hblank (hshorter _ s (Nat.lt_succ_self _))
              · by_cases hline : '\n' ∈ u
                · obtain ⟨v, s', rfl, hv⟩ := List.eq_append_cons_of_mem hline
                  rw [scan_line hv]
                  exact .line hv (hshorter _ s' (by simp; omega))
                · rw [scan_lastLine hline]
                  exact .lastLine hline
              · rw [scan_block hu]
                exact .block hu (hshorter _ rest (by simp; omega))
          | token k text =>
              obtain ⟨hlexeme, happend⟩ := Piece.cut_eq_token_iff.mp hcut
              have hfault : (Piece.cut c s).1.isFault = false := by rw [hcut]; rfl
              have hlt := Piece.length_rest_lt hfault
              rw [hcut] at hlt
              rw [← happend, scan_lexeme hlexeme]
              exact .token hlexeme (hshorter _ rest hlt)
          | fault cause text =>
              rw [scan_fault hcut]
              exact .fault hcut

/-- **The scan is the only one that is derived.** -/
theorem scans_iff {p : Position} {s : List Char} {ts : List Token} {stop : Cursor} :
    Scans p s ts stop ↔ scan p s = ⟨ts, stop⟩ := by
  constructor
  · intro h
    induction h with
    | done => exact scan_nil _
    | blank hc _ ih => rw [scan_blank hc, ih]
    | line hu _ ih => rw [scan_line hu, ih]
    | lastLine hu => exact scan_lastLine hu _
    | block hu _ ih => rw [scan_block hu, ih]
    | token hk _ ih => rw [scan_lexeme hk, ih]
    | fault h => exact scan_fault h
  · intro h
    have hscans := scans_scan p s
    rwa [h] at hscans

/-! ## Kinds of scanned tokens -/

theorem Kind.ofWord_proper (word : String) :
    Kind.ofWord word ≠ .eof ∧ Kind.ofWord word ≠ .error := by
  unfold Kind.ofWord Kind.ofWord?
  split <;> decide

theorem Lexeme.proper {k : Kind} {text rest : List Char} (h : Lexeme k text rest) :
    k ≠ .eof ∧ k ≠ .error := by
  cases h with
  | word => exact Kind.ofWord_proper _
  | single hk =>
      unfold Kind.ofChar? at hk
      split at hk <;> cases hk <;> decide
  | pair hk =>
      unfold Kind.ofPair? at hk
      split at hk <;> cases hk <;> decide
  | _ => decide

/-- **The end of the input** is never scanned: it stands behind all tokens of a text. -/
theorem Scans.kind_ne_eof {p : Position} {s : List Char} {ts : List Token} {stop : Cursor}
    (h : Scans p s ts stop) : ∀ t ∈ ts, t.kind ≠ .eof := by
  induction h with
  | done | lastLine => simp
  | blank _ _ ih | line _ _ ih | block _ _ ih => exact ih
  | token hk _ ih => exact List.forall_mem_cons.mpr ⟨hk.proper.1, ih⟩
  | fault => simp

/-- What is followed by another token is not malformed. -/
theorem Scans.kind_ne_error {p : Position} {s : List Char} {ts : List Token} {stop : Cursor}
    (h : Scans p s ts stop) : ts.Pairwise fun t _ => t.kind ≠ .error := by
  induction h with
  | done | lastLine => exact .nil
  | blank _ _ ih | line _ _ ih | block _ _ ih => exact ih
  | token hk _ ih => exact List.pairwise_cons.mpr ⟨fun _ _ => hk.proper.2, ih⟩
  | fault => exact List.pairwise_singleton _ _

/-! ## Source texts -/

/-- The tokens of a text before the end of the input. -/
def tokensBeforeEnd (source : String) : List Token :=
  (tokenize source).takeWhile fun t => !t.is .eof

/-- Tokens up to the end of the input are found by the kind of the token behind them. -/
theorem takeWhile_before_end {w rest : List Token} (hw : ∀ t ∈ w, t.kind ≠ .eof)
    (hrest : ∀ t, rest.head? = some t → t.kind = .eof) :
    (w ++ rest).takeWhile (fun t => !t.is .eof) = w := by
  refine (Piece.span_append ?_ ?_).1
  · rw [List.all_eq_true]
    intro t ht
    simpa [Token.is] using hw t ht
  · rintro ⟨t, hhead, ht⟩
    simp [Token.is, hrest t hhead] at ht

theorem tokensBeforeEnd_eq (source : String) :
    tokensBeforeEnd source = (Scan.ofSource source).tokens := by
  apply takeWhile_before_end (scans_scan .start source.toList).kind_ne_eof
  intro t ht
  cases ht
  rfl

/-- The end of the input stands where the scan stopped. -/
theorem tokenize_eq (source : String) :
    tokenize source =
      tokensBeforeEnd source ++ [.endOfInput (Scan.ofSource source).stop.position] := by
  rw [tokensBeforeEnd_eq]
  rfl

/-- The end of the input is the only token of a text that is not scanned. -/
theorem mem_tokensBeforeEnd {source : String} {t : Token} (h : t ∈ tokenize source)
    (ht : t.kind ≠ .eof) : t ∈ tokensBeforeEnd source := by
  rw [tokenize_eq] at h
  rcases List.mem_append.mp h with hmem | hend
  · exact hmem
  · obtain rfl := List.mem_singleton.mp hend
    exact absurd rfl ht

/-- The tokens of a text are those of any scan of it that starts where the text does. -/
theorem Scans.tokensBeforeEnd {source : String} {ts : List Token} {stop : Cursor}
    (h : Scans .start source.toList ts stop) : ExprLang.tokensBeforeEnd source = ts := by
  rw [tokensBeforeEnd_eq, Scan.ofSource, scans_iff.mp h]

theorem Scans.tokenize {source : String} {ts : List Token} {stop : Cursor}
    (h : Scans .start source.toList ts stop) :
    ExprLang.tokenize source = ts ++ [.endOfInput stop.position] := by
  rw [tokenize_eq, h.tokensBeforeEnd, Scan.ofSource, scans_iff.mp h]

/-- A malformed token stands before the end of the input. -/
theorem tokensBeforeEnd_of_error {source : String} {before after : List Token} {e : Token}
    (h : tokenize source = before ++ e :: after) (he : e.kind = .error) :
    ∃ after', tokensBeforeEnd source = before ++ e :: after' := by
  rw [tokenize_eq] at h
  rcases List.eq_nil_or_concat after with rfl | ⟨after', t, rfl⟩
  · obtain ⟨-, hend⟩ := List.append_inj' h rfl
    rw [← List.head_eq_of_cons_eq hend] at he
    cases he
  · rw [List.concat_eq_append, ← List.cons_append, ← List.append_assoc] at h
    exact ⟨after', (List.append_inj' h rfl).1⟩

end ExprLang
