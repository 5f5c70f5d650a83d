import ExprLang.Proofs.Scanning.Tiling

/-!
# `Proofs.Scanning.Joining` — texts joined by a line feed

A line feed separates whatever stands on its two sides: no token goes on across it, and it ends a
line comment. So the tokens of two texts that are joined by a line feed are the tokens of the first
text and those of the second one, moved down by the lines of the first.

## Contents
- `Scans.moved`: a scan of the same text from another position.
- `Position.moved`, `Position.moved_after`: how its positions move.
- `Position.down`, `Token.down`, `Cursor.down`: places some lines further down.
- `Scans.join`: the scan of a joined text.
- `scan_join`: the scan of a joined source text.
-/

namespace ExprLang

/-! ## The same text at another place -/

/-- The same token at the position that `f` gives for its own. -/
def Token.moved (f : Position → Position) (t : Token) : Token := { t with position := f t.position }

/-- The same rest of a text at the position that `f` gives for its own. -/
def Cursor.moved (f : Position → Position) (c : Cursor) : Cursor :=
  { c with position := f c.position }

/-- **A scan depends on where it starts only in its positions**: where `f` says how the positions
    behind `p` move when `p` moves to `p'`, it says how the tokens do. -/
theorem Scans.moved (f : Position → Position) {p p' : Position} {s : List Char} {ts : List Token}
    {stop : Cursor} (h : Scans p s ts stop) (hf : ∀ text, f (p.after text) = p'.after text) :
    Scans p' s (ts.map (Token.moved f)) (stop.moved f) := by
  induction h generalizing p' with
  | @done p =>
      have hstop : Cursor.moved f ⟨p, []⟩ = ⟨p', []⟩ := congrArg (Cursor.mk · []) (hf [])
      rw [hstop]
      exact .done
  | @blank p c s ts stop hc _ ih => exact .blank hc (ih fun text => hf (c :: text))
  | @line p u s ts stop hu _ ih =>
      refine .line hu (ih fun text => ?_)
      rw [← Position.after_append, hf, Position.after_append]
  | @lastLine p u hu =>
      have hstop : Cursor.moved f ⟨p.after ('/' :: '/' :: u), []⟩ =
          ⟨p'.after ('/' :: '/' :: u), []⟩ := congrArg (Cursor.mk · []) (hf _)
      rw [hstop]
      exact .lastLine hu
  | @block p u s ts stop hu _ ih =>
      refine .block hu (ih fun text => ?_)
      rw [← Position.after_append, hf, Position.after_append]
  | @token p k text s ts stop hk _ ih =>
      have hfirst : Token.moved f ⟨k, String.ofList text, p⟩ = ⟨k, String.ofList text, p'⟩ :=
        congrArg (Token.mk k _) (hf [])
      rw [List.map_cons, hfirst]
      refine .token hk (ih fun more => ?_)
      rw [← Position.after_append, hf, Position.after_append]
  | @fault p c s cause text rest hcut =>
      have hfirst : Token.moved f ⟨.error, cause.message, p⟩ = ⟨.error, cause.message, p'⟩ :=
        congrArg (Token.mk .error _) (hf [])
      have hstop : Cursor.moved f ⟨p.after text, rest⟩ = ⟨p'.after text, rest⟩ :=
        congrArg (Cursor.mk · rest) (hf text)
      rw [List.map_singleton, hfirst, hstop]
      exact .fault hcut

/-- Where the position `q` comes to stand when a text that starts at `p` is put to `p'`: what stands
    on the line of `p` moves along that line, and everything moves to other lines. -/
def Position.moved (p p' q : Position) : Position :=
  ⟨p'.line + (q.line - p.line),
    if q.line = p.line then p'.column + (q.column - p.column) else q.column⟩

/-- A position that does not stand in front of `p`. -/
def Position.From (p q : Position) : Prop := p.line < q.line ∨ p.line = q.line ∧ p.column ≤ q.column

theorem Position.From.next {p q : Position} (h : p.From q) (c : Char) : p.From (q.next c) := by
  unfold From at h ⊢
  unfold Position.next
  by_cases hc : c = '\n'
  · rw [if_pos hc]
    show p.line < q.line + 1 ∨ _
    omega
  · rw [if_neg hc]
    show p.line < q.line ∨ p.line = q.line ∧ p.column ≤ q.column + 1
    omega

theorem Position.From.moved_next {p q : Position} (h : p.From q) (p' : Position) (c : Char) :
    moved p p' (q.next c) = (moved p p' q).next c := by
  unfold From at h
  by_cases hc : c = '\n'
  · have hline : ¬q.line + 1 = p.line := by omega
    have hcount : q.line + 1 - p.line = q.line - p.line + 1 := by omega
    simp [moved, Position.next, hc, hline, hcount, Nat.add_assoc]
  · by_cases hline : q.line = p.line
    · have hcount : q.column + 1 - p.column = q.column - p.column + 1 := by omega
      simp [moved, Position.next, hc, hline, hcount, Nat.add_assoc]
    · simp [moved, Position.next, hc, hline]

/-- **The positions behind the start of a text move with it.** -/
theorem Position.moved_after (p p' : Position) (text : List Char) :
    moved p p' (p.after text) = p'.after text := by
  have hmoved : ∀ q, p.From q → moved p p' (q.after text) = (moved p p' q).after text := by
    induction text with
    | nil => exact fun q _ => rfl
    | cons c text ih =>
        intro q hq
        rw [after_cons, after_cons, ih (q.next c) (hq.next c), hq.moved_next]
  have hstart : moved p p' p = p' := by simp [moved]
  rw [hmoved p (Or.inr ⟨rfl, Nat.le_refl _⟩), hstart]

/-! ## Places further down -/

/-- The position `k` lines further down. -/
def Position.down (k : Nat) (p : Position) : Position := ⟨p.line + k, p.column⟩

/-- The same token `k` lines further down. -/
def Token.down (k : Nat) (t : Token) : Token := { t with position := t.position.down k }

/-- The same rest of a text `k` lines further down. -/
def Cursor.down (k : Nat) (c : Cursor) : Cursor := { c with position := c.position.down k }

theorem Position.next_down (k : Nat) (p : Position) (c : Char) :
    (p.down k).next c = (p.next c).down k := by
  by_cases hc : c = '\n'
  · simp [next, down, hc, Nat.add_right_comm]
  · simp [next, down, hc]

theorem Position.after_down (k : Nat) (p : Position) (text : List Char) :
    (p.down k).after text = (p.after text).down k := by
  induction text generalizing p with
  | nil => rfl
  | cons c text ih => rw [after_cons, after_cons, next_down, ih]

/-- A text further down is scanned as the same tokens further down. -/
theorem Scans.down (k : Nat) {p : Position} {s : List Char} {ts : List Token} {stop : Cursor}
    (h : Scans p s ts stop) : Scans (p.down k) s (ts.map (Token.down k)) (stop.down k) :=
  h.moved (Position.down k) fun text => (Position.after_down k p text).symm

/-! ## The line feed in between -/

/-- What starts with a line feed goes on with no token. -/
theorem not_headIs_lineFeed {p : Char → Bool} (hp : p '\n' = false) {rest more : List Char}
    (h : ¬HeadIs p rest) : ¬HeadIs p (rest ++ '\n' :: more) := by
  rintro ⟨c, hc, hpc⟩
  cases rest with
  | nil =>
      cases hc
      rw [hp] at hpc
      cases hpc
  | cons d rest => exact h ⟨c, hc, hpc⟩

theorem Lexeme.append_lineFeed {k : Kind} {text rest : List Char} (h : Lexeme k text rest)
    (more : List Char) : Lexeme k text (rest ++ '\n' :: more) := by
  have hhead : ∀ d, d ≠ '\n' → rest.head? ≠ some d → (rest ++ '\n' :: more).head? ≠ some d := by
    intro d hd hne hhead
    cases rest with
    | nil => exact hd (Option.some.inj hhead).symm
    | cons c rest => exact hne hhead
  cases h with
  | word hc hu hrest => exact .word hc hu (not_headIs_lineFeed (by decide) hrest)
  | int hc hu hrest hpoint =>
      exact .int hc hu (not_headIs_lineFeed (by decide) hrest) (hhead '.' (by decide) hpoint)
  | float hc hu hv hrest => exact .float hc hu hv (not_headIs_lineFeed (by decide) hrest)
  | char hc => exact .char hc
  | escape => exact .escape
  | string hu => exact .string hu
  | single hk hrest hcomment =>
      refine .single hk ?_ ?_
      · intro d hd
        cases rest with
        | nil =>
            cases hd
            exact Kind.ofPair?_of_isBlank (by decide)
        | cons c rest => exact hrest d hd
      · intro hc
        obtain ⟨hslash, hstar⟩ := hcomment hc
        exact ⟨hhead '/' (by decide) hslash, hhead '*' (by decide) hstar⟩
  | pair hk => exact .pair hk

/-- **A scan without a malformed piece goes on behind a line feed** as if it started there. -/
theorem Scans.join {p : Position} {s s' : List Char} {ts ts' : List Token} {stop stop' : Cursor}
    (h : Scans p s ts stop) (hnoError : ∀ t ∈ ts, t.kind ≠ .error)
    (h' : Scans (stop.position.next '\n') s' ts' stop') :
    Scans p (s ++ '\n' :: s') (ts ++ ts') stop' := by
  induction h with
  | done => exact .blank (by decide) h'
  | blank hc _ ih => exact .blank hc (ih hnoError h')
  | @line p u s ts stop hu _ ih =>
      have happend : '/' :: '/' :: (u ++ '\n' :: s) ++ '\n' :: s' =
          '/' :: '/' :: (u ++ '\n' :: (s ++ '\n' :: s')) := by simp
      rw [happend]
      exact .line hu (ih hnoError h')
  | @lastLine p u hu =>
      -- the line feed now ends the comment that the end of the text had ended
      refine .line hu ?_
      rwa [← List.cons_append, ← List.cons_append, Position.after_append]
  | @block p u s ts stop hu _ ih =>
      have happend : '/' :: '*' :: (u ++ s) ++ '\n' :: s' =
          '/' :: '*' :: (u ++ (s ++ '\n' :: s')) := by simp
      rw [happend]
      exact .block hu (ih hnoError h')
  | token hk _ ih =>
      rw [List.append_assoc]
      exact .token (hk.append_lineFeed s') (ih (List.forall_mem_cons.mp hnoError).2 h')
  | fault => exact absurd rfl (hnoError _ (List.mem_singleton_self _))

/-- The scan of a whole text without a malformed piece stops at the end of the text. -/
theorem stop_ofSource {source : String} (hnoError : ∀ t ∈ tokensBeforeEnd source, t.kind ≠ .error) :
    (Scan.ofSource source).stop.position = Position.ofText source.toList := by
  obtain ⟨_, -, -, -, -, hend⟩ := tiled_ofSource source
  rw [← Position.after_start]
  exact hend hnoError

/-- **The tokens of a joined text** are those of its two parts, the second ones moved down. -/
theorem scan_join {source : String} (hnoError : ∀ t ∈ tokensBeforeEnd source, t.kind ≠ .error)
    (source' : String) :
    Scan.ofSource (source ++ "\n" ++ source') =
      ⟨tokensBeforeEnd source ++
          (tokensBeforeEnd source').map (Token.down (source.toList.count '\n' + 1)),
        (Scan.ofSource source').stop.down (source.toList.count '\n' + 1)⟩ := by
  have hstop := stop_ofSource hnoError
  -- behind the line feed stands the first column of the next line
  have hseam : (Scan.ofSource source).stop.position.next '\n' =
      Position.start.down (source.toList.count '\n' + 1) := by
    rw [hstop]
    simp [Position.next, Position.ofText, Position.down, Position.start, Nat.add_comm]
  rw [tokensBeforeEnd_eq] at hnoError
  have hscans : Scans .start source.toList _ _ := scans_scan .start source.toList
  have hscans' := (scans_scan .start source'.toList).down (source.toList.count '\n' + 1)
  rw [← hseam] at hscans'
  have hjoined := scans_iff.mp (hscans.join hnoError hscans')
  have hlist : (source ++ "\n" ++ source').toList = source.toList ++ '\n' :: source'.toList := by
    simp
  rw [Scan.ofSource, hlist, hjoined, tokensBeforeEnd_eq, tokensBeforeEnd_eq]
  rfl

end ExprLang
