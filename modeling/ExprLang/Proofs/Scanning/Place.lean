import ExprLang.Proofs.Scanning.Joining

/-!
# `Proofs.Scanning.Place` — the place that a position names

Passing over a character always leads to a later position. So no two places of one text have the
same position: what stands at a position is one text and not several (`RestAt.unique`), and a token
is told from all others by where it stands. What stands at the position of a token is the piece that
the token was scanned from.

## Contents
- `Position.Before`, `Position.before_after`: positions only go forward.
- `RestAt`: what is left of a text from a position on.
- `Token.Heads`, `Scans.placed`: the piece that a token stands for.
- `Scans.ordered`: tokens stand one behind the other.
- `exists_heads`, `restAt_end`, `position_ne`: the tokens of a source text.
-/

namespace ExprLang

/-! ## Positions go forward -/

/-- The position `p` is on an earlier line than `q`, or further left on the same line. -/
def Position.Before (p q : Position) : Prop :=
  p.line < q.line ∨ p.line = q.line ∧ p.column < q.column

theorem Position.Before.irrefl (p : Position) : ¬p.Before p := by
  unfold Before
  omega

theorem Position.Before.trans {p q r : Position} (hpq : p.Before q) (hqr : q.Before r) :
    p.Before r := by
  unfold Before at hpq hqr ⊢
  omega

theorem Position.before_next (p : Position) (c : Char) : p.Before (p.next c) := by
  unfold Before next
  by_cases hc : c = '\n'
  · rw [if_pos hc]
    exact Or.inl (Nat.lt_succ_self _)
  · rw [if_neg hc]
    exact Or.inr ⟨rfl, Nat.lt_succ_self _⟩

/-- **Passing over some text leads forward.** -/
theorem Position.before_after (p : Position) {text : List Char} (h : text ≠ []) :
    p.Before (p.after text) := by
  induction text generalizing p with
  | nil => exact absurd rfl h
  | cons c text ih =>
      rw [after_cons]
      have hnext := p.before_next c
      by_cases htext : text = []
      · rw [htext]
        exact hnext
      · exact hnext.trans (ih (p.next c) htext)

/-- The start of a text that leads to the same position as more of that text is all of it. -/
theorem Position.eq_nil_of_ofText {before w : List Char}
    (h : Position.ofText (before ++ w) = Position.ofText before) : w = [] := by
  by_cases hw : w = []
  · exact hw
  · have hforward := (Position.ofText before).before_after hw
    rw [← Position.after_start before, ← Position.after_append, Position.after_start,
      Position.after_start, h] at hforward
    exact absurd hforward (Position.Before.irrefl _)

/-! ## Places of a text -/

/-- What is left of `text` from the position `p` on is `rest`. -/
def RestAt (text : List Char) (p : Position) (rest : List Char) : Prop :=
  ∃ before, text = before ++ rest ∧ Position.ofText before = p

/-- **A position names one place** of a text at most. -/
theorem RestAt.unique {text rest rest' : List Char} {p : Position} (h : RestAt text p rest)
    (h' : RestAt text p rest') : rest = rest' := by
  obtain ⟨before, htext, hp⟩ := h
  obtain ⟨before', htext', hp'⟩ := h'
  rw [htext] at htext'
  -- one of the two texts in front goes on with the other one, by nothing
  rcases List.append_eq_append_iff.mp htext' with ⟨w, rfl, rfl⟩ | ⟨w, rfl, rfl⟩
  · rw [Position.eq_nil_of_ofText (hp'.trans hp.symm), List.nil_append]
  · rw [Position.eq_nil_of_ofText (hp.trans hp'.symm), List.nil_append]

/-! ## The pieces of tokens -/

/-- The token stands for the piece that `rest` starts with: a lexeme, which is its value, or a
    malformed piece, whose message is its value. -/
inductive Token.Heads : Token → List Char → Prop where
  | lexeme {k text s p} (h : Lexeme k text s) : Heads ⟨k, String.ofList text, p⟩ (text ++ s)
  | fault {c s cause text rest p} (h : Piece.cut c s = (.fault cause text, rest)) :
      Heads ⟨.error, cause.message, p⟩ (c :: s)

/-- No token starts with a blank character. -/
theorem Token.Heads.not_blank {t : Token} {rest : List Char} (h : t.Heads rest) :
    ∃ c u, rest = c :: u ∧ isBlank c = false := by
  have hgap : ∀ {c : Char} {u rest : List Char} {piece : Piece},
      Piece.cut c u = (piece, rest) → (∀ text, piece ≠ .gap text) → isBlank c = false := by
    intro c u rest piece hcut hpiece
    cases hc : isBlank c with
    | false => rfl
    | true =>
        rw [Piece.cut_of_isBlank hc u, Prod.mk.injEq] at hcut
        exact absurd hcut.1.symm (hpiece _)
  cases h with
  | @lexeme k text s p h =>
      obtain ⟨c, u, rfl, hcut⟩ := Piece.cut_complete h
      exact ⟨c, u ++ s, rfl, hgap hcut fun _ => Piece.noConfusion⟩
  | @fault c s cause text rest p h => exact ⟨c, s, rfl, hgap h fun _ => Piece.noConfusion⟩

/-- A token that is not malformed is a lexeme. -/
theorem Token.Heads.lexeme_of_ne {t : Token} {rest : List Char} (h : t.Heads rest)
    (herror : t.kind ≠ .error) : ∃ s, rest = t.value.toList ++ s ∧ Lexeme t.kind t.value.toList s := by
  cases h with
  | @lexeme k text s p h =>
      refine ⟨s, ?_, ?_⟩
      · rw [String.toList_ofList]
      · rw [String.toList_ofList]
        exact h
  | fault => exact absurd rfl herror

section

variable {p : Position} {s : List Char} {ts : List Token} {stop : Cursor}

/-- **Every scanned token stands at its position**, and stands for the piece that it finds there. -/
theorem Scans.placed (h : Scans p s ts stop) :
    ∀ t ∈ ts, ∃ before rest, s = before ++ rest ∧ t.position = p.after before ∧ t.Heads rest := by
  -- what is passed over before a token only grows with the pieces in front of it
  have hshift : ∀ {p : Position} {g s : List Char} {t : Token},
      (∃ before rest, s = before ++ rest ∧ t.position = (p.after g).after before ∧ t.Heads rest) →
        ∃ before rest, g ++ s = before ++ rest ∧ t.position = p.after before ∧ t.Heads rest := by
    rintro p g _ t ⟨before, rest, rfl, hposition, hheads⟩
    refine ⟨g ++ before, rest, (List.append_assoc _ _ _).symm, ?_, hheads⟩
    rw [hposition, Position.after_append]
  induction h with
  | done | lastLine => simp
  | @blank p c s ts stop hc _ ih => exact fun t ht => hshift (g := [c]) (ih t ht)
  | @line p u s ts stop hu _ ih =>
      intro t ht
      have h := hshift (ih t ht)
      simpa using h
  | block hu _ ih => exact fun t ht => hshift (ih t ht)
  | @token p k text s ts stop hk _ ih =>
      refine List.forall_mem_cons.mpr ⟨?_, fun t ht => hshift (ih t ht)⟩
      exact ⟨[], text ++ s, rfl, rfl, .lexeme hk⟩
  | @fault p c s cause text rest h =>
      intro t ht
      rw [List.mem_singleton.mp ht]
      exact ⟨[], c :: s, rfl, rfl, .fault h⟩

/-- **Scanned tokens stand one behind the other.** -/
theorem Scans.ordered (h : Scans p s ts stop) :
    ts.Pairwise fun t t' => t.position.Before t'.position := by
  induction h with
  | done | lastLine => exact .nil
  | blank _ _ ih | line _ _ ih | block _ _ ih => exact ih
  | @token p k text s ts stop hk h ih =>
      refine List.pairwise_cons.mpr ⟨?_, ih⟩
      intro t ht
      obtain ⟨before, rest, -, hposition, -⟩ := h.placed t ht
      obtain ⟨c, u, rfl, -⟩ := Piece.cut_complete hk
      rw [hposition, ← Position.after_append]
      exact p.before_after (List.cons_ne_nil c _)
  | fault => exact List.pairwise_singleton _ _

end

/-! ## Source texts -/

section

variable {source : String}

/-- The piece that a token of a source text stands for is found at the position of the token. -/
theorem exists_heads {t : Token} (ht : t ∈ tokensBeforeEnd source) :
    ∃ rest, RestAt source.toList t.position rest ∧ t.Heads rest := by
  rw [tokensBeforeEnd_eq] at ht
  obtain ⟨before, rest, htext, hposition, hheads⟩ := (scans_scan .start source.toList).placed t ht
  rw [Position.after_start] at hposition
  exact ⟨rest, ⟨before, htext, hposition.symm⟩, hheads⟩

/-- The end of the input of a text without a malformed piece is the end of the text. -/
theorem restAt_end (hnoError : ∀ t ∈ tokensBeforeEnd source, t.kind ≠ .error) :
    RestAt source.toList (Scan.ofSource source).stop.position [] :=
  ⟨source.toList, (List.append_nil _).symm, (stop_ofSource hnoError).symm⟩

/-- No two tokens of a source text have the same position. -/
theorem position_ne {before after : List Token} {e : Token}
    (h : tokensBeforeEnd source = before ++ e :: after) :
    ∀ t ∈ before, t.position ≠ e.position := by
  have hordered := (scans_scan .start source.toList).ordered
  rw [← Scan.ofSource, ← tokensBeforeEnd_eq, h, List.pairwise_append] at hordered
  intro t ht heq
  have hbefore := hordered.2.2 t ht e (List.mem_cons_self)
  rw [heq] at hbefore
  exact Position.Before.irrefl _ hbefore

end
end ExprLang
