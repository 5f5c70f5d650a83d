import ExprLang.Proofs.Scanning.Scans

/-!
# `Proofs.Scanning.Tiling` — tokens and gaps tile the text

Every token stands somewhere in the text, with nothing but gaps before, between and behind the
tokens, and its position is the line and the column of that place. The proof is an induction on the
scan: the invariant is that the position of what is left of the text is the one that the text before
it leads to, so an offset and a position never come apart.

## Contents
- `Gap`: text that carries no token.
- `Position.ofText`: the line and the column behind a text, counted from its start.
- `Tiles`: tokens at given offsets, with gaps in between.
- `Tiled`, `Scans.tiled`: the invariant and the induction.
- `tokens_tile`: the tokens of a source text.
-/

namespace ExprLang

/-- Text that carries no token: blank characters, line comments and balanced block comments. A line
    comment goes on to the end of its line, which it can miss only at the end of the text. -/
inductive Gap : (atEnd : Bool) → List Char → Prop where
  | nil {atEnd} : Gap atEnd []
  | blank {atEnd c v} (hc : c = ' ' ∨ c = '\t' ∨ c = '\r' ∨ c = '\n') (h : Gap atEnd v) :
      Gap atEnd (c :: v)
  | line {atEnd u v} (hu : '\n' ∉ u) (h : Gap atEnd v) :
      Gap atEnd ('/' :: '/' :: (u ++ '\n' :: v))
  | lastLine {u} (hu : '\n' ∉ u) : Gap true ('/' :: '/' :: u)
  | block {atEnd u v} (hu : CommentBody u) (h : Gap atEnd v) : Gap atEnd ('/' :: '*' :: (u ++ v))

/-- The position behind a text: one line more than it has line feeds, and one column more than it
    has characters behind the last of them. -/
def Position.ofText (before : List Char) : Position :=
  ⟨1 + before.count '\n', 1 + (before.reverse.takeWhile (· ≠ '\n')).length⟩

/-- From `start` on, the text `s` is made of the tokens, each at its offset, and of gaps. What is
    said of a malformed token, which is the last one, is only where it stands. -/
def Tiles (s : List Char) : (start : Nat) → List Token → List Nat → Prop
  | start, [], [] => Gap true (s.drop start)
  | start, t :: ts, o :: os =>
    start ≤ o ∧ o < s.length ∧ Gap false ((s.take o).drop start) ∧
      t.position = Position.ofText (s.take o) ∧
      if t.kind = .error then ts = [] ∧ os = []
      else t.value.toList <+: s.drop o ∧ Tiles s (o + t.value.length) ts os
  | _, _, _ => False

/-! ## Positions -/

theorem Position.ofText_concat (before : List Char) (c : Char) :
    Position.ofText (before ++ [c]) = (Position.ofText before).next c := by
  by_cases hc : c = '\n'
  · subst hc
    simp [ofText, next, Nat.add_assoc]
  · simp [ofText, next, hc, Nat.add_assoc]

/-- **Positions are counted**, whichever pieces the text is passed over in. -/
theorem Position.after_start (before : List Char) : start.after before = ofText before := by
  have hreverse : ∀ r : List Char, start.after r.reverse = ofText r.reverse := by
    intro r
    induction r with
    | nil => rfl
    | cons c r ih =>
        rw [List.reverse_cons, after_append, ih, ofText_concat]
        rfl
  have h := hreverse before.reverse
  rwa [List.reverse_reverse] at h

/-! ## Gaps -/

/-- The first characters of what is left are a gap, whatever gap they stand before. -/
theorem Tiles.widen {s g rest : List Char} {start : Nat} {ts : List Token} {os : List Nat}
    (hg : ∀ {atEnd v}, Gap atEnd v → Gap atEnd (g ++ v)) (hs : s.drop start = g ++ rest)
    (h : Tiles s (start + g.length) ts os) : Tiles s start ts os := by
  have hrest : s.drop (start + g.length) = rest := by
    rw [← List.drop_drop, hs, List.drop_left]
  cases ts with
  | nil =>
      cases os with
      | nil =>
          show Gap true (s.drop start)
          rw [hs, ← hrest]
          exact hg h
      | cons => exact h
  | cons t ts =>
      cases os with
      | nil => exact h
      | cons o os =>
          -- only the gap in front of the first token grows
          obtain ⟨hle, hlt, hgap, hmore⟩ := h
          refine ⟨Nat.le_of_add_right_le hle, hlt, ?_, hmore⟩
          have htake : (s.take o).drop start = g ++ (s.take o).drop (start + g.length) := by
            rw [List.drop_take, List.drop_take, hs, hrest, List.take_append,
              List.take_of_length_le (show g.length ≤ o - start by omega), Nat.sub_sub]
          rw [htake]
          exact hg hgap

/-! ## The induction -/

/-- What the scan of `rest`, which stands behind `before`, says about the whole text. -/
def Tiled (before rest : List Char) (ts : List Token) (stop : Cursor) : Prop :=
  ∃ os : List Nat, os.length = ts.length ∧ os.Pairwise (· < ·) ∧ (∀ o ∈ os, before.length ≤ o) ∧
    Tiles (before ++ rest) before.length ts os ∧
    ((∀ t ∈ ts, t.kind ≠ .error) → stop.position = Position.start.after (before ++ rest))

section

variable {before g rest : List Char} {ts : List Token} {stop : Cursor}

/-- A gap in front of a text that is tiled already. -/
theorem Tiled.widen (hg : ∀ {atEnd v}, Gap atEnd v → Gap atEnd (g ++ v))
    (h : Tiled (before ++ g) rest ts stop) : Tiled before (g ++ rest) ts stop := by
  obtain ⟨os, hlength, hsorted, hle, htiles, hend⟩ := h
  rw [List.append_assoc] at htiles hend
  rw [List.length_append] at htiles hle
  refine ⟨os, hlength, hsorted, fun o ho => Nat.le_of_add_right_le (hle o ho), ?_, hend⟩
  exact htiles.widen hg List.drop_left

/-- A token in front of a text that is tiled already. -/
theorem Tiled.token {k : Kind} {text : List Char} (hk : k ≠ .error) (hne : text ≠ [])
    (h : Tiled (before ++ text) rest ts stop) :
    Tiled before (text ++ rest)
      (⟨k, String.ofList text, Position.start.after before⟩ :: ts) stop := by
  obtain ⟨os, hlength, hsorted, hle, htiles, hend⟩ := h
  have hpos := List.length_pos_iff.mpr hne
  rw [List.append_assoc] at htiles hend
  rw [List.length_append] at htiles hle
  refine ⟨before.length :: os, congrArg Nat.succ hlength, ?_, ?_, ?_, ?_⟩
  · refine List.pairwise_cons.mpr ⟨?_, hsorted⟩
    -- the token is not empty, so what comes next stands further on
    intro o ho
    have hlater := hle o ho
    omega
  · refine List.forall_mem_cons.mpr ⟨Nat.le_refl _, fun o ho => Nat.le_of_add_right_le (hle o ho)⟩
  · refine ⟨Nat.le_refl _, by simp; omega, ?_, ?_, ?_⟩
    · rw [List.drop_take, Nat.sub_self]
      exact .nil
    · rw [List.take_left]
      exact Position.after_start before
    · rw [if_neg hk, List.drop_left]
      refine ⟨?_, ?_⟩
      · rw [String.toList_ofList]
        exact List.prefix_append text rest
      · rw [String.length_ofList]
        exact htiles
  · intro hnoError
    exact hend (List.forall_mem_cons.mp hnoError).2

/-- A malformed piece ends the scan. -/
theorem Tiled.fault {c : Char} {message : String} :
    Tiled before (c :: rest) [⟨.error, message, Position.start.after before⟩] stop := by
  refine ⟨[before.length], rfl, List.pairwise_singleton _ _, by simp, ?_, ?_⟩
  · refine ⟨Nat.le_refl _, by simp, ?_, ?_, ?_⟩
    · rw [List.drop_take, Nat.sub_self]
      exact .nil
    · rw [List.take_left]
      exact Position.after_start before
    · exact ⟨rfl, rfl⟩
  · intro hnoError
    exact absurd rfl (hnoError _ (List.mem_singleton_self _))

end

/-- **Every scan tiles its text**, by induction on the scan. -/
theorem Scans.tiled {p : Position} {rest : List Char} {ts : List Token} {stop : Cursor}
    (h : Scans p rest ts stop) {before : List Char} (hp : p = Position.start.after before) :
    Tiled before rest ts stop := by
  -- the text before what is left grows with every piece, and leads to where the piece starts
  induction h generalizing before with
  | done =>
      refine ⟨[], rfl, .nil, by simp, ?_, fun _ => ?_⟩
      · show Gap true _
        rw [List.append_nil, List.drop_length]
        exact .nil
      · rw [List.append_nil]
        exact hp
  | @blank p c s ts stop hc h ih =>
      refine Tiled.widen (g := [c]) (fun hgap => .blank ?_ hgap) (ih ?_)
      · simpa [isBlank, or_assoc] using hc
      · rw [Position.after_append, ← hp]
        rfl
  | @line p u s ts stop hu h ih =>
      have happend : '/' :: '/' :: (u ++ '\n' :: s) = '/' :: '/' :: (u ++ ['\n']) ++ s := by simp
      rw [happend]
      refine Tiled.widen (fun {_ v} hgap => ?_) (ih ?_)
      · have hline := Gap.line hu hgap
        simpa using hline
      · rw [Position.after_append, ← hp]
  | @lastLine p u hu =>
      refine ⟨[], rfl, .nil, by simp, ?_, fun _ => ?_⟩
      · show Gap true _
        rw [List.drop_left]
        exact .lastLine hu
      · rw [Position.after_append, ← hp]
  | @block p u s ts stop hu h ih =>
      refine Tiled.widen (g := '/' :: '*' :: u) (fun hgap => .block hu hgap) (ih ?_)
      rw [Position.after_append, ← hp]
  | @token p k text s ts stop hk h ih =>
      obtain ⟨c, u, rfl, -⟩ := Piece.cut_complete hk
      subst hp
      exact Tiled.token hk.proper.2 (List.cons_ne_nil c u) (ih (Position.after_append _ _ _).symm)
  | fault =>
      subst hp
      exact Tiled.fault

/-- The scan of a whole text tiles it. -/
theorem tiled_ofSource (source : String) :
    Tiled [] source.toList (tokensBeforeEnd source) (Scan.ofSource source).stop := by
  rw [tokensBeforeEnd_eq]
  exact (scans_scan .start source.toList).tiled rfl

/-- **Tokens tile the source.** The tokens of a text before the end of the input stand at strictly
    increasing offsets, each with its value there, unless it is malformed, and at the position that
    the offset has; between them are gaps. Without a malformed token the end of the input stands at
    the end of the text. -/
theorem tokens_tile (source : String) :
    ∃ offsets : List Nat,
      offsets.length = (tokensBeforeEnd source).length ∧ offsets.Pairwise (· < ·) ∧
      Tiles source.toList 0 (tokensBeforeEnd source) offsets ∧
      ((∀ t ∈ tokenize source, t.kind ≠ .error) →
        tokenize source =
          tokensBeforeEnd source ++ [.endOfInput (Position.ofText source.toList)]) := by
  obtain ⟨offsets, hlength, hsorted, -, htiles, hend⟩ := tiled_ofSource source
  refine ⟨offsets, hlength, hsorted, htiles, ?_⟩
  intro hnoError
  rw [tokenize_eq] at hnoError ⊢
  rw [hend fun t ht => hnoError t (List.mem_append_left _ ht), List.nil_append,
    Position.after_start]

end ExprLang
