import ExprLang.Proofs.Scanning.Place

/-!
# `Proofs.Source.Line` — the line that a position is on

A scan counts lines and columns as it passes over characters; a line is looked up by cutting the
text at its line feeds. The two agree: a place that the scan has reached is on the line of that
number, behind as many characters of it as its column says. A carriage return that is dropped from
the end of the line is not in the way, since no token starts with one.

## Contents
- `lineAt?_after`: passing over some text, and the line that this leads to.
- `withoutReturn_append_cons`: the end of a line without its carriage return.
- `RestAt.exists_line`: the line that a place of a text is on.
-/

namespace ExprLang

namespace Source

theorem lineAt?_zero (text : List Char) :
    lineAt? 0 text = some (text.takeWhile (· ≠ '\n')) := rfl

/-- The lines behind the first one are those of the text behind its line feed. -/
theorem lineAt?_succ {u : List Char} (hu : '\n' ∉ u) (index : Nat) (s : List Char) :
    lineAt? (index + 1) (u ++ '\n' :: s) = lineAt? index s := by
  have hfeed : ('\n' :: s).head? = some '\n' ∨ '\n' :: s = [] := Or.inl rfl
  rw [lineAt?, (span_line hu hfeed).2]

theorem takeWhile_line {u : List Char} (hu : '\n' ∉ u) (rest : List Char) :
    (u ++ rest).takeWhile (· ≠ '\n') = u ++ rest.takeWhile (· ≠ '\n') := by
  apply List.takeWhile_append_of_pos
  intro c hc
  have hne : c ≠ '\n' := by
    rintro rfl
    exact hu hc
  simpa using hne

/-- **Passing over `before` leads to a line**, which starts with what was passed over of it, and ends
    with what is left. The line was started with `acc`. -/
theorem lineAt?_after {acc : List Char} (hacc : '\n' ∉ acc) (number : Nat)
    (before rest : List Char) :
    ∃ index passed, '\n' ∉ passed ∧
      Position.after ⟨number, acc.length + 1⟩ before = ⟨number + index, passed.length + 1⟩ ∧
      lineAt? index (acc ++ (before ++ rest)) = some (passed ++ rest.takeWhile (· ≠ '\n')) := by
  induction before generalizing acc number with
  | nil =>
      refine ⟨0, acc, hacc, rfl, ?_⟩
      rw [List.nil_append, lineAt?_zero, takeWhile_line hacc]
  | cons c before ih =>
      by_cases hc : c = '\n'
      · -- the next line starts afresh
        obtain ⟨index, passed, hpassed, hafter, hline⟩ := ih List.not_mem_nil (number + 1)
        refine ⟨index + 1, passed, hpassed, ?_, ?_⟩
        · rw [Position.after_cons, Position.next, if_pos hc, Nat.add_comm index, ← Nat.add_assoc]
          exact hafter
        · rw [hc, List.cons_append, lineAt?_succ hacc]
          exact hline
      · have hmore : '\n' ∉ acc ++ [c] := by
          simp only [List.mem_append, List.mem_singleton, not_or]
          exact ⟨hacc, fun h => hc h.symm⟩
        obtain ⟨index, passed, hpassed, hafter, hline⟩ := ih hmore number
        refine ⟨index, passed, hpassed, ?_, ?_⟩
        · rw [Position.after_cons, Position.next, if_neg hc]
          rwa [List.length_append, List.length_singleton] at hafter
        · rwa [List.append_assoc, List.singleton_append] at hline

/-! ## Carriage returns -/

theorem withoutReturn_prefix (line : List Char) : withoutReturn line <+: line := by
  unfold withoutReturn
  split
  · exact List.dropLast_prefix line
  · exact List.prefix_rfl

/-- The carriage return at the end of a line is not in front of any other character of it. -/
theorem withoutReturn_append_cons {c : Char} (hc : c ≠ '\r') (passed more : List Char) :
    ∃ left, withoutReturn (passed ++ c :: more) = passed ++ c :: left := by
  unfold withoutReturn
  by_cases hreturn : (passed ++ c :: more).getLast? = some '\r'
  · rw [if_pos hreturn]
    cases more with
    | nil =>
        rw [List.getLast?_concat] at hreturn
        exact absurd (Option.some.inj hreturn) hc
    | cons d more =>
        refine ⟨(d :: more).dropLast, ?_⟩
        rw [List.dropLast_append_cons, List.dropLast_cons_cons]
  · rw [if_neg hreturn]
    exact ⟨more, rfl⟩

end Source

/-! ## Places -/

/-- **A place is on the line that its position names**, behind as many characters as its column
    says, unless a blank character stands there, which the line may do without. -/
theorem RestAt.exists_line {text rest : List Char} {p : Position} (h : RestAt text p rest)
    (hblank : ∀ c, rest.head? = some c → isBlank c = false) :
    ∃ line, Source.line? text p.line = some line ∧ '\n' ∉ line ∧ 1 ≤ p.column ∧
      (line.drop (p.column - 1)).head? = rest.head? := by
  obtain ⟨before, rfl, hp⟩ := h
  obtain ⟨index, passed, hpassed, hafter, hline⟩ :=
    Source.lineAt?_after List.not_mem_nil 1 before rest
  have hp' : p = ⟨1 + index, passed.length + 1⟩ := by
    rw [← hp, ← Position.after_start]
    exact hafter
  subst hp'
  have hfound : Source.line? (before ++ rest) (1 + index) =
      some (Source.withoutReturn (passed ++ rest.takeWhile (· ≠ '\n'))) := by
    rw [Nat.add_comm, Source.line?]
    rw [List.nil_append] at hline
    rw [hline]
    rfl
  have hsub := (Source.withoutReturn_prefix (passed ++ rest.takeWhile (· ≠ '\n'))).subset
  refine ⟨_, hfound, fun hmem => ?_, Nat.le_add_left 1 _, ?_⟩
  · rcases List.mem_append.mp (hsub hmem) with hmem | hmem
    · exact hpassed hmem
    · have hfeed := List.all_eq_true.mp List.all_takeWhile '\n' hmem
      exact absurd rfl (of_decide_eq_true hfeed)
  · rw [Nat.add_sub_cancel, List.head?_drop]
    cases rest with
    | nil =>
        apply List.getElem?_eq_none
        have hle := (Source.withoutReturn_prefix (passed ++ [])).length_le
        simpa using hle
    | cons c rest =>
        have hc := hblank c rfl
        have hfeed : c ≠ '\n' := by
          rintro rfl
          cases hc
        have hreturn : c ≠ '\r' := by
          rintro rfl
          cases hc
        obtain ⟨left, hleft⟩ :=
          Source.withoutReturn_append_cons hreturn passed (rest.takeWhile (· ≠ '\n'))
        rw [List.takeWhile_cons_of_pos (by simpa using hfeed), hleft]
        simp

end ExprLang
