import ExprLang.Proofs.Grammar.Literals
import ExprLang.Proofs.Printing.Escaping

/-!
# `Proofs.Printing.Surviving` — which literals survive printing

The text of a string is always read as a string again, and that of a character is either a character
or malformed, since a code point does not fit between single quotes. Which one it is, is told by the
escapes of the text: those of the null character and of code points are read as other characters, and
everything else is read as it was written.

## Contents
- `shown_iff`: the characters that are escaped neither as the null character nor by code point.
- `parse_string_text`, `parse_char_text`: one literal.
- `literals_survive`: all of them.
-/

namespace ExprLang

open LiteralUnit

/-! ## Shown characters -/

/-- The character is printable, or a control character with a letter of its own. -/
def HasForm (c : Char) : Prop := Text.isPrintable c = true ∨ c = '\t' ∨ c = '\r' ∨ c = '\n'

/-- **A character is shown** if it is neither the null character nor without a form, and if it does
    not stand alone where it would be drawn onto another one. -/
theorem shown_iff (alone : Bool) (c : Char) :
    Shown alone c ↔ c ≠ '\x00' ∧ HasForm c ∧ (alone = true → Text.isCombining c = false) := by
  unfold Shown HasForm
  fun_cases Text.escape alone c with
  | case1 => simp
  | case8 c hnull htab hreturn hfeed _ _ _ hcode =>
      refine iff_of_false (fun h => h.2 rfl) ?_
      rintro ⟨-, hform, halone⟩
      have hprintable : Text.isPrintable c = true :=
        hform.resolve_right fun h => h.elim htab fun h => h.elim hreturn hfeed
      cases alone with
      | true => simp [hprintable, halone rfl] at hcode
      | false => simp [hprintable] at hcode
  | case9 c hnull _ _ _ _ _ _ hplain =>
      refine iff_of_true (by simp [Text.codePoint]) ⟨hnull, ?_⟩
      simp only [Bool.or_eq_true, Bool.and_eq_true, Bool.not_eq_true', not_or, not_and,
        Bool.not_eq_true, Bool.not_eq_false] at hplain
      exact ⟨Or.inl hplain.2, hplain.1⟩
  | _ =>
      refine iff_of_true (by simp [Text.codePoint]) ⟨by decide, by decide, fun _ => by decide⟩

theorem shownAll_iff (s : List Char) :
    ShownAll s ↔ '\x00' ∉ s ∧ (∀ c ∈ s, HasForm c) ∧
      ∀ c, s.head? = some c → Text.isCombining c = false := by
  cases s with
  | nil => simp [ShownAll]
  | cons c s =>
      have hrest : (∀ d ∈ s, Shown false d) ↔ '\x00' ∉ s ∧ ∀ d ∈ s, HasForm d := by
        constructor
        · intro h
          refine ⟨fun hmem => ?_, fun d hd => ((shown_iff false d).mp (h d hd)).2.1⟩
          exact ((shown_iff false _).mp (h _ hmem)).1 rfl
        · rintro ⟨hnull, hform⟩ d hd
          refine (shown_iff false d).mpr ⟨?_, hform d hd, fun h => ?_⟩
          · rintro rfl
            exact hnull hd
          · cases h
      show Shown true c ∧ (∀ d ∈ s, Shown false d) ↔ _
      rw [hrest, shown_iff, List.mem_cons, not_or, List.forall_mem_cons]
      have hhead : (∀ d, (c :: s).head? = some d → Text.isCombining d = false) ↔
          Text.isCombining c = false := by simp
      rw [hhead]
      constructor
      · rintro ⟨⟨hnull, hform, hcombining⟩, hnulls, hforms⟩
        exact ⟨⟨hnull.symm, hnulls⟩, ⟨hform, hforms⟩, hcombining rfl⟩
      · rintro ⟨⟨hnull, hnulls⟩, ⟨hform, hforms⟩, hcombining⟩
        exact ⟨⟨Ne.symm hnull, hform, fun _ => hcombining⟩, hnulls, hforms⟩

/-! ## One literal -/

/-- **The text of a string** is read as this string exactly if all of its characters are shown. -/
theorem parse_string_text (v : String) (assignable : Bool) :
    parseExpression (Expr.string v).text assignable = .ok (.string v) ↔ ShownAll v.toList := by
  obtain ⟨units, hunits, htext, -, hiff, -⟩ := spelledAs_escapeAll v.toList
  rw [Expr.text, htext, parse_string hunits, ← hiff, Except.ok.injEq, Expr.string.injEq,
    ← String.toList_inj, String.toList_ofList]

/-- A code point is no character: the quote that should close it does not follow. -/
theorem parse_codePoint_ne (c : Char) (assignable : Bool) {e : Expr} (he : e.isError = false) :
    parseExpression (quoted '\'' (Text.codePoint c)) assignable ≠ .ok e := by
  intro h
  have hproper := (derives_of_parseExpression h he).proper
  have hcut : Piece.cut '\'' (Text.codePoint c ++ ['\'']) =
      (.fault .charUnclosed ['\'', '\\', 'u'], '{' :: (Nat.toDigits 16 c.toNat ++ ['}', '\''])) := by
    rw [Piece.cut_charLiteral, Text.codePoint]
    simp [Piece.charLiteral]
  have hscans := Scans.fault (p := .start) hcut
  rw [← List.cons_append, ← String.toList_ofList (l := _ ++ _), ← quoted] at hscans
  rw [hscans.tokensBeforeEnd] at hproper
  exact (hproper _ (List.mem_singleton_self _)).2 rfl

/-- **The text of a character** is read as this character exactly if it is shown. -/
theorem parse_char_text (c : Char) (assignable : Bool) :
    parseExpression (Expr.char c).text assignable = .ok (.char c) ↔ Shown true c := by
  rw [Expr.text]
  by_cases hshown : Shown true c
  · obtain ⟨u, hu, htext, hvalue⟩ := exists_unit_of_shown hshown
    rw [htext, parse_char hu.inChar, hvalue]
    exact iff_of_true rfl hshown
  · refine iff_of_false (fun h => ?_) hshown
    rcases Classical.not_and_iff_not_or_not.mp hshown with hnull | hcode
    · -- the mark of the null character is a digit, and a digit needs no mark
      rw [Decidable.not_not.mp hnull] at h
      have hzero := h.symm.trans (parse_char (u := escaped '0') trivial assignable)
      cases hzero
      exact hnull (by decide)
    · rw [Decidable.not_not.mp hcode] at h
      exact parse_codePoint_ne c assignable rfl h

/-- **Exactly these literals survive printing**: a string, or a character, is read from its own text
    exactly if this text has neither the escape of the null character nor one by code point. That is
    the case if there is no null character, nothing without a form, and no character at the
    beginning that is drawn onto the one before it. -/
theorem literals_survive (assignable : Bool) :
    (∀ v : String,
      (parseExpression (Expr.string v).text assignable = .ok (.string v) ↔
        ¬HasEscape '0' (Text.escapeAll v.toList) ∧ ¬HasEscape 'u' (Text.escapeAll v.toList)) ∧
      (¬HasEscape '0' (Text.escapeAll v.toList) ∧ ¬HasEscape 'u' (Text.escapeAll v.toList) ↔
        '\x00' ∉ v.toList ∧ (∀ c ∈ v.toList, HasForm c) ∧
          ∀ c, v.toList.head? = some c → Text.isCombining c = false)) ∧
    (∀ c : Char,
      (parseExpression (Expr.char c).text assignable = .ok (.char c) ↔
        ¬HasEscape '0' (Text.escape true c) ∧ ¬HasEscape 'u' (Text.escape true c)) ∧
      (¬HasEscape '0' (Text.escape true c) ∧ ¬HasEscape 'u' (Text.escape true c) ↔
        c ≠ '\x00' ∧ HasForm c ∧ Text.isCombining c = false)) := by
  refine ⟨fun v => ?_, fun c => ?_⟩
  · rw [← (spelledAs_escapeAll v.toList).hasEscape_iff]
    exact ⟨parse_string_text v assignable, shownAll_iff v.toList⟩
  · rw [← (spelledAs_escape true c).hasEscape_iff]
    refine ⟨parse_char_text c assignable, ?_⟩
    rw [shown_iff]
    simp

end ExprLang
