import ExprLang.Text.Escape

/-!
# `Proofs.Text.Escape` — escaped characters can be told apart

What an escaped character stands for can be read off its text, and so can where it ends: after the
character itself, after a backslash and one more character, or after the brace that closes a code
point. So escaped characters that stand one after the other are told apart, up to a quote, which is
never written without a backslash. Which characters are escaped plays no part in this.

## Contents
- `toDigits_injective`: hexadecimal digits.
- `Escaped`, `escaped_escape`: the three ways to write a character.
- `Escaped.unique`: one escaped character.
- `escapeAll_unique`: an escaped string up to the quote behind it.
-/

namespace ExprLang.Text

/-! ## Code points -/

theorem exists_digitChar {n : Nat} {c : Char} (h : c ∈ Nat.toDigits 16 n) :
    ∃ d, c = Nat.digitChar d := by
  induction n using Nat.strongRecOn with
  | ind n ih =>
      by_cases hn : n < 16
      · rw [Nat.toDigits_of_lt_base hn] at h
        exact ⟨n, List.mem_singleton.mp h⟩
      · rw [Nat.toDigits_of_base_le (by decide) (Nat.le_of_not_lt hn)] at h
        rcases List.mem_append.mp h with hmore | hlast
        · exact ih (n / 16) (by omega) hmore
        · exact ⟨n % 16, List.mem_singleton.mp hlast⟩

theorem digitChar_injective {m n : Nat} (hm : m < 16) (hn : n < 16)
    (h : Nat.digitChar m = Nat.digitChar n) : m = n := by
  have hall : ∀ a : Fin 16, ∀ b : Fin 16, Nat.digitChar a = Nat.digitChar b → a = b := by decide
  exact Fin.mk.inj (hall ⟨m, hm⟩ ⟨n, hn⟩ h)

/-- The digits of a number that is not a digit are more than one. -/
theorem toDigits_ne_singleton {n : Nat} (hn : ¬n < 16) (c : Char) : Nat.toDigits 16 n ≠ [c] := by
  rw [Nat.toDigits_of_base_le (by decide) (Nat.le_of_not_lt hn)]
  intro h
  have hpos : 0 < (Nat.toDigits 16 (n / 16)).length := List.length_pos_iff.mpr Nat.toDigits_ne_nil
  have hlength := congrArg List.length h
  rw [List.length_append, List.length_singleton, List.length_singleton] at hlength
  omega

/-- **Hexadecimal digits** stand for one number, by induction on the number. -/
theorem toDigits_injective {m n : Nat} (h : Nat.toDigits 16 m = Nat.toDigits 16 n) : m = n := by
  induction m using Nat.strongRecOn generalizing n with
  | ind m ih =>
      by_cases hm : m < 16
      · rw [Nat.toDigits_of_lt_base hm] at h
        by_cases hn : n < 16
        · rw [Nat.toDigits_of_lt_base hn] at h
          exact digitChar_injective hm hn (List.singleton_inj.mp h)
        · exact absurd h.symm (toDigits_ne_singleton hn _)
      · by_cases hn : n < 16
        · rw [Nat.toDigits_of_lt_base hn] at h
          exact absurd h (toDigits_ne_singleton hm _)
        · rw [Nat.toDigits_of_base_le (by decide) (Nat.le_of_not_lt hm),
            Nat.toDigits_of_base_le (by decide) (Nat.le_of_not_lt hn)] at h
          obtain ⟨hfront, hlast⟩ := List.append_inj' h rfl
          have hdiv : m / 16 = n / 16 := ih (m / 16) (by omega) hfront
          have hmod : m % 16 = n % 16 := digitChar_injective (Nat.mod_lt m (by decide))
            (Nat.mod_lt n (by decide)) (List.singleton_inj.mp hlast)
          omega

/-- A list up to a mark that is not among its elements, and what stands behind the mark. -/
theorem eq_of_append_mark {α : Type} {a : α} {u v r r' : List α} (hu : a ∉ u) (hv : a ∉ v)
    (h : u ++ a :: r = v ++ a :: r') : u = v ∧ r = r' := by
  obtain ⟨w, hw⟩ | ⟨w, hw⟩ : (∃ w, v = u ++ w ∧ a :: r = w ++ a :: r') ∨
      ∃ w, u = v ++ w ∧ a :: r' = w ++ a :: r := List.append_eq_append_iff.mp h
  all_goals
    obtain ⟨rfl, hmark⟩ := hw
    cases w with
    | nil => simpa [eq_comm] using hmark
    | cons b w =>
        obtain ⟨rfl, -⟩ := List.cons.inj hmark
        simp at hu hv

/-- A code point ends with its closing brace. -/
theorem codePoint_unique {c d : Char} {r r' : List Char}
    (h : codePoint c ++ r = codePoint d ++ r') : c = d ∧ r = r' := by
  have hbrace : ∀ n, '}' ∉ Nat.toDigits 16 n := by
    intro n hmem
    obtain ⟨d, hd⟩ := exists_digitChar hmem
    exact Nat.digitChar_ne '}' (by decide) hd.symm
  simp only [codePoint, List.append_assoc, List.cons_append, List.nil_append,
    List.cons.injEq, true_and] at h
  obtain ⟨hdigits, hrest⟩ := eq_of_append_mark (hbrace _) (hbrace _) h
  exact ⟨Char.toNat_inj.mp (toDigits_injective hdigits), hrest⟩

/-! ## Escaped characters -/

/-- The character that is written as a backslash and this one, if there is one. -/
def short? : Char → Option Char
  | '0' => some '\x00'
  | 't' => some '\t'
  | 'r' => some '\r'
  | 'n' => some '\n'
  | '\\' => some '\\'
  | '\'' => some '\''
  | '"' => some '"'
  | _ => none

/-- The text is a way to write the character `c`. -/
inductive Escaped (c : Char) : List Char → Prop where
  | short {mark} (h : short? mark = some c) : Escaped c ['\\', mark]
  | code : Escaped c (codePoint c)
  | plain (hslash : c ≠ '\\') (hquote : c ≠ '"') : Escaped c [c]

theorem escaped_escape (alone : Bool) (c : Char) : Escaped c (escape alone c) := by
  fun_cases escape alone c with
  | case8 => exact .code
  | case9 _ _ _ _ _ hslash _ hquote => exact .plain hslash hquote
  | _ => exact .short rfl

/-- **A written character** is told apart from what stands behind it, and from all others. -/
theorem Escaped.unique {c d : Char} {u v r r' : List Char} (hu : Escaped c u) (hv : Escaped d v)
    (h : u ++ r = v ++ r') : c = d ∧ r = r' := by
  cases hu with
  | @short mark hc =>
      cases hv with
      | @short mark' hd =>
          obtain ⟨-, rfl, rfl⟩ : '\\' = '\\' ∧ mark = mark' ∧ r = r' := by simpa using h
          exact ⟨Option.some.inj (hc.symm.trans hd), rfl⟩
      | code =>
          obtain ⟨rfl, -⟩ : mark = 'u' ∧ _ := by simpa [codePoint] using h
          cases hc
      | plain hslash => exact absurd (List.cons.inj h).1.symm hslash
  | code =>
      cases hv with
      | @short mark hd =>
          obtain ⟨rfl, -⟩ : 'u' = mark ∧ _ := by simpa [codePoint] using h
          cases hd
      | code => exact codePoint_unique h
      | plain hslash => exact absurd (List.cons.inj h).1.symm hslash
  | plain hslash =>
      cases hv with
      | short | code => exact absurd (List.cons.inj h).1 hslash
      | plain => exact List.cons.inj h

/-- A quote closes what stands before it. -/
theorem Escaped.ne_quote {c : Char} {u r r' : List Char} (hu : Escaped c u) :
    u ++ r ≠ '"' :: r' := by
  intro h
  cases hu with
  | short | code => cases (List.cons.inj h).1
  | plain _ hquote => exact hquote (List.cons.inj h).1

/-! ## Escaped strings -/

theorem flatMap_escape_unique {s t r r' : List Char}
    (h : s.flatMap (escape false) ++ '"' :: r = t.flatMap (escape false) ++ '"' :: r') :
    s = t ∧ r = r' := by
  induction s generalizing t with
  | nil =>
      cases t with
      | nil => exact ⟨rfl, (List.cons.inj h).2⟩
      | cons d t =>
          rw [List.flatMap_cons, List.append_assoc] at h
          exact absurd h.symm (escaped_escape false d).ne_quote
  | cons c s ih =>
      cases t with
      | nil =>
          rw [List.flatMap_cons, List.append_assoc] at h
          exact absurd h (escaped_escape false c).ne_quote
      | cons d t =>
          rw [List.flatMap_cons, List.flatMap_cons, List.append_assoc, List.append_assoc] at h
          obtain ⟨rfl, hmore⟩ := (escaped_escape false c).unique (escaped_escape false d) h
          obtain ⟨rfl, hrest⟩ := ih hmore
          exact ⟨rfl, hrest⟩

/-- **An escaped string** ends at the quote behind it, and stands for no other string. -/
theorem escapeAll_unique {s t r r' : List Char}
    (h : escapeAll s ++ '"' :: r = escapeAll t ++ '"' :: r') : s = t ∧ r = r' := by
  cases s with
  | nil =>
      cases t with
      | nil => exact ⟨rfl, (List.cons.inj h).2⟩
      | cons d t =>
          rw [escapeAll, escapeAll, List.append_assoc] at h
          exact absurd h.symm (escaped_escape true d).ne_quote
  | cons c s =>
      cases t with
      | nil =>
          rw [escapeAll, escapeAll, List.append_assoc] at h
          exact absurd h (escaped_escape true c).ne_quote
      | cons d t =>
          rw [escapeAll, escapeAll, List.append_assoc, List.append_assoc] at h
          obtain ⟨rfl, hmore⟩ := (escaped_escape true c).unique (escaped_escape true d) h
          obtain ⟨rfl, hrest⟩ := flatMap_escape_unique hmore
          exact ⟨rfl, hrest⟩

end ExprLang.Text
