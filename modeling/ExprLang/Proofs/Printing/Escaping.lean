import ExprLang.Proofs.Printing.Canonical
import ExprLang.Proofs.Scanning.Unit
import ExprLang.Proofs.Text.Escape

/-!
# `Proofs.Printing.Escaping` — escaped texts as units of a literal

Characters are escaped by one table and read back by another, and the two do not agree: the null
character and code points are written, but nothing reads them. What is written is still a sequence
of units that a string may be made of, so it is always read as some string. `SpelledAs` says when
that is the string that was written, and it goes through text that is put together: the units are
never fewer than the characters, so none of them can make up for another.

## Contents
- `SpelledAs`, `SpelledAs.append`: texts in units.
- `HasEscape`, `SpelledAs.hasEscape_iff`: the escapes of a text.
- `spelledAs_escape`: one character.
- `exists_unit_of_shown`: the unit that a shown character is written as.
- `spelledAs_flatMap`, `spelledAs_escapeAll`: strings.
-/

namespace ExprLang

open LiteralUnit

/-- The text is spelled in units of a string, at least one for each character of `s`. What they
    stand for is `s` exactly if `P` holds, which is if none of them is an escape that is not read. -/
def SpelledAs (text s : List Char) (P : Prop) : Prop :=
  ∃ units : List LiteralUnit, (∀ u ∈ units, u.InString) ∧ text = spelled units ∧
    s.length ≤ units.length ∧ (units.map value = s ↔ P) ∧
    (P ↔ ∀ u ∈ units, u ≠ escaped '0' ∧ u ≠ escaped 'u')

theorem spelledAs_nil : SpelledAs [] [] True :=
  ⟨[], by simp, rfl, Nat.le_refl 0, by simp, by simp⟩

/-- **Two texts in units**, one behind the other, stand for what they should exactly if both do:
    where the first has a unit too many, there is one too many altogether. -/
theorem SpelledAs.append {text text' s s' : List Char} {P Q : Prop} (h : SpelledAs text s P)
    (h' : SpelledAs text' s' Q) : SpelledAs (text ++ text') (s ++ s') (P ∧ Q) := by
  obtain ⟨units, hunits, rfl, hle, hiff, hread⟩ := h
  obtain ⟨units', hunits', rfl, hle', hiff', hread'⟩ := h'
  refine ⟨units ++ units', List.forall_mem_append.mpr ⟨hunits, hunits'⟩, ?_, ?_, ?_, ?_⟩
  · exact List.flatMap_append.symm
  · rw [List.length_append, List.length_append]
    omega
  · rw [List.map_append, ← hiff, ← hiff']
    constructor
    · intro h
      have hlength := congrArg List.length h
      simp only [List.length_append, List.length_map] at hlength
      exact List.append_inj h (by rw [List.length_map]; omega)
    · rintro ⟨h, h'⟩
      rw [h, h']
  · rw [hread, hread', List.forall_mem_append]

/-- Read in units, the text has a backslash with `mark` behind it. -/
def HasEscape (mark : Char) (text : List Char) : Prop :=
  ∃ units : List LiteralUnit, (∀ u ∈ units, u.InString) ∧ text = spelled units ∧
    escaped mark ∈ units

/-- The units of a text show its escapes, since there are no others. -/
theorem SpelledAs.hasEscape_iff {text s : List Char} {P : Prop} (h : SpelledAs text s P) :
    P ↔ ¬HasEscape '0' text ∧ ¬HasEscape 'u' text := by
  obtain ⟨units, hunits, rfl, -, -, hread⟩ := h
  have hunique : ∀ mark, HasEscape mark (spelled units) ↔ escaped mark ∈ units := by
    intro mark
    constructor
    · rintro ⟨units', hunits', htext, hmem⟩
      rwa [spelled_injective (fun u hu => (hunits u hu).inChar)
        (fun u hu => (hunits' u hu).inChar) htext]
    · exact fun hmem => ⟨units, hunits, rfl, hmem⟩
  rw [hread, hunique, hunique]
  constructor
  · exact fun h => ⟨fun hmem => (h _ hmem).1 rfl, fun hmem => (h _ hmem).2 rfl⟩
  · rintro ⟨hnull, hcode⟩ u hu
    refine ⟨?_, ?_⟩
    · rintro rfl
      exact hnull hu
    · rintro rfl
      exact hcode hu

/-! ## One character -/

/-- A code point is spelled in units: the backslash with the letter behind it, and everything else
    by itself. -/
theorem codePoint_units (c : Char) :
    ∃ units : List LiteralUnit, (∀ u ∈ units, u.InString) ∧ Text.codePoint c = spelled units ∧
      1 < units.length ∧ escaped 'u' ∈ units := by
  let digits : List LiteralUnit := (Nat.toDigits 16 c.toNat).map plain
  have hdigits : ∀ u ∈ digits, u.InString := by
    intro u hu
    obtain ⟨d, hd, rfl⟩ := List.mem_map.mp hu
    obtain ⟨n, rfl⟩ := Text.exists_digitChar hd
    exact ⟨Nat.digitChar_ne '"' (by decide), Nat.digitChar_ne '\\' (by decide)⟩
  refine ⟨escaped 'u' :: plain '{' :: (digits ++ [plain '}']), ?_, ?_, by simp, by simp⟩
  · simp only [List.forall_mem_cons, List.forall_mem_append]
    exact ⟨trivial, ⟨by decide, by decide⟩, hdigits, ⟨by decide, by decide⟩, by simp⟩
  · have hspelled : spelled digits = Nat.toDigits 16 c.toNat := by
      rw [spelled, List.flatMap_map]
      exact List.flatMap_singleton' _
    rw [spelled_cons, spelled_cons, spelled, List.flatMap_append, ← spelled, hspelled]
    rfl

/-- The character behind a backslash is read as the one it was written for, unless that is the null
    character: there the mark is a digit. -/
theorem unescape_of_short {mark c : Char} (h : Text.short? mark = some c) :
    Literal.unescape mark = c ↔ mark ≠ '0' := by
  unfold Text.short? at h
  split at h <;> cases h <;> decide

/-- **An escaped character** stands for itself exactly if it is shown. -/
theorem spelledAs_escape (alone : Bool) (c : Char) :
    SpelledAs (Text.escape alone c) [c] (Shown alone c) := by
  have hescaped : Text.Escaped c (Text.escape alone c) := Text.escaped_escape alone c
  unfold Shown
  generalize Text.escape alone c = text at hescaped
  cases hescaped with
  | @short mark hmark =>
      have hletter : mark ≠ 'u' := by
        rintro rfl
        cases hmark
      refine ⟨[escaped mark], by simp [InString], rfl, Nat.le_refl 1, ?_, ?_⟩
      · rw [List.map_singleton, List.singleton_inj]
        show Literal.unescape mark = c ↔ _
        rw [unescape_of_short hmark]
        simp [Text.codePoint]
      · simp [Text.codePoint, hletter]
  | code =>
      obtain ⟨units, hunits, htext, hlength, hcode⟩ := codePoint_units c
      have hlost : ¬(Text.codePoint c ≠ ['\\', '0'] ∧ Text.codePoint c ≠ Text.codePoint c) :=
        fun h => h.2 rfl
      refine ⟨units, hunits, htext, Nat.le_of_lt hlength, iff_of_false ?_ hlost,
        iff_of_false hlost fun h => (h _ hcode).2 rfl⟩
      intro h
      have hone := congrArg List.length h
      rw [List.length_map, List.length_singleton] at hone
      omega
  | plain hslash hquote =>
      have hshown : [c] ≠ ['\\', '0'] ∧ [c] ≠ Text.codePoint c := by simp [Text.codePoint]
      refine ⟨[plain c], ?_, rfl, Nat.le_refl 1, iff_of_true rfl hshown, iff_of_true hshown ?_⟩
      · simpa [InString] using ⟨hquote, hslash⟩
      · simp

/-- The one unit that a shown character is written as. -/
theorem exists_unit_of_shown {alone : Bool} {c : Char} (h : Shown alone c) :
    ∃ u : LiteralUnit, u.InString ∧ Text.escape alone c = u.text ∧ u.value = c := by
  obtain ⟨units, hunits, htext, -, hiff, -⟩ := spelledAs_escape alone c
  obtain ⟨u, rfl, hu⟩ := List.map_eq_singleton_iff.mp (hiff.mpr h)
  rw [spelled_cons, spelled_nil, List.append_nil] at htext
  exact ⟨u, hunits u (List.mem_singleton_self u), htext, hu⟩

/-! ## Strings -/

theorem spelledAs_flatMap (s : List Char) :
    SpelledAs (s.flatMap (Text.escape false)) s (∀ c ∈ s, Shown false c) := by
  induction s with
  | nil => simpa using spelledAs_nil
  | cons c s ih =>
      have happend := (spelledAs_escape false c).append ih
      rwa [← List.forall_mem_cons, List.singleton_append] at happend

/-- **An escaped string** stands for itself exactly if all of its characters are shown. -/
theorem spelledAs_escapeAll (s : List Char) : SpelledAs (Text.escapeAll s) s (ShownAll s) := by
  cases s with
  | nil => exact spelledAs_nil
  | cons c s => exact (spelledAs_escape true c).append (spelledAs_flatMap s)

end ExprLang
