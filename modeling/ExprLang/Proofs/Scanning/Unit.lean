import ExprLang.Proofs.Scanning.Malformed
import ExprLang.Proofs.Scanning.Value
import ExprLang.Tree.Text

/-!
# `Proofs.Scanning.Unit` — literals as sequences of units

Between its quotes a literal is made of **units**: characters that stand by themselves, and
characters behind a backslash. The scanner finds the closing quote by walking over the units, and
the decoder walks over them once more to say what each stands for. Both are stated here over the
same sequence of units, so that they cannot disagree on which backslash belongs to which character.

## Contents
- `LiteralUnit`, with its text and its value; `LiteralUnit.spelled`: units one after the other.
- `LiteralUnit.InString`, `LiteralUnit.InChar`: the units of strings and of characters.
- `LiteralUnit.spelled_injective`: the units of a text.
- `stringBody_spelled`, `StringBody.exists_units`: what closes a string.
- `decode_spelled`: what the units of a string stand for.
- `Lexeme.string_units`, `Lexeme.char_unit`: the literals that are scanned.
-/

namespace ExprLang

/-- A character of a literal as it is written: by itself, or behind a backslash. -/
inductive LiteralUnit where
  | plain (c : Char)
  | escaped (c : Char)
  deriving DecidableEq, Repr

namespace LiteralUnit

/-- The text of a unit. -/
def text : LiteralUnit → List Char
  | plain c => [c]
  | escaped c => ['\\', c]

/-- The character that a unit stands for. -/
def value : LiteralUnit → Char
  | plain c => c
  | escaped c => Literal.unescape c

/-- The unit may stand in a string: a quote only behind a backslash. -/
def InString : LiteralUnit → Prop
  | plain c => c ≠ '"' ∧ c ≠ '\\'
  | escaped _ => True

/-- The unit may stand in a character literal, where the quote may stand by itself. -/
def InChar : LiteralUnit → Prop
  | plain c => c ≠ '\\'
  | escaped _ => True

theorem InString.inChar {u : LiteralUnit} (h : u.InString) : u.InChar := by
  cases u with
  | plain c => exact h.2
  | escaped c => exact h

/-- The text of units that stand one after the other. -/
def spelled (units : List LiteralUnit) : List Char := units.flatMap text

@[simp] theorem spelled_nil : spelled [] = [] := rfl

@[simp] theorem spelled_cons (u : LiteralUnit) (units : List LiteralUnit) :
    spelled (u :: units) = u.text ++ spelled units := List.flatMap_cons

/-- What a text starts with shows its first unit: only an escape starts with a backslash. -/
theorem text_cancel {u v : LiteralUnit} (hu : u.InChar) (hv : v.InChar) {s t : List Char}
    (h : u.text ++ s = v.text ++ t) : u = v ∧ s = t := by
  cases u with
  | plain c =>
      cases v with
      | plain d =>
          obtain ⟨rfl, rfl⟩ := List.cons.inj h
          exact ⟨rfl, rfl⟩
      | escaped d => exact absurd (List.cons.inj h).1 hu
  | escaped c =>
      cases v with
      | plain d => exact absurd (List.cons.inj h).1.symm hv
      | escaped d =>
          obtain ⟨rfl, rfl⟩ := List.cons.inj (List.cons.inj h).2
          exact ⟨rfl, rfl⟩

/-- **A text is cut into units in one way.** -/
theorem spelled_injective {us vs : List LiteralUnit} (hus : ∀ u ∈ us, u.InChar)
    (hvs : ∀ v ∈ vs, v.InChar) (h : spelled us = spelled vs) : us = vs := by
  have hne : ∀ (u : LiteralUnit) (s : List Char), [] ≠ u.text ++ s := by
    intro u s
    cases u <;> exact nofun
  induction us generalizing vs with
  | nil =>
      cases vs with
      | nil => rfl
      | cons v vs => exact absurd h (hne v (spelled vs))
  | cons u us ih =>
      cases vs with
      | nil => exact absurd h.symm (hne u (spelled us))
      | cons v vs =>
          obtain ⟨hu, hus'⟩ := List.forall_mem_cons.mp hus
          obtain ⟨hv, hvs'⟩ := List.forall_mem_cons.mp hvs
          rw [spelled_cons, spelled_cons] at h
          obtain ⟨rfl, hrest⟩ := text_cancel hu hv h
          rw [ih hus' hvs' hrest]

end LiteralUnit

open LiteralUnit

/-! ## Closing a string -/

/-- Units and a quote behind them are the body of a string, by induction on the units: each is one
    step of the body. -/
theorem stringBody_spelled {units : List LiteralUnit} (h : ∀ u ∈ units, u.InString) :
    StringBody (spelled units ++ ['"']) := by
  induction units with
  | nil => exact .close
  | cons u units ih =>
      obtain ⟨hu, hunits⟩ := List.forall_mem_cons.mp h
      rw [spelled_cons, List.append_assoc]
      cases u with
      | plain c => exact .plain hu.1 hu.2 (ih hunits)
      | escaped c => exact .escaped (ih hunits)

/-- **The body of a string** is made of units. -/
theorem StringBody.exists_units {s : List Char} (h : StringBody s) :
    ∃ units : List LiteralUnit, (∀ u ∈ units, u.InString) ∧ s = spelled units ++ ['"'] := by
  induction h with
  | close => exact ⟨[], by simp, rfl⟩
  | @escaped c s _ ih =>
      obtain ⟨units, hunits, rfl⟩ := ih
      exact ⟨.escaped c :: units, List.forall_mem_cons.mpr ⟨trivial, hunits⟩, rfl⟩
  | @plain c s hquote hslash _ ih =>
      obtain ⟨units, hunits, rfl⟩ := ih
      exact ⟨.plain c :: units, List.forall_mem_cons.mpr ⟨⟨hquote, hslash⟩, hunits⟩, rfl⟩

/-- The quote behind the units of a string is not escaped. -/
theorem not_endsEscaping_spelled {units : List LiteralUnit} (h : ∀ u ∈ units, u.InString) :
    ¬EndsEscaping (spelled units) := by
  induction units with
  | nil => exact not_endsEscaping_nil
  | cons u units ih =>
      obtain ⟨hu, hunits⟩ := List.forall_mem_cons.mp h
      rw [spelled_cons]
      cases u with
      | plain c =>
          show ¬EndsEscaping (c :: spelled units)
          rw [endsEscaping_cons hu.2]
          exact ih hunits
      | escaped c =>
          show ¬EndsEscaping ('\\' :: c :: spelled units)
          rw [endsEscaping_escape]
          exact ih hunits

/-! ## Decoding -/

theorem decode_cons {c : Char} (hslash : c ≠ '\\') (u : List Char) :
    Literal.decode (c :: u) = c :: Literal.decode u := by
  rw [Literal.decode]
  · rintro rfl
    exact absurd rfl hslash
  · rintro d rest rfl
    exact absurd rfl hslash

/-- **Units are decoded** one by one. -/
theorem decode_spelled {units : List LiteralUnit} (h : ∀ u ∈ units, u.InString) :
    Literal.decode (spelled units) = units.map value := by
  induction units with
  | nil => rfl
  | cons u units ih =>
      obtain ⟨hu, hunits⟩ := List.forall_mem_cons.mp h
      rw [spelled_cons, List.map_cons, ← ih hunits]
      cases u with
      | plain c => exact decode_cons hu.2 (spelled units)
      | escaped c => rfl

theorem between?_quoted (q : Char) (body : List Char) :
    Literal.between? q (quoted q body).toList = some body := by
  rw [quoted, String.toList_ofList, List.cons_append, between?_quotes]

theorem stringValue_quoted (body : List Char) :
    Literal.stringValue (quoted '"' body) = String.ofList (Literal.decode body) := by
  rw [Literal.stringValue, between?_quoted]
  rfl

theorem charValue?_quoted {u : LiteralUnit} (h : u.InChar) :
    Literal.charValue? (quoted '\'' u.text) = some u.value := by
  cases u with
  | plain c => exact charValue?_plain h
  | escaped c => exact charValue?_escape c

/-! ## Literals as tokens -/

theorem Lexeme.of_string {units : List LiteralUnit} (h : ∀ u ∈ units, u.InString)
    (rest : List Char) : Lexeme .string (quoted '"' (spelled units)).toList rest := by
  rw [quoted, String.toList_ofList]
  exact .string (stringBody_spelled h)

theorem Lexeme.of_char {u : LiteralUnit} (h : u.InChar) (rest : List Char) :
    Lexeme .char (quoted '\'' u.text).toList rest := by
  rw [quoted, String.toList_ofList]
  cases u with
  | plain c => exact .char h
  | escaped c => exact .escape

section

variable {k : Kind} {text rest : List Char}

/-- **A scanned string** is made of units between quotes. -/
theorem Lexeme.string_units (h : Lexeme k text rest) (hk : k = .string) :
    ∃ units : List LiteralUnit, (∀ u ∈ units, u.InString) ∧
      String.ofList text = quoted '"' (spelled units) := by
  cases h with
  | word => exact absurd hk (Kind.ofWord_ne _).2.2.2
  | string hu =>
      obtain ⟨units, hunits, rfl⟩ := hu.exists_units
      exact ⟨units, hunits, rfl⟩
  | single hc => exact absurd hk (Kind.ofChar?_ne hc).2.2.2
  | pair hc => exact absurd hk (Kind.ofPair?_ne hc).2.2.2
  | _ => cases hk

/-- **A scanned character** is one unit between quotes. -/
theorem Lexeme.char_unit (h : Lexeme k text rest) (hk : k = .char) :
    ∃ u : LiteralUnit, u.InChar ∧ String.ofList text = quoted '\'' u.text := by
  rcases h.char_text hk with ⟨c, hc, rfl⟩ | ⟨c, rfl⟩
  · exact ⟨.plain c, hc, rfl⟩
  · exact ⟨.escaped c, trivial, rfl⟩

end

end ExprLang
