import ExprLang.Proofs.Printing.Escaping
import ExprLang.Proofs.Printing.Spells

/-!
# `Proofs.Printing.Literal` — literals are read back

The text of a literal is a single token whose value is the literal again. Characters and strings are
written as units between quotes, and shown characters are what their units stand for.

## Contents
- `natural_repr`: the digits of a number.
- `spells_int`, `spells_char`, `spells_string`: literals as tokens.
-/

namespace ExprLang

/-- A single token that is the expression `e`. -/
def AtomOf (e : Expr) (w : List Token) : Prop := ∃ t, Atom t e ∧ w = [t]

theorem spells_atom {text : String} {k : Kind} {e : Expr} {F : List Char → Prop}
    (h : ∀ rest, F rest → Lexeme k text.toList rest)
    (hatom : ∀ t : Token, t.kind = k → t.value = text → Atom t e) : Spells text F (AtomOf e) := by
  refine (Spells.lexeme h).imp ?_
  rintro w ⟨t, hk, hvalue, rfl⟩
  exact ⟨t, hatom t hk hvalue, rfl⟩

/-! ## Integers -/

/-- The digits of a number are read back. -/
theorem natural_repr (n : Nat) : Numeral.natural (Nat.repr n).toList = n := by
  rw [Nat.toList_repr, Numeral.natural, ← Nat.ofDigitChars_eq_foldl]
  exact Nat.ofDigitChars_ten_toDigits

theorem all_isDigit_repr (n : Nat) : (Nat.repr n).toList.all Char.isDigit = true := by
  rw [Nat.toList_repr, List.all_eq_true]
  intro c hc
  exact Nat.isDigit_of_mem_toDigits (by decide) (by decide) hc

theorem isNamePart_of_isDigit {c : Char} (h : c.isDigit = true) : isNamePart c = true := by
  rw [isNamePart, h, Bool.or_true]

theorem spells_int {n : Int} (hnonneg : 0 ≤ n) (hle : n ≤ 9223372036854775807) :
    Spells (Expr.int n).text Detached (AtomOf (.int n)) := by
  obtain ⟨m, rfl⟩ := Int.eq_ofNat_of_zero_le hnonneg
  have htext : (Expr.int m).text = Nat.repr m := by rw [Expr.text]; rfl
  have hlexeme : ∀ rest, Detached rest → Lexeme .int (Nat.repr m).toList rest := by
    intro rest hrest
    have hdigits := all_isDigit_repr m
    cases hchars : (Nat.repr m).toList with
    | nil =>
        rw [Nat.toList_repr] at hchars
        exact absurd hchars Nat.toDigits_ne_nil
    | cons c u =>
        rw [hchars, List.all_cons, Bool.and_eq_true] at hdigits
        refine .int hdigits.1 hdigits.2 ?_ hrest.2
        rintro ⟨d, hd, hdigit⟩
        exact hrest.1 ⟨d, hd, isNamePart_of_isDigit hdigit⟩
  rw [htext]
  apply spells_atom hlexeme
  intro t hk hvalue
  refine .int hk ?_
  have hinteger := (hlexeme [] detached_nil).integer? rfl m
  rw [String.ofList_toList, natural_repr] at hinteger
  rw [hvalue]
  exact hinteger.mpr ⟨rfl, by omega⟩

/-! ## Characters and strings -/

theorem spells_char {c : Char} (h : Shown true c) :
    Spells (Expr.char c).text Free (AtomOf (.char c)) := by
  obtain ⟨u, hu, hescape, rfl⟩ := exists_unit_of_shown h
  rw [Expr.text, hescape]
  apply spells_atom
  · exact fun rest _ => .of_char hu.inChar rest
  · intro t hk hvalue
    refine .char hk ?_
    rw [hvalue]
    exact charValue?_quoted hu.inChar

theorem spells_string {s : String} (h : ShownAll s.toList) :
    Spells (Expr.string s).text Free (AtomOf (.string s)) := by
  obtain ⟨units, hunits, hescape, -, hiff, -⟩ := spelledAs_escapeAll s.toList
  have hstands : units.map LiteralUnit.value = s.toList := hiff.mpr h
  rw [Expr.text, hescape]
  apply spells_atom
  · exact fun rest _ => .of_string hunits rest
  · intro t hk hvalue
    have hatom := Atom.string hk
    rwa [hvalue, stringValue_quoted, decode_spelled hunits, hstands, String.ofList_toList] at hatom

end ExprLang
