import ExprLang.Grammar.Rule
import ExprLang.Proofs.Scanning.Scans

/-!
# `Proofs.Scanning.Value` — scanned literals have values

What is scanned as a number or as a character literal is written so that it has a value, with one
exception: an integer may be too large. So a reader of scanned tokens can reject an integer, but no
float and no character.

## Contents
- `Scans.lexeme`: the value of a scanned token is the text it was scanned from.
- `Lexeme.charValue?`, `Lexeme.binary64?`, `Lexeme.integer?`: literals of each kind.
-/

namespace ExprLang

/-- The value of a token is written as a token of its kind. -/
theorem Scans.lexeme {p : Position} {s : List Char} {ts : List Token} {stop : Cursor}
    (h : Scans p s ts stop) :
    ∀ t ∈ ts, t.kind ≠ .error → ∃ rest, Lexeme t.kind t.value.toList rest := by
  induction h with
  | done | lastLine => simp
  | blank _ _ ih | line _ _ ih | block _ _ ih => exact ih
  | @token p k text s ts stop hk _ ih =>
      refine List.forall_mem_cons.mpr ⟨fun _ => ⟨s, ?_⟩, ih⟩
      rw [String.toList_ofList]
      exact hk
  | fault => simp

/-! ## What the text of a literal looks like -/

section

variable {k : Kind} {text rest : List Char}

/-- A literal is neither a word nor a symbol. -/
theorem Kind.ofWord_ne (word : String) : Kind.ofWord word ≠ .int ∧ Kind.ofWord word ≠ .float ∧
    Kind.ofWord word ≠ .char ∧ Kind.ofWord word ≠ .string := by
  unfold Kind.ofWord Kind.ofWord?
  split <;> decide

theorem Kind.ofChar?_ne {c : Char} (h : Kind.ofChar? c = some k) :
    k ≠ .int ∧ k ≠ .float ∧ k ≠ .char ∧ k ≠ .string := by
  unfold Kind.ofChar? at h
  split at h <;> cases h <;> decide

theorem Kind.ofPair?_ne {c d : Char} (h : Kind.ofPair? c d = some k) :
    k ≠ .int ∧ k ≠ .float ∧ k ≠ .char ∧ k ≠ .string := by
  unfold Kind.ofPair? at h
  split at h <;> cases h <;> decide

theorem Lexeme.int_text (h : Lexeme k text rest) (hk : k = .int) :
    ∃ c u, text = c :: u ∧ c.isDigit = true ∧ u.all Char.isDigit = true := by
  cases h with
  | word => exact absurd hk (Kind.ofWord_ne _).1
  | int hc hu => exact ⟨_, _, rfl, hc, hu⟩
  | single hc => exact absurd hk (Kind.ofChar?_ne hc).1
  | pair hc => exact absurd hk (Kind.ofPair?_ne hc).1
  | _ => cases hk

theorem Lexeme.float_text (h : Lexeme k text rest) (hk : k = .float) :
    ∃ c u v, text = c :: u ++ '.' :: v ∧ c.isDigit = true ∧ u.all Char.isDigit = true ∧
      v.all Char.isDigit = true := by
  cases h with
  | word => exact absurd hk (Kind.ofWord_ne _).2.1
  | float hc hu hv => exact ⟨_, _, _, rfl, hc, hu, hv⟩
  | single hc => exact absurd hk (Kind.ofChar?_ne hc).2.1
  | pair hc => exact absurd hk (Kind.ofPair?_ne hc).2.1
  | _ => cases hk

theorem Lexeme.char_text (h : Lexeme k text rest) (hk : k = .char) :
    (∃ c, c ≠ '\\' ∧ text = ['\'', c, '\'']) ∨ ∃ c, text = ['\'', '\\', c, '\''] := by
  cases h with
  | word => exact absurd hk (Kind.ofWord_ne _).2.2.1
  | char hc => exact Or.inl ⟨_, hc, rfl⟩
  | escape => exact Or.inr ⟨_, rfl⟩
  | single hc => exact absurd hk (Kind.ofChar?_ne hc).2.2.1
  | pair hc => exact absurd hk (Kind.ofPair?_ne hc).2.2.1
  | _ => cases hk

/-! ## Values -/

/-- The text between two quotes. -/
theorem between?_quotes (q : Char) (body : List Char) :
    Literal.between? q (q :: (body ++ [q])) = some body := by
  rw [Literal.between?, if_pos ⟨rfl, List.getLast?_concat⟩, List.dropLast_concat]

theorem charValue?_plain {c : Char} (hc : c ≠ '\\') :
    Literal.charValue? (String.ofList ['\'', c, '\'']) = some c := by
  have hbetween := between?_quotes '\'' [c]
  rw [List.singleton_append] at hbetween
  rw [Literal.charValue?, String.toList_ofList, hbetween]
  exact if_neg hc

theorem charValue?_escape (c : Char) :
    Literal.charValue? (String.ofList ['\'', '\\', c, '\'']) = some (Literal.unescape c) := by
  have hbetween := between?_quotes '\'' ['\\', c]
  rw [List.cons_append, List.singleton_append] at hbetween
  rw [Literal.charValue?, String.toList_ofList, hbetween]
  exact if_pos rfl

theorem Lexeme.charValue? (h : Lexeme k text rest) (hk : k = .char) :
    ∃ c, Literal.charValue? (String.ofList text) = some c := by
  rcases h.char_text hk with ⟨c, hc, rfl⟩ | ⟨c, rfl⟩
  · exact ⟨c, charValue?_plain hc⟩
  · exact ⟨_, charValue?_escape c⟩

/-- A digit is no sign. -/
theorem splitSign_of_isDigit {c : Char} (hc : c.isDigit = true) (u : List Char) :
    Numeral.splitSign (c :: u) = (false, c :: u) := by
  rw [Numeral.splitSign]
  · intro rest h
    cases h
    cases hc
  · intro rest h
    cases h
    cases hc

theorem decimal?_of_digits {c : Char} {u v : List Char} (hc : c.isDigit = true)
    (hu : u.all Char.isDigit = true) (hv : v.all Char.isDigit = true) :
    ∃ x, Numeral.decimal? false (c :: u ++ '.' :: v) = some x := by
  have hpoint : ¬HeadIs Char.isDigit ('.' :: v) := by
    rintro ⟨d, hd, hdigit⟩
    cases hd
    cases hdigit
  have hend : ¬HeadIs Char.isDigit [] := by
    rintro ⟨d, hd, -⟩
    cases hd
  have hwhole : (c :: u).all Char.isDigit = true := by simp [hc, hu]
  obtain ⟨htake, hdrop⟩ := Piece.span_append hwhole hpoint
  obtain ⟨htake', hdrop'⟩ := Piece.span_append hv hend
  rw [List.append_nil] at htake' hdrop'
  have hnatural : Numeral.isNatural (c :: u ++ v) = true := by
    simp [Numeral.isNatural, hc, hu, hv]
  refine ⟨Numeral.ofDecimal false (Numeral.natural (c :: u ++ v)) (0 - v.length), ?_⟩
  simp only [Numeral.decimal?, htake, hdrop, htake', hdrop', hnatural]
  rfl

/-- A decimal is none of the words for numbers. -/
theorem binary64?_of_isDigit {c : Char} (hc : c.isDigit = true) (u : List Char) :
    Numeral.binary64? (String.ofList (c :: u)) = Numeral.decimal? false (c :: u) := by
  have hlower : c.toLower = c := dif_neg (of_decide_eq_false (Piece.isUpper_of_isDigit hc))
  have hword : ∀ d w, d.isDigit = false →
      String.ofList (c :: u.map Char.toLower) ≠ String.ofList (d :: w) := by
    intro d w hd h
    obtain ⟨rfl, -⟩ := List.cons.inj (String.ofList_injective h)
    rw [hc] at hd
    cases hd
  unfold Numeral.binary64?
  rw [String.toList_ofList, splitSign_of_isDigit hc]
  simp only [List.map_cons, hlower]
  split
  · next h => exact absurd h (hword 'i' ['n', 'f'] (by decide))
  · next h => exact absurd h (hword 'i' ['n', 'f', 'i', 'n', 'i', 't', 'y'] (by decide))
  · next h => exact absurd h (hword 'n' ['a', 'n'] (by decide))
  · rfl

theorem Lexeme.binary64? (h : Lexeme k text rest) (hk : k = .float) :
    ∃ x, Numeral.binary64? (String.ofList text) = some x := by
  obtain ⟨c, u, v, rfl, hc, hu, hv⟩ := h.float_text hk
  rw [List.cons_append, binary64?_of_isDigit hc]
  exact decimal?_of_digits hc hu hv

theorem Lexeme.integer? (h : Lexeme k text rest) (hk : k = .int) (n : Int) :
    Numeral.integer? (String.ofList text) = some n ↔
      n = Numeral.natural text ∧ Numeral.natural text ≤ 9223372036854775807 := by
  obtain ⟨c, u, rfl, hc, hu⟩ := h.int_text hk
  have hnatural : Numeral.isNatural (c :: u) = true := by simp [Numeral.isNatural, hc, hu]
  have hsigned : Numeral.signed? (c :: u) = some (Numeral.natural (c :: u) : Int) := by
    simp [Numeral.signed?, splitSign_of_isDigit hc, hnatural]
  rw [Numeral.integer?, String.toList_ofList, hsigned, Option.filter_eq_some_iff]
  simp only [Option.some.injEq, Bool.and_eq_true, decide_eq_true_eq]
  constructor
  · rintro ⟨rfl, -, hle⟩
    exact ⟨rfl, by omega⟩
  · rintro ⟨rfl, hlt⟩
    exact ⟨rfl, by omega, by omega⟩

end

end ExprLang
