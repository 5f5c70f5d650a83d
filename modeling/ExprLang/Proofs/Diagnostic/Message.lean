import ExprLang.Proofs.Grammar.Diagnosis
import ExprLang.Proofs.Scanning.Malformed

/-!
# `Proofs.Diagnostic.Message` — messages of one line

No message has a line feed in it. Most of them are fixed texts; two of them quote the source, a
number without a value and a character that starts no token, and neither is or has a line feed.

## Contents
- `oneLine_of_cut`: what is wrong with a piece of text.
- `Token.Heads.oneLine`: the texts of tokens that messages quote.
- `Problem.OfToken.oneLine`, `Reported.oneLine`: what is reported of a text.
-/

namespace ExprLang

/-! ## Pieces -/

theorem oneLine_append {s t : String} (hs : OneLine s) (ht : OneLine t) : OneLine (s ++ t) := by
  unfold OneLine at hs ht ⊢
  rw [String.toList_append, List.mem_append, not_or]
  exact ⟨hs, ht⟩

theorem oneLine_ofList {text : List Char} (h : '\n' ∉ text) : OneLine (String.ofList text) := by
  unfold OneLine
  rwa [String.toList_ofList]

/-- Digits have no line feed among them. -/
theorem not_mem_digits {u : List Char} (hu : u.all Char.isDigit = true) : '\n' ∉ u := by
  intro hmem
  have hdigit := List.all_eq_true.mp hu '\n' hmem
  cases hdigit

theorem oneLine_toString (n : Nat) : OneLine (toString n) := by
  show '\n' ∉ n.repr.toList
  rw [Nat.toList_repr]
  intro hmem
  have hdigit := Nat.isDigit_of_mem_toDigits (by decide) (by decide) hmem
  cases hdigit

/-- **What is wrong with a piece of text** is told on one line. -/
theorem oneLine_of_cut {c : Char} {s text rest : List Char} {cause : Fault}
    (h : Piece.cut c s = (.fault cause text, rest)) : OneLine cause.message := by
  cases cause with
  | unexpected c' =>
      obtain rfl : c = c' := by cases Piece.malformed_of_cut h <;> rfl
      have hfeed : c ≠ '\n' := by
        rintro rfl
        rw [Piece.cut_of_isBlank rfl s] at h
        cases h
      show OneLine ("unexpected char '" ++ c.toString ++ "'")
      refine oneLine_append (oneLine_append (by decide) ?_) (by decide)
      show '\n' ∉ c.toString.toList
      simpa using hfeed.symm
  | _ => decide

section

variable {t : Token} {rest : List Char}

/-- The text of a malformed token, which is its message, and that of a number. -/
theorem Token.Heads.oneLine (h : t.Heads rest)
    (hk : t.kind = .error ∨ t.kind = .int ∨ t.kind = .float) : OneLine t.value := by
  cases h with
  | fault h => exact oneLine_of_cut h
  | lexeme h =>
      apply oneLine_ofList
      rcases hk with he | hint | hfloat
      · exact absurd he h.proper.2
      · obtain ⟨c, u, rfl, hc, hu⟩ := h.int_text hint
        exact not_mem_digits (by simp [hc, hu])
      · obtain ⟨c, u, v, rfl, hc, hu, hv⟩ := h.float_text hfloat
        have hwhole : '\n' ∉ c :: u := not_mem_digits (by simp [hc, hu])
        have hpoint : '\n' ∉ '.' :: v := by simpa using not_mem_digits hv
        exact fun hmem => (List.mem_append.mp hmem).elim hwhole hpoint

end

/-! ## Diagnostics -/

/-- What a rule has to say of a token is told on one line, if the text of a number is. -/
theorem Problem.OfToken.oneLine {t : Token} {problem : Problem} (h : problem.OfToken t)
    (hnumber : t.kind = .int ∨ t.kind = .float → OneLine t.value) : OneLine problem.message := by
  cases problem with
  | expected what => exact oneLine_append (by decide) h
  | expectedValue => exact show OneLine Problem.expectedValue.message by decide
  | notImplemented construct => exact oneLine_append h (by decide)
  | badNumber text =>
      obtain ⟨rfl, hk⟩ := h
      exact oneLine_append (oneLine_append (by decide) (hnumber hk)) (by decide)
  | lexical | assignmentNotAllowed => exact h.elim

section

variable {source : String}

theorem oneLine_value {t : Token} (h : t ∈ tokenize source)
    (hk : t.kind = .error ∨ t.kind = .int ∨ t.kind = .float) : OneLine t.value := by
  have ht : t.kind ≠ .eof := by rcases hk with hk | hk | hk <;> simp [hk]
  obtain ⟨rest, -, hheads⟩ := exists_heads (mem_tokensBeforeEnd h ht)
  exact hheads.oneLine hk

theorem oneLine_diagnose {s : TokenStream} (hs : s.peek ∈ tokenize source) {problem : Problem}
    (h : problem.OfToken s.peek) : OneLine (s.diagnose problem).message := by
  unfold TokenStream.diagnose
  by_cases he : s.peek.kind = .error
  · rw [if_pos (by simp [Token.is, he])]
    exact oneLine_value hs (Or.inl he)
  · rw [if_neg (by simpa [Token.is] using he)]
    exact h.oneLine fun hk => oneLine_value hs (Or.inr hk)

/-- **What is reported** is told on one line. -/
theorem Reported.oneLine {d : Diagnostic} (h : Reported source d) : OneLine (toString d) := by
  have hmessage : OneLine d.message := by
    obtain ⟨s', horderly⟩ := h.orderly
    cases horderly with
    | stopped hpasses hproblem => exact oneLine_diagnose (peek_mem hpasses) hproblem
    | disallowed => exact show OneLine Problem.assignmentNotAllowed.message by decide
  have hposition : OneLine (toString d.position) :=
    oneLine_append (oneLine_append (oneLine_toString _) (by decide)) (oneLine_toString _)
  exact oneLine_append (oneLine_append (oneLine_append (by decide) hmessage) (by decide)) hposition

end
end ExprLang
