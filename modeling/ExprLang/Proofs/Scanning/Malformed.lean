import ExprLang.Proofs.Scanning.Longest
import ExprLang.Proofs.Scanning.Spacing

/-!
# `Proofs.Scanning.Malformed` — what is malformed, stated without a scanner

A text is malformed at its front in one of five ways, and `Malformed cause s` says which, in terms of
what can be written and not of how it is read: no lexeme and no gap starts with the character; the
text ends inside of a character literal, or the literal goes on; there is no quote that ends the
string, and nothing that ends the comment. A cut finds a fault exactly if this holds, and the fault
that it finds is the only one that does.

Whether a quote ends a string is told by the backslashes directly in front of it: they escape each
other in pairs, and an odd one escapes the quote.

## Contents
- `EndsEscaping`, `Piece.closeString_eq_none_iff`: strings without an end.
- `Piece.closeComment_eq_none_iff`: comments without an end.
- `Malformed`, `Piece.cut_eq_fault_iff`: the five faults.
- `Malformed.unique`, `Fault.message_injective`: a text has one fault, and a fault one message.
-/

namespace ExprLang

/-! ## Strings and comments without an end -/

/-- A character behind this text is escaped: an odd number of backslashes stands at its end. -/
def EndsEscaping (u : List Char) : Prop := (u.reverse.takeWhile (· = '\\')).length % 2 = 1

theorem not_endsEscaping_nil : ¬EndsEscaping [] := by
  simp [EndsEscaping]

theorem endsEscaping_cons {c : Char} (hc : c ≠ '\\') (u : List Char) :
    EndsEscaping (c :: u) ↔ EndsEscaping u := by
  unfold EndsEscaping
  rw [List.reverse_cons, List.takeWhile_append]
  split
  · next hall => simp [hc, hall]
  · rfl

/-- A backslash and the character that it takes along change nothing for what follows them. -/
theorem endsEscaping_escape (c : Char) (u : List Char) :
    EndsEscaping ('\\' :: c :: u) ↔ EndsEscaping u := by
  unfold EndsEscaping
  rw [List.reverse_cons, List.reverse_cons, List.append_assoc, List.takeWhile_append]
  split
  · next hall =>
    -- only backslashes follow, so the two characters count as two more or not at all
    by_cases hc : c = '\\' <;> simp [hc, hall]
  · rfl

namespace Piece

/-- **A string has no end** if every quote in it is escaped. -/
theorem closeString_eq_none_iff {s : List Char} :
    closeString s = none ↔ ∀ u v, s = u ++ '"' :: v → EndsEscaping u := by
  fun_induction closeString s with
  | case1 => simp
  | case2 rest =>
      constructor
      · intro h
        cases h
      · exact fun h => absurd (h [] rest rfl) not_endsEscaping_nil
  | case3 c rest ih =>
      rw [Option.map_eq_none_iff, ih]
      constructor
      · intro h u v hs
        rcases u with - | ⟨d, - | ⟨e, u⟩⟩
        · cases hs
        · cases hs
          simp [EndsEscaping]
        · cases hs
          exact (endsEscaping_escape c u).mpr (h u v rfl)
      · rintro h u v rfl
        exact (endsEscaping_escape c u).mp (h ('\\' :: c :: u) v rfl)
  | case4 c rest hquote hslash ih =>
      rw [Option.map_eq_none_iff, ih]
      by_cases hc : c = '\\'
      · -- a backslash with nothing behind it
        cases rest with
        | nil =>
            refine iff_of_true (by simp) fun u v hs => ?_
            rcases u with - | ⟨d, u⟩ <;> simp [hc] at hs
        | cons d rest => exact absurd rfl (hslash d rest hc)
      · constructor
        · intro h u v hs
          rcases u with - | ⟨d, u⟩
          · cases hs
            exact absurd rfl hquote
          · cases hs
            exact (endsEscaping_cons hc u).mpr (h u v rfl)
        · rintro h u v rfl
          exact (endsEscaping_cons hc u).mp (h (c :: u) v rfl)

/-- **A comment has no end** if the text starts with no balanced body. -/
theorem closeComment_eq_none_iff {s : List Char} :
    closeComment 0 s = none ↔ ∀ u, CommentBody u → ¬u <+: s := by
  constructor
  · rintro h u hu ⟨rest, rfl⟩
    rw [closeComment_eq_some_iff.mpr ⟨hu, rfl⟩] at h
    cases h
  · intro h
    rw [Option.eq_none_iff_forall_ne_some]
    rintro ⟨u, rest⟩ hclose
    obtain ⟨hu, happend⟩ := closeComment_eq_some_iff.mp hclose
    exact h u hu ⟨rest, happend⟩

end Piece

/-! ## The five faults -/

/-- The text is malformed at its front, for this cause. -/
inductive Malformed : Fault → List Char → Prop where
  /-- Neither a gap nor a lexeme starts with the character. -/
  | unexpected {c rest} (hgap : ∀ v, ¬Gap true (c :: v)) (hlexeme : ∀ k v, ¬Written k (c :: v)) :
      Malformed (.unexpected c) (c :: rest)
  /-- An exclamation mark is a symbol only together with an equals sign. -/
  | mark {rest} (hrest : rest.head? ≠ some '=') : Malformed (.unexpected '!') ('!' :: rest)
  | quote : Malformed .charCutShort ['\'']
  | quoted {c} : Malformed .charCutShort ['\'', c]
  | escaped {c} : Malformed .charCutShort ['\'', '\\', c]
  | quotedMore {c d rest} (hc : c ≠ '\\') (hd : d ≠ '\'') :
      Malformed .charUnclosed ('\'' :: c :: d :: rest)
  | escapedMore {c d rest} (hd : d ≠ '\'') :
      Malformed .charUnclosed ('\'' :: '\\' :: c :: d :: rest)
  | string {rest} (h : ∀ u v, rest = u ++ '"' :: v → EndsEscaping u) :
      Malformed .stringUnclosed ('"' :: rest)
  | comment {rest} (h : ∀ u, CommentBody u → ¬['/', '*'] ++ u <+: '/' :: '*' :: rest) :
      Malformed .commentUnclosed ('/' :: '*' :: rest)

namespace Piece

variable {c : Char} {s : List Char} {cause : Fault}

/-- What is no symbol is unexpected. -/
theorem symbol_eq_fault_iff :
    (∃ text rest, symbol c s = (.fault cause text, rest)) ↔
      cause = .unexpected c ∧ Kind.ofChar? c = none ∧
        ∀ d, s.head? = some d → Kind.ofPair? c d = none := by
  by_cases hpair : ∀ d, s.head? = some d → Kind.ofPair? c d = none
  · rw [symbol_of_single hpair]
    cases hk : Kind.ofChar? c with
    | some k => simp
    | none =>
        constructor
        · rintro ⟨text, rest, h⟩
          cases h
          exact ⟨rfl, rfl, hpair⟩
        · rintro ⟨rfl, -, -⟩
          exact ⟨_, _, rfl⟩
  · refine iff_of_false ?_ fun h => hpair h.2.2
    obtain ⟨d, hd⟩ := Classical.not_forall.mp hpair
    obtain ⟨hhead, hne⟩ := Classical.not_imp.mp hd
    obtain ⟨more, rfl⟩ := List.head?_eq_some_iff.mp hhead
    obtain ⟨k, hk⟩ := Option.ne_none_iff_exists'.mp hne
    rw [symbol_of_pair hk]
    rintro ⟨text, rest, h⟩
    cases h

/-- Only the exclamation mark is a symbol with another character and none without. -/
theorem eq_mark_of_ofPair? {d : Char} {k : Kind} (hsingle : Kind.ofChar? c = none)
    (h : Kind.ofPair? c d = some k) : c = '!' ∧ d = '=' := by
  unfold Kind.ofPair? at h
  split at h <;> first | exact ⟨rfl, rfl⟩ | cases hsingle | cases h

/-- A character of no class starts neither a gap nor a lexeme, or is an exclamation mark. -/
theorem malformed_of_symbol (hblank : isBlank c = false) (hname : isNameStart c = false)
    (hdigit : c.isDigit = false) (hquote : c ≠ '\'') (hdouble : c ≠ '"')
    (hsingle : Kind.ofChar? c = none)
    (hpair : ∀ d, s.head? = some d → Kind.ofPair? c d = none) :
    Malformed (.unexpected c) (c :: s) := by
  by_cases hmark : c = '!'
  · subst hmark
    refine .mark fun hhead => ?_
    cases hpair '=' hhead
  · have hslash : c ≠ '/' := by
      rintro rfl
      cases hsingle
    refine .unexpected (fun v hgap => ?_) fun k v hwritten => ?_
    · cases hgap with
      | blank hc =>
          have hblank' : isBlank c = true := isBlank_iff.mpr hc
          rw [hblank] at hblank'
          cases hblank'
      | line | lastLine | block => exact hslash rfl
    · cases hwritten with
      | word hc =>
          rw [isNameStart_iff.mpr hc] at hname
          cases hname
      | int hc | float hc =>
          rw [isDigit_iff.mpr hc] at hdigit
          cases hdigit
      | char | escape => exact hquote rfl
      | string => exact hdouble rfl
      | single hk =>
          rw [hsingle] at hk
          cases hk
      | pair hk => exact hmark (eq_mark_of_ofPair? hsingle hk).1

/-- A character literal that is none ends with the text, or goes on behind its character. -/
theorem malformed_of_charLiteral {text rest : List Char}
    (h : charLiteral s = (.fault cause text, rest)) : Malformed cause ('\'' :: s) := by
  revert h
  fun_cases charLiteral s with
  | case1 | case4 =>
      intro h
      cases h
  | case2 c d more hd =>
      intro h
      cases h
      exact .escapedMore fun hquote => hd hquote
  | case3 more _ hshort =>
      intro h
      cases h
      -- at most one character is left behind the backslash
      rcases more with - | ⟨c, - | ⟨d, more⟩⟩
      · exact .quoted
      · exact .escaped
      · exact absurd rfl (hshort c d more)
  | case5 c d more _ _ hc hd =>
      intro h
      cases h
      exact .quotedMore hc hd
  | case6 _ _ _ _ _ hshort =>
      intro h
      cases h
      rcases s with - | ⟨c, - | ⟨d, more⟩⟩
      · exact .quote
      · exact .quoted
      · exact absurd rfl (hshort c d more)

/-- What a cut finds malformed is so. -/
theorem malformed_of_cut {text rest : List Char} (h : cut c s = (.fault cause text, rest)) :
    Malformed cause (c :: s) := by
  unfold cut at h
  split at h
  · cases h
  next hblank =>
  split at h
  · cases h
  next hname =>
  split at h
  · have hnumber := isFault_number c s
    rw [h] at hnumber
    cases hnumber
  next hdigit =>
  split at h
  · next hquote =>
    subst hquote
    exact malformed_of_charLiteral h
  next hquote =>
  split at h
  · next hdouble =>
    subst hdouble
    unfold stringLiteral at h
    split at h
    · cases h
    · next hclose =>
      cases h
      exact .string (closeString_eq_none_iff.mp hclose)
  next hdouble =>
  have hsymbol (hsymbol : symbol c s = (.fault cause text, rest)) : Malformed cause (c :: s) := by
    obtain ⟨rfl, hsingle, hpair⟩ := symbol_eq_fault_iff.mp ⟨text, rest, hsymbol⟩
    exact malformed_of_symbol (by simpa using hblank) (by simpa using hname) (by simpa using hdigit)
      hquote hdouble hsingle hpair
  split at h
  · next hslash =>
    subst hslash
    unfold comment? at h
    split at h
    · cases h
    · split at h
      · cases h
      · next hclose =>
        cases h
        refine .comment fun u hu hstart => closeComment_eq_none_iff.mp hclose u hu ?_
        simpa using hstart
    · exact hsymbol h
  · exact hsymbol h

/-- A character that starts neither a gap nor a lexeme is of no class, and is no symbol. -/
theorem cut_of_unexpected (hgap : ∀ v, ¬Gap true (c :: v)) (hlexeme : ∀ k v, ¬Written k (c :: v)) :
    cut c s = (.fault (.unexpected c) [], c :: s) := by
  have hblank : ¬isBlank c = true := fun hc => hgap [] (.blank (isBlank_iff.mp hc) .nil)
  have hname : ¬isNameStart c = true := fun hc =>
    hlexeme _ [] (.word (isNameStart_iff.mp hc) (List.forall_mem_nil _))
  have hdigit : ¬c.isDigit = true := fun hc =>
    hlexeme _ [] (.int (isDigit_iff.mp hc) (List.forall_mem_nil _))
  have hquote : c ≠ '\'' := by
    rintro rfl
    exact hlexeme _ _ (.char (show 'a' ≠ '\\' by decide))
  have hdouble : c ≠ '"' := by
    rintro rfl
    exact hlexeme _ _ (.string .close)
  have hslash : c ≠ '/' := by
    rintro rfl
    exact hlexeme _ [] (.single rfl)
  have hsingle : Kind.ofChar? c = none :=
    Option.eq_none_iff_forall_ne_some.mpr fun k hk => hlexeme k [] (.single hk)
  have hpair (d : Char) : Kind.ofPair? c d = none :=
    Option.eq_none_iff_forall_ne_some.mpr fun k hk => hlexeme k [d] (.pair hk)
  rw [cut_symbol ⟨by simpa using hblank, by simpa using hname, by simpa using hdigit, hquote,
    hdouble⟩ hslash, symbol_of_single fun d _ => hpair d, hsingle]

/-- What is malformed is found so by a cut. -/
theorem cut_of_malformed (h : Malformed cause (c :: s)) :
    ∃ text rest, cut c s = (.fault cause text, rest) := by
  cases h with
  | unexpected hgap hlexeme => exact ⟨_, _, cut_of_unexpected hgap hlexeme⟩
  | mark hrest =>
      have hpair : ∀ d, s.head? = some d → Kind.ofPair? '!' d = none := by
        intro d hd
        rw [Option.eq_none_iff_forall_ne_some]
        intro k hk
        rw [(eq_mark_of_ofPair? rfl hk).2] at hd
        exact hrest hd
      have hclass : isBlank '!' = false ∧ isNameStart '!' = false ∧ '!'.isDigit = false ∧
          '!' ≠ '\'' ∧ '!' ≠ '"' := by decide
      refine ⟨[], '!' :: s, ?_⟩
      rw [cut_symbol hclass (by decide), symbol_of_single hpair]
      rfl
  | quote => exact ⟨_, _, cut_charLiteral []⟩
  | @quoted c =>
      rw [cut_charLiteral]
      by_cases hc : c = '\\'
      · subst hc
        exact ⟨_, _, rfl⟩
      · simp [charLiteral, hc]
  | escaped => exact ⟨_, _, cut_charLiteral _⟩
  | quotedMore hc hd =>
      rw [cut_charLiteral]
      simp [charLiteral, hc]
  | escapedMore hd =>
      rw [cut_charLiteral]
      simp [charLiteral]
  | string h =>
      rw [cut_stringLiteral, stringLiteral, closeString_eq_none_iff.mpr h]
      exact ⟨_, _, rfl⟩
  | @comment rest h =>
      have hclose : closeComment 0 rest = none := by
        refine closeComment_eq_none_iff.mpr fun u hu hstart => h u hu ?_
        simpa using hstart
      rw [cut_slash, comment?, hclose]
      exact ⟨_, _, rfl⟩

/-- **A cut finds a fault** exactly where the text is malformed. -/
theorem cut_eq_fault_iff :
    (∃ text rest, cut c s = (.fault cause text, rest)) ↔ Malformed cause (c :: s) := by
  constructor
  · rintro ⟨text, rest, h⟩
    exact malformed_of_cut h
  · exact cut_of_malformed

end Piece

theorem Malformed.exists_cons {cause : Fault} {s : List Char} (h : Malformed cause s) :
    ∃ c tail, s = c :: tail := by
  cases h <;> exact ⟨_, _, rfl⟩

/-- **A text is malformed for one cause** at most. -/
theorem Malformed.unique {cause cause' : Fault} {s : List Char} (h : Malformed cause s)
    (h' : Malformed cause' s) : cause = cause' := by
  obtain ⟨c, tail, rfl⟩ := h.exists_cons
  obtain ⟨text, rest, hcut⟩ := Piece.cut_eq_fault_iff.mpr h
  obtain ⟨text', rest', hcut'⟩ := Piece.cut_eq_fault_iff.mpr h'
  rw [hcut] at hcut'
  cases hcut'
  rfl

/-- **A message tells its cause**, the unexpected character included. -/
theorem Fault.message_injective {cause cause' : Fault} (h : cause.message = cause'.message) :
    cause = cause' := by
  unfold message at h
  cases cause with
  | unexpected c =>
      have hlist := congrArg String.toList h
      cases cause' with
      | unexpected d => simpa using hlist
      | _ => simp at hlist
  | _ =>
      have hlist := congrArg String.toList h
      cases cause' <;> first | rfl | simp at hlist

end ExprLang
