import ExprLang.Token.Lexeme

/-!
# `Proofs.Scanning.Lexeme` — what a cut finds

The readers of the scanner are stated here without their control flow. `Lexeme k text rest` says
that `text` is written as a token of kind `k` and that `rest`, which stands behind it, does not go
on with it; a cut finds a token exactly if this holds. Strings and comments have a body of their own,
which a reader finds exactly if it is one.

## Contents
- `StringBody`, `CommentBody`: literals and comments from behind their opening, as grammars.
- `closeString_eq_some_iff`, `closeComment_eq_some_iff`: the readers find these bodies.
- `Lexeme`, `cut_eq_token_iff`: tokens.
- `cut_blank`, `cut_lineComment`, `cut_blockComment`, `cut_eq_gap`: gaps.
-/

namespace ExprLang

/-! ## Bodies -/

/-- A string from behind its opening quote, the closing quote included. A backslash takes the
    character after it along. -/
inductive StringBody : List Char → Prop where
  | close : StringBody ['"']
  | escaped {c u} (h : StringBody u) : StringBody ('\\' :: c :: u)
  | plain {c u} (hquote : c ≠ '"') (hslash : c ≠ '\\') (h : StringBody u) : StringBody (c :: u)

/-- A block comment from behind its opening, its end included. Comments nest, and are balanced. -/
inductive CommentBody : List Char → Prop where
  | close : CommentBody ['*', '/']
  | nested {u v} (hu : CommentBody u) (hv : CommentBody v) : CommentBody ('/' :: '*' :: (u ++ v))
  | plain {c u} (hopen : ¬(c = '/' ∧ u.head? = some '*')) (hclose : ¬(c = '*' ∧ u.head? = some '/'))
      (h : CommentBody u) : CommentBody (c :: u)

theorem CommentBody.exists_cons {u : List Char} (h : CommentBody u) : ∃ c v, u = c :: v := by
  cases h with
  | close => exact ⟨_, _, rfl⟩
  | nested => exact ⟨_, _, rfl⟩
  | plain => exact ⟨_, _, rfl⟩

/-- What follows a body is looked at only behind its end. -/
theorem CommentBody.head?_append {u : List Char} (h : CommentBody u) (rest : List Char) :
    (u ++ rest).head? = u.head? := by
  obtain ⟨c, v, rfl⟩ := h.exists_cons
  rfl

/-- The bodies of so many comments, one after the other, and of one more around them. -/
inductive CommentBodies : Nat → List Char → Prop where
  | last {u} (h : CommentBody u) : CommentBodies 0 u
  | more {depth u v} (hu : CommentBody u) (hv : CommentBodies depth v) :
      CommentBodies (depth + 1) (u ++ v)

/-- A character in front that neither opens nor closes a comment belongs to the first body. -/
theorem CommentBodies.cons {depth : Nat} {c : Char} {u : List Char}
    (hopen : ¬(c = '/' ∧ u.head? = some '*')) (hclose : ¬(c = '*' ∧ u.head? = some '/'))
    (h : CommentBodies depth u) : CommentBodies depth (c :: u) := by
  cases h with
  | last hu => exact .last (.plain hopen hclose hu)
  | @more depth u v hu hv =>
      rw [hu.head?_append] at hopen hclose
      rw [← List.cons_append]
      exact .more (.plain hopen hclose hu) hv

theorem CommentBodies.head?_append {depth : Nat} {u : List Char} (h : CommentBodies depth u)
    (rest : List Char) : (u ++ rest).head? = u.head? := by
  cases h with
  | last hu => exact hu.head?_append rest
  | more hu _ => rw [List.append_assoc, hu.head?_append, hu.head?_append]

namespace Piece

theorem closeString_cons {c : Char} (hquote : c ≠ '"') (hslash : c ≠ '\\') (s : List Char) :
    closeString (c :: s) = (closeString s).map fun (body, rest) => (c :: body, rest) := by
  rw [closeString]
  · exact hquote
  · intro c' rest' hc
    exact absurd hc hslash

theorem closeString_sound {s u rest : List Char} (h : closeString s = some (u, rest)) :
    StringBody u := by
  fun_induction closeString s generalizing u rest with
  | case1 => cases h
  | case2 => cases h; exact .close
  | case3 c more ih =>
      obtain ⟨⟨body, rest'⟩, hbody, heq⟩ := Option.map_eq_some_iff.mp h
      cases heq
      exact .escaped (ih hbody)
  | case4 c more hquote hslash ih =>
      obtain ⟨⟨body, rest'⟩, hbody, heq⟩ := Option.map_eq_some_iff.mp h
      cases heq
      refine .plain (fun hc => hquote hc) (fun hc => ?_) (ih hbody)
      -- a backslash with nothing behind it closes nothing
      cases more with
      | nil => cases hbody
      | cons d more => exact hslash d more hc rfl

theorem closeString_complete {u : List Char} (h : StringBody u) (rest : List Char) :
    closeString (u ++ rest) = some (u, rest) := by
  induction h with
  | close => rfl
  | escaped _ ih =>
      rw [List.cons_append, List.cons_append, closeString, ih]
      rfl
  | plain hquote hslash _ ih =>
      rw [List.cons_append, closeString_cons hquote hslash, ih]
      rfl

/-- **A string is closed** exactly behind a body. -/
theorem closeString_eq_some_iff {s u rest : List Char} :
    closeString s = some (u, rest) ↔ StringBody u ∧ u ++ rest = s := by
  constructor
  · intro h
    exact ⟨closeString_sound h, closeString_eq h⟩
  · rintro ⟨hu, rfl⟩
    exact closeString_complete hu rest

/-! ### Comments -/

theorem closeComment_cons {c : Char} {s : List Char} (hopen : ¬(c = '/' ∧ s.head? = some '*'))
    (hclose : ¬(c = '*' ∧ s.head? = some '/')) (depth : Nat) :
    closeComment depth (c :: s) =
      (closeComment depth s).map fun (body, rest) => (c :: body, rest) := by
  rw [closeComment]
  · rintro rest rfl rfl
    exact hopen ⟨rfl, rfl⟩
  · rintro rest - rfl rfl
    exact hclose ⟨rfl, rfl⟩
  · rintro _ rest - rfl rfl
    exact hclose ⟨rfl, rfl⟩

theorem closeComment_sound {depth : Nat} {s u rest : List Char}
    (h : closeComment depth s = some (u, rest)) : CommentBodies depth u := by
  fun_induction closeComment depth s generalizing u rest with
  | case1 => cases h
  | case2 depth more ih =>
      obtain ⟨⟨body, rest'⟩, hbody, heq⟩ := Option.map_eq_some_iff.mp h
      cases heq
      -- the comment that was opened is nested in the one around it
      cases ih hbody with
      | more hu hv =>
          cases hv with
          | last hv => exact .last (.nested hu hv)
          | @more _ v w hv hw =>
              have hjoined := CommentBodies.more (.nested hu hv) hw
              simpa using hjoined
  | case3 more => cases h; exact .last .close
  | case4 depth more ih =>
      obtain ⟨⟨body, rest'⟩, hbody, heq⟩ := Option.map_eq_some_iff.mp h
      cases heq
      exact .more .close (ih hbody)
  | case5 depth c more hopen hclose hclose' ih =>
      obtain ⟨⟨body, rest'⟩, hbody, heq⟩ := Option.map_eq_some_iff.mp h
      cases heq
      have hhead := (ih hbody).head?_append rest
      rw [closeComment_eq hbody] at hhead
      refine (ih hbody).cons ?_ ?_
      · rintro ⟨hc, hstar⟩
        rw [← hhead, List.head?_eq_some_iff] at hstar
        obtain ⟨tail, htail⟩ := hstar
        exact hopen tail hc htail
      · rintro ⟨hc, hslash⟩
        rw [← hhead, List.head?_eq_some_iff] at hslash
        obtain ⟨tail, htail⟩ := hslash
        cases depth with
        | zero => exact hclose tail rfl hc htail
        | succ depth => exact hclose' depth tail rfl hc htail

/-- One body closes one comment. -/
theorem closeComment_append {u : List Char} (h : CommentBody u) (rest : List Char) :
    closeComment 0 (u ++ rest) = some (u, rest) ∧
      ∀ depth, closeComment (depth + 1) (u ++ rest) =
        (closeComment depth rest).map fun (body, rest') => (u ++ body, rest') := by
  induction h generalizing rest with
  | close => exact ⟨rfl, fun depth => by simp [closeComment]⟩
  | @nested u v _ _ ihu ihv =>
      have happend : '/' :: '*' :: (u ++ v) ++ rest = '/' :: '*' :: (u ++ (v ++ rest)) := by simp
      rw [happend]
      refine ⟨?_, fun depth => ?_⟩
      · rw [closeComment, (ihu _).2, (ihv _).1]
        rfl
      · rw [closeComment, (ihu _).2, (ihv _).2, Option.map_map, Option.map_map]
        congr 1
        funext ⟨body, rest'⟩
        simp
  | @plain c u hopen hclose hu ih =>
      rw [← hu.head?_append rest] at hopen hclose
      refine ⟨?_, fun depth => ?_⟩
      · rw [List.cons_append, closeComment_cons hopen hclose, (ih rest).1]
        rfl
      · rw [List.cons_append, closeComment_cons hopen hclose, (ih rest).2, Option.map_map]
        rfl

/-- **A block comment is closed** exactly behind a body. -/
theorem closeComment_eq_some_iff {s u rest : List Char} :
    closeComment 0 s = some (u, rest) ↔ CommentBody u ∧ u ++ rest = s := by
  constructor
  · intro h
    refine ⟨?_, closeComment_eq h⟩
    cases closeComment_sound h with
    | last hu => exact hu
  · rintro ⟨hu, rfl⟩
    exact (closeComment_append hu rest).1

end Piece

/-! ## Tokens -/

/-- No symbol of two characters ends with a blank. -/
theorem Kind.ofPair?_of_isBlank {c d : Char} (hd : isBlank d = true) :
    Kind.ofPair? c d = none := by
  unfold Kind.ofPair?
  split <;> first | rfl | cases hd

/-- The list starts with an element that satisfies `p`. -/
def HeadIs {α : Type} (p : α → Bool) (s : List α) : Prop := ∃ c, s.head? = some c ∧ p c = true

/-- The text is written as a token of kind `k`, and what stands behind it does not go on with it. -/
inductive Lexeme : Kind → List Char → List Char → Prop where
  | word {c u rest} (hc : isNameStart c = true) (hu : u.all isNamePart = true)
      (hrest : ¬HeadIs isNamePart rest) :
      Lexeme (Kind.ofWord (String.ofList (c :: u))) (c :: u) rest
  | int {c u rest} (hc : c.isDigit = true) (hu : u.all Char.isDigit = true)
      (hrest : ¬HeadIs Char.isDigit rest) (hpoint : rest.head? ≠ some '.') :
      Lexeme .int (c :: u) rest
  | float {c u v rest} (hc : c.isDigit = true) (hu : u.all Char.isDigit = true)
      (hv : v.all Char.isDigit = true) (hrest : ¬HeadIs Char.isDigit rest) :
      Lexeme .float (c :: u ++ '.' :: v) rest
  | char {c rest} (hc : c ≠ '\\') : Lexeme .char ['\'', c, '\''] rest
  | escape {c rest} : Lexeme .char ['\'', '\\', c, '\''] rest
  | string {u rest} (hu : StringBody u) : Lexeme .string ('"' :: u) rest
  | single {k c rest} (hk : Kind.ofChar? c = some k)
      (hrest : ∀ d, rest.head? = some d → Kind.ofPair? c d = none)
      (hcomment : c = '/' → rest.head? ≠ some '/' ∧ rest.head? ≠ some '*') : Lexeme k [c] rest
  | pair {k c d rest} (hk : Kind.ofPair? c d = some k) : Lexeme k [c, d] rest

namespace Piece

/-- A run ends where the next element is of another class. -/
theorem span_append {α : Type} {p : α → Bool} {u rest : List α} (hu : u.all p = true)
    (hrest : ¬HeadIs p rest) :
    (u ++ rest).takeWhile p = u ∧ (u ++ rest).dropWhile p = rest := by
  induction u with
  | nil =>
      cases rest with
      | nil => exact ⟨rfl, rfl⟩
      | cons c rest =>
          have hc : ¬p c = true := fun hc => hrest ⟨c, rfl, hc⟩
          simp [hc]
  | cons c u ih =>
      obtain ⟨hc, hu⟩ := Bool.and_eq_true_iff.mp hu
      obtain ⟨htake, hdrop⟩ := ih hu
      simp [hc, htake, hdrop]

theorem not_headIs_dropWhile (p : Char → Bool) (s : List Char) : ¬HeadIs p (s.dropWhile p) := by
  rintro ⟨c, hhead, hc⟩
  have hnot := List.head?_dropWhile_not p s
  rw [hhead] at hnot
  simp [hc] at hnot

/-! ### The first character decides -/

theorem isNameStart_of_isBlank {c : Char} (h : isBlank c = true) : isNameStart c = false := by
  simp only [isBlank, Bool.or_eq_true, decide_eq_true_eq] at h
  rcases h with ((rfl | rfl) | rfl) | rfl <;> decide

theorem isDigit_of_isBlank {c : Char} (h : isBlank c = true) : c.isDigit = false := by
  simp only [isBlank, Bool.or_eq_true, decide_eq_true_eq] at h
  rcases h with ((rfl | rfl) | rfl) | rfl <;> decide

/-- Digits come before all letters. -/
theorem not_letter_of_isDigit {c : Char} (h : c.isDigit = true) :
    ¬ 'A'.val ≤ c.val ∧ ¬ 'a'.val ≤ c.val := by
  have hnine : c.toNat ≤ 57 := (Char.isDigit_iff_toNat.mp h).2
  constructor
  · intro hle
    have hcapital : 65 ≤ c.toNat := UInt32.le_iff_toNat_le.mp hle
    omega
  · intro hle
    have hsmall : 97 ≤ c.toNat := UInt32.le_iff_toNat_le.mp hle
    omega

theorem isUpper_of_isDigit {c : Char} (h : c.isDigit = true) : c.isUpper = false :=
  decide_eq_false fun hrange => (not_letter_of_isDigit h).1 hrange.1

theorem isLower_of_isDigit {c : Char} (h : c.isDigit = true) : c.isLower = false := by
  show (decide ('a'.val ≤ c.val) && decide (c.val ≤ 'z'.val)) = false
  rw [decide_eq_false (not_letter_of_isDigit h).2, Bool.false_and]

theorem isNameStart_of_isDigit {c : Char} (h : c.isDigit = true) : isNameStart c = false := by
  have hne : ∀ d : Char, d.isDigit = false → c ≠ d := by
    rintro d hd rfl
    rw [h] at hd
    cases hd
  have halpha : c.isAlpha = false := by
    show (c.isUpper || c.isLower) = false
    rw [isUpper_of_isDigit h, isLower_of_isDigit h]
    rfl
  simp [isNameStart, halpha, hne '_' (by decide), hne 'æ' (by decide), hne 'ø' (by decide),
    hne 'å' (by decide), hne 'Æ' (by decide), hne 'Ø' (by decide), hne 'Å' (by decide)]

/-- A symbol starts with a character of no other class. -/
theorem class_of_ofChar? {c : Char} {k : Kind} (h : Kind.ofChar? c = some k) :
    isBlank c = false ∧ isNameStart c = false ∧ c.isDigit = false ∧ c ≠ '\'' ∧ c ≠ '"' := by
  unfold Kind.ofChar? at h
  split at h <;> first | decide | cases h

theorem class_of_ofPair? {c d : Char} {k : Kind} (h : Kind.ofPair? c d = some k) :
    isBlank c = false ∧ isNameStart c = false ∧ c.isDigit = false ∧ c ≠ '\'' ∧ c ≠ '"' := by
  unfold Kind.ofPair? at h
  split at h <;> first | decide | cases h

theorem cut_of_isBlank {c : Char} (h : isBlank c = true) (s : List Char) :
    cut c s = (.gap (c :: s.takeWhile isBlank), s.dropWhile isBlank) := by
  simp [cut, h]

theorem cut_of_isNameStart {c : Char} (h : isNameStart c = true) (s : List Char) :
    cut c s = word c s := by
  cases hblank : isBlank c with
  | true => simp [isNameStart_of_isBlank hblank] at h
  | false => simp [cut, hblank, h]

theorem cut_of_isDigit {c : Char} (h : c.isDigit = true) (s : List Char) :
    cut c s = number c s := by
  cases hblank : isBlank c with
  | true => simp [isDigit_of_isBlank hblank] at h
  | false => simp [cut, hblank, isNameStart_of_isDigit h, h]

/-- A number is never malformed. -/
theorem isFault_number (c : Char) (s : List Char) : (number c s).1.isFault = false := by
  unfold number
  split <;> rfl

theorem cut_charLiteral (s : List Char) : cut '\'' s = charLiteral s := by
  simp [cut, show isBlank '\'' = false by decide, show isNameStart '\'' = false by decide]

theorem cut_stringLiteral (s : List Char) : cut '"' s = stringLiteral s := by
  simp [cut, show isBlank '"' = false by decide, show isNameStart '"' = false by decide]

theorem cut_slash (s : List Char) : cut '/' s = (comment? s).getD (symbol '/' s) := by
  simp [cut, show isBlank '/' = false by decide, show isNameStart '/' = false by decide]

theorem cut_symbol {c : Char} (h : isBlank c = false ∧ isNameStart c = false ∧ c.isDigit = false ∧
    c ≠ '\'' ∧ c ≠ '"') (hslash : c ≠ '/') (s : List Char) : cut c s = symbol c s := by
  obtain ⟨hblank, hname, hdigit, hquote, hdouble⟩ := h
  simp [cut, *]

/-! ### Soundness -/

section

variable {c : Char} {s text rest : List Char} {k : Kind}

theorem word_sound (hc : isNameStart c = true) (h : word c s = (.token k text, rest)) :
    Lexeme k text rest := by
  cases h
  exact .word hc List.all_takeWhile (not_headIs_dropWhile isNamePart s)

theorem number_sound (hc : c.isDigit = true) (h : number c s = (.token k text, rest)) :
    Lexeme k text rest := by
  have hrest := not_headIs_dropWhile Char.isDigit s
  unfold number at h
  split at h
  · next more heq =>
    cases h
    exact .float hc List.all_takeWhile List.all_takeWhile (not_headIs_dropWhile Char.isDigit more)
  · next hpoint =>
    cases h
    refine .int hc List.all_takeWhile hrest ?_
    intro hhead
    obtain ⟨more, hmore⟩ := List.head?_eq_some_iff.mp hhead
    exact hpoint more hmore

theorem charLiteral_sound (h : charLiteral s = (.token k text, rest)) : Lexeme k text rest := by
  revert h
  fun_cases charLiteral s with
  | case1 c more =>
      intro h
      cases h
      exact .escape
  | case4 c more _ _ hslash =>
      intro h
      cases h
      exact .char fun hc => hslash hc
  | _ =>
      intro h
      cases h

theorem stringLiteral_sound (h : stringLiteral s = (.token k text, rest)) :
    Lexeme k text rest := by
  unfold stringLiteral at h
  split at h
  · next body rest' hbody =>
    cases h
    exact .string (closeString_eq_some_iff.mp hbody).1
  · cases h

theorem symbol_of_pair {d : Char} (h : Kind.ofPair? c d = some k) (s : List Char) :
    symbol c (d :: s) = (.token k [c, d], s) := by
  simp [symbol, h]

/-- A symbol is of one character if the next one does not make a pair with it. -/
theorem symbol_of_single (h : ∀ d, s.head? = some d → Kind.ofPair? c d = none) :
    symbol c s = match Kind.ofChar? c with
      | some k => (.token k [c], s)
      | none => (.fault (.unexpected c) [], c :: s) := by
  cases s with
  | nil => rfl
  | cons d more =>
      have hd := h d rfl
      rw [symbol]
      generalize Kind.ofPair? c d = pair at hd ⊢
      subst hd
      rfl

theorem symbol_sound (hcomment : c = '/' → s.head? ≠ some '/' ∧ s.head? ≠ some '*')
    (h : symbol c s = (.token k text, rest)) : Lexeme k text rest := by
  by_cases hpair : ∀ d, s.head? = some d → Kind.ofPair? c d = none
  · rw [symbol_of_single hpair] at h
    split at h
    · next k' hk =>
      cases h
      exact .single hk hpair hcomment
    · cases h
  · obtain ⟨d, hd⟩ := Classical.not_forall.mp hpair
    obtain ⟨hhead, hne⟩ := Classical.not_imp.mp hd
    obtain ⟨more, rfl⟩ := List.head?_eq_some_iff.mp hhead
    obtain ⟨k', hk⟩ := Option.ne_none_iff_exists'.mp hne
    rw [symbol_of_pair hk] at h
    cases h
    exact .pair hk

theorem comment?_sound {piece : Piece} (h : comment? s = some (piece, rest)) :
    piece ≠ .token k text := by
  unfold comment? at h
  split at h
  · cases h
    exact Piece.noConfusion
  · split at h <;> cases h <;> exact Piece.noConfusion
  · cases h

theorem comment?_eq_none (h : comment? s = none) : s.head? ≠ some '/' ∧ s.head? ≠ some '*' := by
  constructor <;> intro hhead <;> obtain ⟨more, rfl⟩ := List.head?_eq_some_iff.mp hhead
  · cases h
  · simp only [comment?] at h
    split at h <;> cases h

theorem cut_sound (h : cut c s = (.token k text, rest)) : Lexeme k text rest := by
  unfold cut at h
  split at h
  · cases h
  split at h
  · next hc => exact word_sound hc h
  split at h
  · next hc => exact number_sound hc h
  split at h
  · exact charLiteral_sound h
  split at h
  · exact stringLiteral_sound h
  split at h
  · cases hcomment : comment? s with
    | some found =>
        rw [hcomment] at h
        cases h
        exact absurd rfl (comment?_sound hcomment)
    | none =>
        rw [hcomment] at h
        exact symbol_sound (fun _ => comment?_eq_none hcomment) h
  · next hc => exact symbol_sound (fun hslash => absurd hslash hc) h

end

/-! ### Completeness -/

/-- A character literal whose character is not a backslash. -/
theorem charLiteral_of_ne {c : Char} (hc : c ≠ '\\') (rest : List Char) :
    charLiteral (c :: '\'' :: rest) = (.token .char ['\'', c, '\''], rest) := by
  rw [charLiteral]
  all_goals
    intros
    exact hc ‹_›

theorem comment?_of_head {s : List Char} (h : s.head? ≠ some '/' ∧ s.head? ≠ some '*') :
    comment? s = none := by
  unfold comment?
  split
  · exact absurd rfl h.1
  · exact absurd rfl h.2
  · rfl

theorem cut_complete {k : Kind} {text rest : List Char} (h : Lexeme k text rest) :
    ∃ c u, text = c :: u ∧ cut c (u ++ rest) = (.token k text, rest) := by
  cases h with
  | @word c u _ hc hu hrest =>
      refine ⟨c, u, rfl, ?_⟩
      obtain ⟨htake, hdrop⟩ := span_append hu hrest
      rw [cut_of_isNameStart hc, word, htake, hdrop]
  | @int c u _ hc hu hrest hpoint =>
      refine ⟨c, u, rfl, ?_⟩
      obtain ⟨htake, hdrop⟩ := span_append hu hrest
      rw [cut_of_isDigit hc, number, htake, hdrop]
      split
      · exact absurd rfl hpoint
      · rfl
  | @float c u v _ hc hu hv hrest =>
      refine ⟨c, u ++ '.' :: v, rfl, ?_⟩
      have hpoint : ¬HeadIs Char.isDigit ('.' :: (v ++ rest)) := by
        rintro ⟨d, hd, hdigit⟩
        cases hd
        cases hdigit
      obtain ⟨htake, hdrop⟩ := span_append hu hpoint
      obtain ⟨htake', hdrop'⟩ := span_append hv hrest
      have happend : u ++ '.' :: v ++ rest = u ++ '.' :: (v ++ rest) := by simp
      rw [cut_of_isDigit hc, number, happend, htake, hdrop]
      simp only [htake', hdrop']
  | @char c _ hc =>
      exact ⟨'\'', [c, '\''], rfl, (cut_charLiteral _).trans (charLiteral_of_ne hc rest)⟩
  | @escape c _ => exact ⟨'\'', ['\\', c, '\''], rfl, cut_charLiteral _⟩
  | @string u _ hu =>
      refine ⟨'"', u, rfl, ?_⟩
      rw [cut_stringLiteral, stringLiteral, closeString_eq_some_iff.mpr ⟨hu, rfl⟩]
  | @single k c _ hk hrest hcomment =>
      refine ⟨c, [], rfl, ?_⟩
      have hsymbol : symbol c rest = (.token k [c], rest) := by
        rw [symbol_of_single hrest, hk]
      by_cases hslash : c = '/'
      · subst hslash
        rw [List.nil_append, cut_slash, comment?_of_head (hcomment rfl)]
        exact hsymbol
      · rw [List.nil_append, cut_symbol (class_of_ofChar? hk) hslash]
        exact hsymbol
  | @pair k c d _ hk =>
      refine ⟨c, [d], rfl, ?_⟩
      have hsymbol := symbol_of_pair hk rest
      by_cases hslash : c = '/'
      · subst hslash
        have hhead : (d :: rest).head? ≠ some '/' ∧ (d :: rest).head? ≠ some '*' := by
          constructor <;> rintro hd <;> cases hd <;> cases hk
        rw [List.singleton_append, cut_slash, comment?_of_head hhead]
        exact hsymbol
      · rw [List.singleton_append, cut_symbol (class_of_ofPair? hk) hslash]
        exact hsymbol

/-- **A cut finds a token** exactly where one is written. -/
theorem cut_eq_token_iff {c : Char} {s : List Char} {k : Kind} {text rest : List Char} :
    cut c s = (.token k text, rest) ↔ Lexeme k text rest ∧ text ++ rest = c :: s := by
  constructor
  · intro h
    have happend := text_append_cut c s
    rw [h] at happend
    exact ⟨cut_sound h, happend⟩
  · rintro ⟨hlexeme, happend⟩
    obtain ⟨c', u, rfl, hcut⟩ := cut_complete hlexeme
    cases happend
    exact hcut

/-! ## Gaps -/

theorem cut_lineComment (s : List Char) :
    cut '/' ('/' :: s) =
      (.gap ('/' :: '/' :: s.takeWhile (· ≠ '\n')), s.dropWhile (· ≠ '\n')) := by
  rw [cut_slash]
  rfl

theorem cut_blockComment {u : List Char} (hu : CommentBody u) (rest : List Char) :
    cut '/' ('*' :: (u ++ rest)) = (.gap ('/' :: '*' :: u), rest) := by
  rw [cut_slash, comment?, closeComment_eq_some_iff.mpr ⟨hu, rfl⟩]
  rfl

theorem symbol_ne_gap {c : Char} {s text rest : List Char} : symbol c s ≠ (.gap text, rest) := by
  intro h
  unfold symbol at h
  repeat' split at h
  all_goals cases h

/-- A gap is a run of blanks, a line comment or a block comment. -/
theorem cut_eq_gap {c : Char} {s text rest : List Char} (h : cut c s = (.gap text, rest)) :
    isBlank c = true ∨ (c = '/' ∧ ∃ u, s = '/' :: u) ∨
      (c = '/' ∧ ∃ u, CommentBody u ∧ s = '*' :: (u ++ rest)) := by
  unfold cut at h
  split at h
  · next hblank => exact Or.inl hblank
  refine Or.inr ?_
  split at h
  · cases h
  split at h
  · unfold number at h
    split at h <;> cases h
  split at h
  · revert h
    fun_cases charLiteral s <;> intro h <;> cases h
  split at h
  · unfold stringLiteral at h
    split at h <;> cases h
  split at h
  · next hslash =>
    subst hslash
    unfold comment? at h
    split at h
    · next u => exact Or.inl ⟨rfl, u, rfl⟩
    · next u =>
      split at h
      · next body rest' hclose =>
        cases h
        obtain ⟨hbody, happend⟩ := closeComment_eq_some_iff.mp hclose
        exact Or.inr ⟨rfl, body, hbody, by rw [happend]⟩
      · cases h
    · exact absurd h symbol_ne_gap
  · exact absurd h symbol_ne_gap

end Piece
end ExprLang
