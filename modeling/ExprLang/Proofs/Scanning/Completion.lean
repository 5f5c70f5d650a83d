import ExprLang.Proofs.Scanning.Place
import ExprLang.Proofs.Scanning.Reaching

/-!
# `Proofs.Scanning.Completion` — incomplete input and invalid input

A text that ends too early can be completed: what is missing of the literal or of the comment is put
behind it, and then nothing is malformed. For a comment this takes one end for each comment that is
open, and a blank in front of them, so that they do not join a slash or a star at the end of the
text; for a string one character to be escaped, in case the text ends with a backslash. A text that
is invalid stays so whatever is put behind it, and fails in the same place for the same cause.

Which of the two it is is told by the cause alone, except for an exclamation mark at the end of the
text, which can become a symbol.

## Contents
- `Fault.Incomplete`: faults of texts that end too early.
- `Malformed.append`: invalid texts stay invalid.
- `StringBody.of_closeString`, `exists_closeComment`: the ends of strings and of comments.
- `Malformed.completed`: incomplete texts can be completed.
- `incomplete_or_invalid`: source texts.
-/

namespace ExprLang

/-- The text ended before the piece did. -/
def Fault.Incomplete : Fault → Prop
  | charCutShort | stringUnclosed | commentUnclosed => True
  | unexpected _ | charUnclosed => False

/-! ## Invalid texts -/

/-- **What is invalid stays invalid**, unless it is an exclamation mark at the end of the text. -/
theorem Malformed.append {cause : Fault} {rest : List Char} (h : Malformed cause rest)
    (hcause : ¬cause.Incomplete) (hmark : rest ≠ ['!']) (t : List Char) :
    Malformed cause (rest ++ t) := by
  cases h with
  | unexpected hgap hlexeme => exact .unexpected hgap hlexeme
  | @mark rest hrest =>
      refine .mark ?_
      cases rest with
      | nil => exact absurd rfl hmark
      | cons c rest => exact hrest
  | quotedMore hc hd => exact .quotedMore hc hd
  | escapedMore hd => exact .escapedMore hd
  | quote | quoted | escaped | string | comment => exact absurd trivial hcause

/-! ## Incomplete texts -/

/-- A character and a quote end every string: one of the two is not escaped. -/
theorem StringBody.of_closeString {s : List Char} (h : Piece.closeString s = none) :
    StringBody (s ++ ['a', '"']) := by
  fun_induction Piece.closeString s with
  | case1 => exact .plain (by decide) (by decide) .close
  | case2 => cases h
  | case3 c rest ih => exact .escaped (ih (Option.map_eq_none_iff.mp h))
  | case4 c rest hquote hslash ih =>
      have hbody := ih (Option.map_eq_none_iff.mp h)
      by_cases hc : c = '\\'
      · -- a backslash at the end takes the character along, and the quote is left
        cases rest with
        | nil =>
            subst hc
            exact .escaped .close
        | cons d rest => exact absurd rfl (hslash d rest hc)
      · exact .plain hquote hc hbody

/-- The ends of so many comments, one after the other, and of one more around them. -/
def commentEnds : Nat → List Char
  | 0 => ['*', '/']
  | depth + 1 => '*' :: '/' :: commentEnds depth

theorem closeComment_commentEnds (depth : Nat) :
    Piece.closeComment depth (commentEnds depth) = some (commentEnds depth, []) := by
  induction depth with
  | zero => rfl
  | succ depth ih => rw [commentEnds, Piece.closeComment, ih]; rfl

/-- **Every comment can be ended**, behind a blank, whatever is open at the end of the text. -/
theorem exists_closeComment {depth : Nat} {s : List Char} (h : Piece.closeComment depth s = none) :
    ∃ t, Piece.closeComment depth (s ++ ' ' :: t) = some (s ++ ' ' :: t, []) := by
  fun_induction Piece.closeComment depth s with
  | case1 depth =>
      refine ⟨commentEnds depth, ?_⟩
      rw [List.nil_append, Piece.closeComment_cons (by simp) (by simp),
        closeComment_commentEnds]
      rfl
  | case2 depth rest ih =>
      obtain ⟨t, ht⟩ := ih (Option.map_eq_none_iff.mp h)
      exact ⟨t, by rw [List.cons_append, List.cons_append, Piece.closeComment, ht]; rfl⟩
  | case3 => cases h
  | case4 depth rest ih =>
      obtain ⟨t, ht⟩ := ih (Option.map_eq_none_iff.mp h)
      exact ⟨t, by rw [List.cons_append, List.cons_append, Piece.closeComment, ht]; rfl⟩
  | case5 depth c rest hopen hclose hclose' ih =>
      obtain ⟨t, ht⟩ := ih (Option.map_eq_none_iff.mp h)
      refine ⟨t, ?_⟩
      -- the blank keeps a last slash or star of the text apart from what follows
      have hhead : ∀ d, d ≠ ' ' → (rest ++ ' ' :: t).head? = some d → ∃ more, rest = d :: more := by
        intro d hd hhead
        cases rest with
        | nil => exact absurd (Option.some.inj hhead).symm hd
        | cons e rest => exact ⟨rest, by rw [Option.some.inj hhead]⟩
      rw [List.cons_append, Piece.closeComment_cons, ht]
      · rfl
      · rintro ⟨hc, hstar⟩
        obtain ⟨more, hmore⟩ := hhead '*' (by decide) hstar
        exact hopen more hc hmore
      · rintro ⟨hc, hslash⟩
        obtain ⟨more, hmore⟩ := hhead '/' (by decide) hslash
        cases depth with
        | zero => exact hclose more rfl hc hmore
        | succ depth => exact hclose' depth more rfl hc hmore

/-- A character literal that the text cuts short is completed to one. -/
theorem charLiteral_completed {rest : List Char} (h : Malformed .charCutShort rest) :
    ∃ t, Lexeme .char (rest ++ t) [] := by
  cases h with
  | quote => exact ⟨['a', '\''], .char (by decide)⟩
  | @quoted c =>
      by_cases hc : c = '\\'
      · subst hc
        exact ⟨['a', '\''], .escape⟩
      · exact ⟨['\''], .char hc⟩
  | escaped => exact ⟨['\''], .escape⟩

/-- **What is incomplete can be completed** to one piece, which is not malformed. -/
theorem Malformed.completed {cause : Fault} {rest : List Char} (h : Malformed cause rest)
    (hcause : cause.Incomplete) (p : Position) :
    ∃ t ts, Scans p (rest ++ t) ts ⟨p.after (rest ++ t), []⟩ ∧ ∀ x ∈ ts, x.kind ≠ .error := by
  have hlexeme : ∀ {k text}, Lexeme k text [] →
      ∃ ts, Scans p text ts ⟨p.after text, []⟩ ∧ ∀ x ∈ ts, x.kind ≠ .error := by
    intro k text hk
    have hscans := Scans.token hk (.done (p := p.after text))
    rw [List.append_nil] at hscans
    exact ⟨_, hscans, List.forall_mem_singleton.mpr hk.proper.2⟩
  cases cause with
  | charCutShort =>
      obtain ⟨t, ht⟩ := charLiteral_completed h
      exact ⟨t, hlexeme ht⟩
  | stringUnclosed =>
      cases h with
      | string h =>
          have hbody := StringBody.of_closeString (Piece.closeString_eq_none_iff.mpr h)
          exact ⟨['a', '"'], hlexeme (.string hbody)⟩
  | commentUnclosed =>
      cases h with
      | @comment rest h =>
          have hclose : Piece.closeComment 0 rest = none := by
            refine Piece.closeComment_eq_none_iff.mpr fun u hu hstart => h u hu ?_
            simpa using hstart
          obtain ⟨t, ht⟩ := exists_closeComment hclose
          obtain ⟨hbody, -⟩ := Piece.closeComment_eq_some_iff.mp ht
          have hscans := Scans.block hbody (.done (p := p.after ('/' :: '*' :: (rest ++ ' ' :: t))))
          rw [List.append_nil] at hscans
          exact ⟨' ' :: t, [], hscans, by simp⟩
  | unexpected | charUnclosed => exact hcause.elim

/-! ## Source texts -/

/-- Nothing that stands further on in a text stands before. -/
theorem Position.not_after_before (p : Position) (text : List Char) : ¬(p.after text).Before p := by
  intro h
  by_cases htext : text = []
  · subst htext
    exact Position.Before.irrefl p h
  · exact Position.Before.irrefl p ((p.before_after htext).trans h)

/-- **Incomplete input and invalid input are told apart** by the cause of the malformed token.
    - An invalid text, which is one with an unexpected character other than an exclamation mark at
      its end, or with a character literal that goes on, has the same tokens up to the malformed one
      with whatever text behind it.
    - An incomplete text, which is one that ends inside a literal or a comment, has none that is
      malformed with some text behind it, and the same tokens before the place where it failed. -/
theorem incomplete_or_invalid {source : String} {ts after : List Token} {e : Token}
    (h : tokenize source = ts ++ e :: after) (he : e.kind = .error) :
    ∃ cause : Fault, e.value = cause.message ∧
      (¬cause.Incomplete →
        ¬(cause = .unexpected '!' ∧ RestAt source.toList e.position ['!']) →
        ∀ t : String, ∃ last, tokenize (source ++ t) = ts ++ [e, last]) ∧
      (cause.Incomplete → ∃ (t : String) (more : List Token),
        tokenize (source ++ t) = ts ++ more ∧ (∀ x ∈ ts ++ more, x.kind ≠ .error) ∧
        (∀ x ∈ ts, x.position.Before e.position) ∧
        ∀ x ∈ more, ¬x.position.Before e.position) := by
  have hordered := (scans_scan .start source.toList).ordered
  rw [← Scan.ofSource, ← tokensBeforeEnd_eq, (after_error h he).1] at hordered
  obtain ⟨before, rest, cause, hsource, hreaches, hmalformed, rfl⟩ := reaches_of_error h he
  -- what stands in front of the malformed text does not see how it goes on
  have hlater (t : List Char) : Reaches (rest ++ t) .start before ts := by
    obtain ⟨c, tail, rfl⟩ := hmalformed.exists_cons
    exact hreaches.of_head fun d hd => hd
  have hjoined (t : List Char) :
      (source ++ String.ofList t).toList = before ++ (rest ++ t) := by
    rw [String.toList_append, String.toList_ofList, hsource, List.append_assoc]
  refine ⟨cause, rfl, fun hcause hmark t => ?_, fun hcause => ?_⟩
  · have hrest : rest ≠ ['!'] := by
      rintro rfl
      have hunexpected : cause = .unexpected '!' := hmalformed.unique (.mark (by simp))
      exact hmark ⟨hunexpected, before, hsource, rfl⟩
    obtain ⟨stop, hscans⟩ :=
      (hlater t.toList).scans_fault (hmalformed.append hcause hrest t.toList)
    rw [← hjoined, String.ofList_toList, Position.after_start] at hscans
    exact ⟨_, by rw [hscans.tokenize, List.append_assoc]; rfl⟩
  · obtain ⟨t, ts', hscans, hnoError⟩ := hmalformed.completed hcause (Position.start.after before)
    have hwhole := (hlater t).scans hscans
    rw [← hjoined] at hwhole
    refine ⟨String.ofList t, _, by rw [hwhole.tokenize, List.append_assoc], ?_, ?_, ?_⟩
    · refine List.forall_mem_append.mpr ⟨hreaches.kind_ne_error, ?_⟩
      exact List.forall_mem_append.mpr ⟨hnoError, by simp [Token.endOfInput]⟩
    · exact fun x hx => (List.pairwise_append.mp hordered).2.2 x hx _ List.mem_cons_self
    · rw [← Position.after_start]
      refine List.forall_mem_append.mpr ⟨fun x hx => ?_, ?_⟩
      · obtain ⟨g, -, -, hposition, -⟩ := hscans.placed x hx
        rw [hposition]
        exact Position.not_after_before _ g
      · exact List.forall_mem_singleton.mpr (Position.not_after_before _ _)

/-- A name and the start of a comment, with a slash that ends nothing. -/
theorem incomplete_or_invalid_comment :
    tokenize "x/*/" = [⟨.identifier, "x", ⟨1, 1⟩⟩,
        ⟨.error, Fault.commentUnclosed.message, ⟨1, 2⟩⟩, .endOfInput ⟨1, 5⟩] ∧
      ∃ (t : String) (more : List Token),
        tokenize ("x/*/" ++ t) = [⟨.identifier, "x", ⟨1, 1⟩⟩] ++ more ∧
        (∀ x ∈ [⟨.identifier, "x", ⟨1, 1⟩⟩] ++ more, x.kind ≠ .error) ∧
        ∀ x ∈ more, ¬x.position.Before ⟨1, 2⟩ := by
  have hname : Piece.cut 'x' ['/', '*', '/'] = (.token .identifier ['x'], ['/', '*', '/']) := rfl
  have hcomment : Piece.cut '/' ['*', '/'] = (.fault .commentUnclosed ['/', '*', '/'], []) := rfl
  have hscan : scan .start ['x', '/', '*', '/'] = ⟨[⟨.identifier, "x", ⟨1, 1⟩⟩,
      ⟨.error, Fault.commentUnclosed.message, ⟨1, 2⟩⟩], ⟨⟨1, 5⟩, []⟩⟩ := by
    rw [scan_token hname, scan_fault hcomment]
    rfl
  have htokens : tokenize "x/*/" = [⟨.identifier, "x", ⟨1, 1⟩⟩] ++
      ⟨.error, Fault.commentUnclosed.message, ⟨1, 2⟩⟩ :: [.endOfInput ⟨1, 5⟩] := by
    show (scan .start ['x', '/', '*', '/']).stream.pending = _
    rw [hscan]
    rfl
  obtain ⟨cause, hcause, -, hcompleted⟩ := incomplete_or_invalid htokens rfl
  obtain rfl : .commentUnclosed = cause := Fault.message_injective hcause
  obtain ⟨t, more, hjoined, hnoError, -, hlater⟩ := hcompleted trivial
  exact ⟨htokens, t, more, hjoined, hnoError, hlater⟩

end ExprLang
