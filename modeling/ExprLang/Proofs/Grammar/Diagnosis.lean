import ExprLang.Proofs.Grammar.Joining
import ExprLang.Proofs.Reading.Passing
import ExprLang.Proofs.Scanning.Place

/-!
# `Proofs.Grammar.Diagnosis` — what is reported of a source text

A text with a malformed piece is never read as a tree: no rule passes over the malformed token, and
the text does not end in front of it. So its reading fails, at the malformed token or further in
front, and the message of the malformed token is reported exactly if it is the one that reading
stopped at. A text without a malformed piece never gets such a message.

## Contents
- `parseProgram_cases`, `parseExpression_cases`: a text is read as a tree, or has a diagnostic.
- `Reported`, `Reported.orderly`: the diagnostic of a text, and where its reading stopped.
- `peek_mem`, `pending_error`: what is left of the tokens of a text.
- `Diagnostic.Blames`, `Reported.blames`: diagnostics of a text with a malformed piece.
- `malformed_reported`: all of this, for programs and for expressions.
-/

namespace ExprLang

open Parse TokenStream

/-! ## Readings of a text -/

theorem standard_read_orderly {α : Type} (phrase : Phrase α) (s : TokenStream)
    (hs : phrase.Marked → s.peek.Proper) : (standard.read phrase s).Orderly standard s :=
  Table.derive_orderly standard_strict (depthFor s.remaining) phrase s hs

theorem soleExpression_orderly (assignable : Bool) (s : TokenStream) :
    (standard.soleExpression assignable s).Orderly standard s := by
  refine orderly_bind (standard_read_orderly _ _ nofun) fun e s₁ _ => orderly_kind_bind ?_
  exact orderly_ite (fun _ => orderly_ok) fun _ => orderly_reject (show OneLine _ by decide)

theorem soleExpression_answers (assignable : Bool) (s : TokenStream) :
    (standard.soleExpression assignable s).Answers := by
  refine answers_bind (standard_read_answers _) fun e s₁ _ => answers_kind_bind ?_
  exact answers_ite (fun _ => answers_ok) fun _ => answers_reject

section

variable {source : String}

/-- A text is a program, or its reading ends with a diagnostic. -/
theorem parseProgram_cases (source : String) :
    (∃ ss, Derives .program (tokensBeforeEnd source) ss) ∨
      ∃ d, parseProgram source = .ok [.error d] := by
  have hanswers : (standard.read .program (.ofSource source)).Answers := standard_read_answers _
  rcases hanswers.ok_or_error with ⟨ss, s', hread⟩ | ⟨d, s', hread⟩
  · exact Or.inl ⟨ss, read_program_ofSource_iff.mp ⟨s', hread⟩⟩
  · rw [parseProgram, hread]
    exact Or.inr ⟨d, rfl⟩

/-- A text is an expression, or its reading ends with a diagnostic. -/
theorem parseExpression_cases (source : String) (assignable : Bool) :
    (∃ e, Derives (.expression assignable) (tokensBeforeEnd source) e) ∨
      ∃ d, parseExpression source assignable = .ok (.error d) := by
  have hanswers := soleExpression_answers assignable (.ofSource source)
  rcases hanswers.ok_or_error with ⟨e, s', hread⟩ | ⟨d, s', hread⟩
  · exact Or.inl ⟨e, soleExpression_ofSource_iff.mp ⟨s', hread⟩⟩
  · rw [parseExpression, hread]
    exact Or.inr ⟨d, rfl⟩

/-- An expression that is a diagnostic comes from a problem with the text. -/
theorem soleExpression_eq_error {assignable : Bool} {d : Diagnostic}
    (h : parseExpression source assignable = .ok (.error d)) :
    ∃ s', standard.soleExpression assignable (.ofSource source) = .error d s' := by
  have hne : ∀ s', standard.soleExpression assignable (.ofSource source) ≠ .ok (.error d) s' := by
    intro s' hread
    cases (soleExpression_ofSource_iff.mp ⟨s', hread⟩).noError
  obtain ⟨d', s', hread, heq⟩ := exists_of_result_eq_ok h hne
  cases heq
  exact ⟨s', hread⟩

/-- The diagnostic is the one of `source`, read as a program or as an expression. -/
inductive Reported (source : String) (d : Diagnostic) : Prop where
  | program (h : parseProgram source = .ok [.error d])
  | expression {assignable : Bool} (h : parseExpression source assignable = .ok (.error d))

/-- **Reading a text stops in an orderly way** at what is reported of it. -/
theorem Reported.orderly {d : Diagnostic} (h : Reported source d) :
    ∃ s', (Reply.error d s' : Reply Unit).Orderly standard (.ofSource source) := by
  cases h with
  | program h =>
      obtain ⟨s', hread⟩ := read_program_eq_error h
      have horderly := standard_read_orderly .program (.ofSource source) nofun
      rw [hread] at horderly
      exact ⟨s', horderly.error⟩
  | @expression assignable h =>
      obtain ⟨s', hread⟩ := soleExpression_eq_error h
      have horderly := soleExpression_orderly assignable (.ofSource source)
      rw [hread] at horderly
      exact ⟨s', horderly.error⟩

/-! ## What is left of the tokens -/

variable {s' : TokenStream} {w before after : List Token} {e : Token}

theorem tokenize_eq_of_passes (h : (TokenStream.ofSource source).Passes w s') :
    tokenize source = w ++ s'.pending := congrArg TokenStream.pending h.1

/-- Proper tokens do not use a text up: the current token is always one of the text, if only the end
    of the input. -/
theorem peek_mem (h : (TokenStream.ofSource source).Passes w s') : s'.peek ∈ tokenize source := by
  have htokens := tokenize_eq_of_passes h
  cases hpending : s'.pending with
  | nil =>
      rw [hpending, List.append_nil] at htokens
      have hlast : Token.endOfInput (Scan.ofSource source).stop.position ∈ w := by
        rw [← htokens, tokenize_eq]
        exact List.mem_concat_self
      exact absurd rfl (h.2 _ hlast).1
  | cons t ts =>
      have hpeek : s'.peek = t := by simp [peek, hpending]
      rw [hpeek, htokens, hpending]
      exact List.mem_append_right w List.mem_cons_self

/-- **A malformed token is not passed over.** -/
theorem pending_error (h : (TokenStream.ofSource source).Passes w s')
    (htokens : tokenize source = before ++ e :: after) (he : e.kind = .error) :
    ∃ u, before = w ++ u ∧ s'.pending = u ++ e :: after := by
  rw [tokenize_eq_of_passes h] at htokens
  rcases List.append_eq_append_iff.mp htokens with ⟨u, rfl, hpending⟩ | ⟨u, rfl, hpending⟩
  · exact ⟨u, rfl, hpending⟩
  · cases u with
    | nil =>
        rw [List.append_nil]
        exact ⟨[], (List.append_nil before).symm, hpending.symm⟩
    | cons t u =>
        -- the malformed token would be among those that were passed over
        obtain ⟨rfl, -⟩ := List.cons.inj hpending
        exact absurd he (h.2 e (List.mem_append_right before List.mem_cons_self)).2

end

section

variable {source : String} {before after : List Token} {e : Token}

/-- **The tokens in front of a malformed one** are none themselves, and stand elsewhere. -/
theorem before_error (h : tokenize source = before ++ e :: after) (he : e.kind = .error) :
    ∀ t ∈ before, t.kind ≠ .error ∧ t.position ≠ e.position := by
  obtain ⟨after', htokens⟩ := tokensBeforeEnd_of_error h he
  have hpairwise := (scans_scan .start source.toList).kind_ne_error
  rw [← Scan.ofSource, ← tokensBeforeEnd_eq, htokens, List.pairwise_append] at hpairwise
  exact fun t ht => ⟨hpairwise.2.2 t ht e List.mem_cons_self, position_ne htokens t ht⟩

/-! ## Diagnostics -/

theorem Problem.OfToken.ne_lexical {problem : Problem} {t : Token} (h : problem.OfToken t)
    (message : String) : problem ≠ .lexical message := by
  rintro rfl
  exact h

/-- The diagnostic speaks of the malformed token `e` or of one of those in front of it; and it is the
    message of `e` exactly if it speaks of `e`. -/
def Diagnostic.Blames (d : Diagnostic) (before : List Token) (e : Token) : Prop :=
  (∃ t ∈ before ++ [e], t.position = d.position) ∧
    ∀ message, d.problem = .lexical message ↔ d.position = e.position ∧ message = e.value

theorem Diagnostic.blames_self (before : List Token) (e : Token) :
    Diagnostic.Blames ⟨.lexical e.value, e.position⟩ before e := by
  refine ⟨⟨e, List.mem_concat_self, rfl⟩, fun message => ?_⟩
  constructor
  · intro h
    cases h
    exact ⟨rfl, rfl⟩
  · rintro ⟨-, rfl⟩
    rfl

theorem Diagnostic.blames_earlier {t : Token} (ht : t ∈ before)
    (hposition : t.position ≠ e.position) {problem : Problem}
    (hproblem : ∀ message, problem ≠ .lexical message) :
    Diagnostic.Blames ⟨problem, t.position⟩ before e := by
  refine ⟨⟨t, List.mem_append_left [e] ht, rfl⟩, fun message => ?_⟩
  constructor
  · exact fun h => absurd h (hproblem message)
  · exact fun h => absurd h.1 hposition

variable {d : Diagnostic}

/-- **What is reported of a text with a malformed piece**: the message of the piece, or another
    problem further in front. -/
theorem Reported.blames (h : Reported source d) (htokens : tokenize source = before ++ e :: after)
    (he : e.kind = .error) : d.Blames before e := by
  have hbefore := before_error htokens he
  obtain ⟨s', horderly⟩ := h.orderly
  cases horderly with
  | @stopped problem w _ hpasses hproblem =>
      obtain ⟨u, rfl, hpending⟩ := pending_error hpasses htokens he
      rw [diagnose]
      cases u with
      | nil =>
          have hpeek : s'.peek = e := by simp [peek, hpending]
          rw [hpeek, if_pos (by simp [Token.is, he])]
          exact Diagnostic.blames_self _ e
      | cons t u =>
          have hpeek : s'.peek = t := by simp [peek, hpending]
          have ht : t ∈ w ++ t :: u := List.mem_append_right w List.mem_cons_self
          rw [hpeek, if_neg (by simpa [Token.is] using (hbefore t ht).1)]
          exact Diagnostic.blames_earlier ht (hbefore t ht).2 hproblem.ne_lexical
  | @disallowed operator w _ hpasses hmem _ =>
      obtain ⟨u, rfl, -⟩ := pending_error hpasses htokens he
      have hoperator : operator ∈ w ++ u := List.mem_append_left u hmem
      exact Diagnostic.blames_earlier hoperator (hbefore operator hoperator).2
        fun _ => Problem.noConfusion

/-- What is reported of a text without a malformed piece is no such piece. -/
theorem Reported.ne_lexical (h : Reported source d)
    (hnoError : ∀ t ∈ tokenize source, t.kind ≠ .error) (message : String) :
    d.problem ≠ .lexical message := by
  obtain ⟨s', horderly⟩ := h.orderly
  cases horderly with
  | stopped hpasses hproblem =>
      rw [diagnose, if_neg (by simpa [Token.is] using hnoError _ (peek_mem hpasses))]
      exact hproblem.ne_lexical message
  | disallowed => exact Problem.noConfusion

/-- No tree is derived from a text with a malformed piece. -/
theorem not_derives_of_error (htokens : tokenize source = before ++ e :: after)
    (he : e.kind = .error) {c : Category} {v : c.Tree} :
    ¬Derives c (tokensBeforeEnd source) v := by
  intro hderives
  have hmem : e ∈ tokenize source := by
    rw [htokens]
    exact List.mem_append_right before List.mem_cons_self
  exact tokenize_kind_ne_error hderives.proper e hmem he

end

/-! ## Malformed texts -/

/-- The stream that a reply leaves, when it is an answer. -/
def Reply.rest? {α : Type} : Reply α → Option TokenStream
  | .ok _ s | .error _ s => some s
  | .halt _ => none

/-- An orderly answer leaves what stands behind some proper tokens. -/
theorem Reply.Orderly.exists_passes {t : Table} {s : TokenStream} {α : Type} {r : Reply α}
    (h : r.Orderly t s) (hanswers : r.Answers) : ∃ s' w, r.rest? = some s' ∧ s.Passes w s' := by
  cases h with
  | ok hpasses | stopped hpasses | disallowed hpasses => exact ⟨_, _, rfl, hpasses⟩
  | halt => exact absurd rfl (hanswers _)

/-- **Malformed pieces are reported.** The reading of a text with a malformed piece ends with a
    diagnostic of that piece or of a token in front of it, and gives the message of the piece exactly
    if it speaks of it. The reading of any other text gives no such message. Neither takes off the
    malformed token or the end of the input, and no phrase does so that is read on its way. -/
theorem malformed_reported (source : String) :
    (∀ (before : List Token) (e : Token) (after : List Token),
      tokenize source = before ++ e :: after → e.kind = .error →
        (∃ d, parseProgram source = .ok [.error d] ∧ d.Blames before e) ∧
        ∀ assignable, ∃ d,
          parseExpression source assignable = .ok (.error d) ∧ d.Blames before e) ∧
    ((∀ t ∈ tokenize source, t.kind ≠ .error) →
      ∀ (d : Diagnostic) (message : String), Reported source d → d.problem ≠ .lexical message) ∧
    (∃ s' w, (standard.read .program (.ofSource source)).rest? = some s' ∧
      (TokenStream.ofSource source).Passes w s') ∧
    (∀ assignable, ∃ s' w,
      (standard.soleExpression assignable (.ofSource source)).rest? = some s' ∧
        (TokenStream.ofSource source).Passes w s') ∧
    (∀ {α : Type} (phrase : Phrase α) (s : TokenStream), (phrase.Marked → s.peek.Proper) →
      ∃ s' w, (standard.read phrase s).rest? = some s' ∧ s.Passes w s') := by
  refine ⟨fun before e after htokens he => ⟨?_, fun assignable => ?_⟩, ?_, ?_, ?_, ?_⟩
  · rcases parseProgram_cases source with ⟨ss, hderives⟩ | ⟨d, hd⟩
    · exact absurd hderives (not_derives_of_error htokens he)
    · exact ⟨d, hd, (Reported.program hd).blames htokens he⟩
  · rcases parseExpression_cases source assignable with ⟨v, hderives⟩ | ⟨d, hd⟩
    · exact absurd hderives (not_derives_of_error htokens he)
    · exact ⟨d, hd, (Reported.expression hd).blames htokens he⟩
  · exact fun hnoError d message hd => hd.ne_lexical hnoError message
  · exact (standard_read_orderly .program _ nofun).exists_passes (standard_read_answers _)
  · intro assignable
    exact (soleExpression_orderly assignable _).exists_passes (soleExpression_answers _ _)
  · intro α phrase s hs
    exact (standard_read_orderly phrase s hs).exists_passes (standard_read_answers phrase)

/-- A stray parenthesis in front of a character that starts no token. -/
theorem malformed_reported_stray :
    (tokenize ")@" = [⟨.closeParen, ")", ⟨1, 1⟩⟩] ++
        ⟨.error, Fault.message (.unexpected '@'), ⟨1, 2⟩⟩ :: [⟨.eof, "", ⟨1, 2⟩⟩] ∧
      Kind.error = .error) ∧
    (∃ d, parseProgram ")@" = .ok [.error d] ∧
      d.Blames [⟨.closeParen, ")", ⟨1, 1⟩⟩]
        ⟨.error, Fault.message (.unexpected '@'), ⟨1, 2⟩⟩) ∧
    parseProgram ")@" = .ok [.error ⟨.expectedValue, ⟨1, 1⟩⟩] := by
  have hscan : Scan.ofSource ")@" = ⟨[⟨.closeParen, ")", ⟨1, 1⟩⟩,
      ⟨.error, Fault.message (.unexpected '@'), ⟨1, 2⟩⟩], ⟨⟨1, 2⟩, ['@']⟩⟩ := by
    have hstray : Piece.cut ')' ['@'] = (.token .closeParen [')'], ['@']) := rfl
    have hfault : Piece.cut '@' [] = (.fault (.unexpected '@') [], ['@']) := rfl
    show scan .start [')', '@'] = _
    rw [scan_token hstray, scan_fault hfault]
    rfl
  have htokens : tokenize ")@" = [⟨.closeParen, ")", ⟨1, 1⟩⟩] ++
      ⟨.error, Fault.message (.unexpected '@'), ⟨1, 2⟩⟩ :: [⟨.eof, "", ⟨1, 2⟩⟩] := by
    rw [tokenize, hscan]
    rfl
  have hparse : parseProgram ")@" = .ok [.error ⟨.expectedValue, ⟨1, 1⟩⟩] := by
    rw [parseProgram, TokenStream.ofSource, hscan]
    rfl
  exact ⟨⟨htokens, rfl⟩, ((malformed_reported ")@").1 _ _ _ htokens rfl).1, hparse⟩

end ExprLang
