import ExprLang.Proofs.Diagnostic.Excerpt
import ExprLang.Proofs.Grammar.Blocks
import ExprLang.Proofs.Grammar.Literals
import ExprLang.Proofs.Printing.Spells

/-!
# `Proofs.Grammar.Refusing` — where a refused assignment is reported

Whether an assignment is accepted is asked for when its value has been read. So an assignment that is
not accepted is reported at its operator only if there is nothing to report of its value; a problem
with the value comes first, although it stands behind the operator. Between parentheses this settles
the diagnostic of a whole text: what stands behind the operator is read as it is on its own, further
right and further down.

## Contents
- `read_expr_of_le`: assignments bind most loosely, so all lower powers read alike.
- `TokenStream.moved`, `Reply.moved`, `read_moved`: reading a stream whose tokens stand elsewhere.
- `read_refused`, `soleExpression_of_grouping`: an assignment between parentheses.
- `ofSource_refused`, `parse_refused`: the tokens of such a text, and how its reading ends.
- `refused_assignment`: what is reported of it.
-/

namespace ExprLang

open Parse TokenStream

/-! ## Low powers -/

section

variable {least : Nat} (assignable : Bool)

theorem derive_operators_of_le (hle : least ≤ 4) (depth : Nat) (left : Expr) :
    standard.derive depth (.operators least assignable left) =
      standard.derive depth (.operators 0 assignable left) := by
  induction depth generalizing left with
  | zero => rfl
  | succ depth ih =>
      funext s
      show Rule.operators standard (standard.derive depth) least assignable left s =
        Rule.operators standard (standard.derive depth) 0 assignable left s
      rcases standard.stopsAt_or least s.peek.kind with
        hstops | ⟨power, form, hform, hleast⟩ | ⟨hp, powers, hi, hleast⟩
      · have hnone := leftPower_of_stopsAt hle hstops
        rw [Rule.operators_of_stopsAt hstops, Rule.operators_of_stopsAt (stopsAt_of_leftPower hnone)]
      · rw [Rule.operators_of_postfixForm hform hleast,
          Rule.operators_of_postfixForm hform (Nat.zero_le _)]
        simp only [ih]
      · rw [Rule.operators_of_infixPowers hp hi hleast,
          Rule.operators_of_infixPowers hp hi (Nat.zero_le _)]
        simp only [ih]

/-- **No power below that of an assignment makes a difference.** -/
theorem read_expr_of_le (hle : least ≤ 4) :
    standard.read (.expr least assignable) = standard.read (.expr 0 assignable) := by
  funext s
  unfold Table.read
  cases depthFor s.remaining with
  | zero => rfl
  | succ depth =>
      show (standard.derive depth .operand >>= fun left =>
          standard.derive depth (.operators least assignable left)) s =
        (standard.derive depth .operand >>= fun left =>
          standard.derive depth (.operators 0 assignable left)) s
      simp only [derive_operators_of_le assignable hle]

end

/-! ## Streams whose tokens stand elsewhere -/

/-- The same tokens at the positions that `f` gives for theirs. -/
def TokenStream.moved (f : Position → Position) (s : TokenStream) : TokenStream :=
  ⟨s.pending.map (Token.moved f), f s.finish⟩

/-- The same problem at the position that `f` gives for its own. -/
def Diagnostic.moved (f : Position → Position) (d : Diagnostic) : Diagnostic :=
  { d with position := f d.position }

/-- The same reply when all positions are those that `f` gives. -/
def Reply.moved {α : Type} (f : Position → Position) : Reply α → Reply α
  | ok v rest => ok v (rest.moved f)
  | error d rest => error (d.moved f) (rest.moved f)
  | halt cause => halt cause

theorem TokenStream.token_moved (f : Position → Position) (s : TokenStream) (i : Nat) :
    (s.moved f).token i = (s.token i).moved f := by
  cases h : s.pending[i]? <;> simp [token, moved, h, Token.moved, Token.endOfInput]

theorem TokenStream.skip_moved (f : Position → Position) (s : TokenStream) (i : Nat) :
    (s.moved f).skip i = (s.skip i).moved f := by
  simp [skip, moved, List.map_drop]

/-- **Reading tokens that stand elsewhere** gives the same tree, or the same problem elsewhere. -/
theorem read_moved (f : Position → Position) {α : Type} (phrase : Phrase α)
    (hphrase : ¬phrase.Marked) (s : TokenStream) :
    standard.read phrase (s.moved f) = (standard.read phrase s).moved f := by
  have hself : ∀ n, s.AgreesTo n s := fun _ _ _ => ⟨rfl, fun _ => rfl⟩
  have hmoved : ∀ n, s.AgreesTo n (s.moved f) := by
    intro n i _
    rw [token_moved]
    exact ⟨rfl, fun _ => rfl⟩
  obtain ⟨i, -, ⟨v, hread⟩ | ⟨problem, j, -, hread⟩⟩ := (regular_read phrase hphrase).settled s
  · rw [hread s (hself i), hread _ (hmoved i), skip_moved]
    rfl
  · rw [hread s (hself i), hread _ (hmoved i), skip_moved, token_moved]
    rfl

/-! ## An assignment between parentheses -/

section

variable {assignable : Bool} {opening operator : Token} {o : AssignOperator} {w : List Token}
  {subject : Expr} {d : Diagnostic} {s rest : TokenStream}

/-- **The value of an assignment that is not accepted is read first**, and what is wrong with it is
    reported; otherwise the operator is. -/
theorem read_refused (hsubject : Derives (.expression false) w subject)
    (ho : operator.kind.assign? = some o) (s : TokenStream) :
    standard.read (.expr 0 false) (s.behind (w ++ [operator])) =
      (standard.read (.expr 0 false) >>= fun _ =>
        rejectAt .assignmentNotAllowed operator.position) s := by
  obtain ⟨hp, hi, ho'⟩ := standard_of_assign? ho
  obtain ⟨hstops, helse⟩ := stopsAt_of_assign? ho
  cases hsubject with
  | plain hlayer =>
      rw [behind_append, hlayer.readAs 0 false (s.behind [operator]) (Nat.zero_le _) hstops helse]
      rw [standard_read_eq]
      show Rule.operators standard standard.read 0 false subject (s.behind [operator]) = _
      rw [Rule.operators_of_infixPowers (s := s.behind [operator]) hp hi (Nat.zero_le _)]
      rw [advance_behind_cons, peek_behind_cons, behind_nil, read_expr_of_le false (by decide)]
      -- nothing goes on behind the value, since the operator fails whatever it is
      simp only [bind_apply, Rule.combine, ho']
      rfl

/-- What is reported of an expression is reported of all of the input. -/
theorem soleExpression_of_error (h : standard.read (.expr 0 assignable) s = .error d rest) :
    standard.soleExpression assignable s = .error d rest := by
  rw [Table.soleExpression, bind_apply, h]

/-- What is reported between parentheses is reported of all of the input. -/
theorem soleExpression_of_grouping (hopen : opening.kind = .openParen)
    (h : standard.read (.expr 0 false) s = .error d rest) :
    standard.soleExpression assignable (s.behind [opening]) = .error d rest := by
  have hgrouping : standard.read (.operandForm .grouping) (s.behind [opening]) = .error d rest := by
    rw [standard_read_eq]
    show Rule.grouping standard.read (s.behind [opening]) = _
    rw [Rule.grouping, advance_bind, advance_behind_cons, behind_nil, bind_apply, h]
  have hoperand : standard.read .operand (s.behind [opening]) = .error d rest := by
    rw [standard_read_eq]
    show Rule.operand standard standard.read (s.behind [opening]) = _
    rw [Rule.operand, kind_bind, peek_behind_cons, hopen]
    exact hgrouping
  have hexpr : standard.read (.expr 0 assignable) (s.behind [opening]) = .error d rest := by
    rw [standard_read_eq]
    show Rule.expr standard.read 0 assignable (s.behind [opening]) = _
    rw [Rule.expr, bind_apply, hoperand]
  exact soleExpression_of_error hexpr

end

/-! ## Source texts -/

section

variable {left : String} {e : Expr}

/-- A text in parentheses that are left open, and an assignment operator on the line behind it. -/
theorem ofSource_refused (hnoError : ∀ t ∈ tokensBeforeEnd left, t.kind ≠ .error) (right : String) :
    TokenStream.ofSource ("(" ++ left ++ "\n= " ++ right) =
      ((TokenStream.ofSource right).moved
          (Position.moved .start ⟨left.toList.count '\n' + 2, 3⟩)).behind
        (⟨.openParen, "(", .start⟩ ::
          ((tokensBeforeEnd left).map (Token.moved (Position.moved .start ⟨1, 2⟩)) ++
            [⟨.assignment, "=", ⟨left.toList.count '\n' + 2, 1⟩⟩])) := by
  have hleft := (scans_scan .start left.toList).moved _ (Position.moved_after .start ⟨1, 2⟩)
  have hright := (scans_scan .start right.toList).moved _
    (Position.moved_after .start ⟨left.toList.count '\n' + 2, 3⟩)
  -- behind the line feed stands the first column of the next line
  have hseam : ((Scan.ofSource left).stop.moved (Position.moved .start ⟨1, 2⟩)).position.next '\n' =
      ⟨left.toList.count '\n' + 2, 1⟩ := by
    rw [Cursor.moved, stop_ofSource hnoError]
    simp [Position.moved, Position.next, Position.ofText, Position.start]
    omega
  have hsymbol : Lexeme .assignment ['='] (' ' :: right.toList) := .symbol (by decide) right.toList
  have hoperator : Scans ⟨left.toList.count '\n' + 2, 1⟩ ('=' :: ' ' :: right.toList) _ _ :=
    .token hsymbol (.blank (by decide) hright)
  rw [← hseam] at hoperator
  have hnoError' : ∀ t ∈ (tokensBeforeEnd left).map (Token.moved (Position.moved .start ⟨1, 2⟩)),
      t.kind ≠ .error := List.forall_mem_map.mpr hnoError
  rw [tokensBeforeEnd_eq] at hnoError' ⊢
  have hscans := Scans.bracket (p := .start) (c := '(') rfl (fun _ => rfl) (by decide)
    (hleft.join hnoError' hoperator)
  have hlist : ("(" ++ left ++ "\n= " ++ right).toList =
      '(' :: (left.toList ++ '\n' :: '=' :: ' ' :: right.toList) := by simp
  rw [TokenStream.ofSource, Scan.ofSource, hlist, scans_iff.mp hscans, hseam]
  simp [Scan.stream, TokenStream.ofSource, Scan.ofSource, TokenStream.moved, behind, Cursor.moved,
    Token.moved, Token.endOfInput]

/-- The reading of such a text ends as that of the value does, or at the operator. -/
theorem parse_refused (hleft : Derives (.expression false) (tokensBeforeEnd left) e) (right : String)
    (assignable : Bool) :
    (∀ v rest, standard.read (.expr 0 false) (.ofSource right) = .ok v rest →
      parseExpression ("(" ++ left ++ "\n= " ++ right) assignable =
        .ok (.error ⟨.assignmentNotAllowed, ⟨left.toList.count '\n' + 2, 1⟩⟩)) ∧
    (∀ d rest, standard.read (.expr 0 false) (.ofSource right) = .error d rest →
      parseExpression ("(" ++ left ++ "\n= " ++ right) assignable =
        .ok (.error (d.moved (Position.moved .start ⟨left.toList.count '\n' + 2, 3⟩)))) := by
  let operator : Token := ⟨.assignment, "=", ⟨left.toList.count '\n' + 2, 1⟩⟩
  let elsewhere := (TokenStream.ofSource right).moved
    (Position.moved .start ⟨left.toList.count '\n' + 2, 3⟩)
  have hsource := ofSource_refused (fun t ht => (hleft.proper t ht).2) right
  rw [← List.singleton_append, behind_append] at hsource
  have hsubject : Derives (.expression false)
      ((tokensBeforeEnd left).map (Token.moved (Position.moved .start ⟨1, 2⟩))) e := by
    refine hleft.expression_elsewhere ?_
    rw [List.map_map]
    rfl
  have hoperator : operator.kind.assign? = some .assign := rfl
  have hvalue := read_refused hsubject hoperator elsewhere
  rw [bind_apply, read_moved _ (.expr 0 false) nofun] at hvalue
  rw [parseExpression, hsource]
  constructor
  · intro v rest hread
    rw [hread] at hvalue
    rw [soleExpression_of_grouping rfl hvalue]
    rfl
  · intro d rest hread
    rw [hread] at hvalue
    rw [soleExpression_of_grouping rfl hvalue]
    rfl

/-- What is reported of a text that is moved behind an operator and a blank is not reported where the
    operator stands. -/
theorem Reported.moved_ne {source : String} {d : Diagnostic} (h : Reported source d) (line : Nat) :
    Position.moved .start ⟨line, 3⟩ d.position ≠ ⟨line, 1⟩ := by
  obtain ⟨here, ⟨before, -, hbefore⟩, -⟩ := h.exists_restAt
  have hblank : (⟨line, 3⟩ : Position) = Position.after ⟨line, 1⟩ ['=', ' '] := by
    simp [Position.after_cons, Position.next]
  rw [← hbefore, ← Position.after_start, Position.moved_after, hblank, ← Position.after_append]
  intro heq
  -- passing over the operator leads forward
  have hforward := Position.before_after ⟨line, 1⟩ (List.cons_ne_nil '=' (' ' :: before))
  exact Position.Before.irrefl _ (heq ▸ hforward)

/-- What is reported of the expression at the start of a text is reported of the text. -/
theorem Reported.of_read {source : String} {assignable : Bool} {d : Diagnostic} {rest : TokenStream}
    (h : standard.read (.expr 0 assignable) (.ofSource source) = .error d rest) :
    Reported source d := by
  have hparse : parseExpression source assignable = .ok (.error d) := by
    rw [parseExpression, soleExpression_of_error h]
    rfl
  exact .expression hparse

/-- **A refused assignment is reported behind the problems of its value.** Behind a parenthesis, a
    text that is an expression but no assignment, and an assignment operator on a line of its own,
    whatever follows is read as an expression that may not be an assignment. If this fails, what is
    reported of it is reported of the whole text, at the place where it stands there. Exactly if it
    does not fail, the assignment is reported, at the operator. -/
theorem refused_assignment (hleft : parseExpression left false = .ok e) (he : e.isError = false)
    (right : String) (assignable : Bool) :
    RestAt ("(" ++ left ++ "\n= " ++ right).toList ⟨left.toList.count '\n' + 2, 1⟩
      ('=' :: ' ' :: right.toList) ∧
    (parseExpression ("(" ++ left ++ "\n= " ++ right) assignable =
        .ok (.error ⟨.assignmentNotAllowed, ⟨left.toList.count '\n' + 2, 1⟩⟩) ↔
      ∃ v rest, standard.readExpression false (.ofSource right) = .ok v rest ∧ v.isError = false) ∧
    ∀ d rest, standard.readExpression false (.ofSource right) = .ok (.error d) rest →
      parseExpression ("(" ++ left ++ "\n= " ++ right) assignable =
        .ok (.error ⟨d.problem,
          Position.moved .start ⟨left.toList.count '\n' + 2, 3⟩ d.position⟩) := by
  have hderives := derives_of_parseExpression hleft he
  obtain ⟨hplain, hproblem⟩ := parse_refused hderives right assignable
  refine ⟨⟨'(' :: (left.toList ++ ['\n']), by simp, ?_⟩, ?_, ?_⟩
  · simp [Position.ofText]
    omega
  · have hanswers : (standard.read (.expr 0 false) (.ofSource right)).Answers :=
      standard_read_answers _
    unfold Table.readExpression recover
    rcases hanswers.ok_or_error with ⟨v, rest, hread⟩ | ⟨d, rest, hread⟩
    · rw [hread]
      obtain ⟨w, -, hv⟩ := standard_read_sound.expression hread
      exact iff_of_true (hplain v rest hread) ⟨v, rest, rfl, hv.noError⟩
    · rw [hread, hproblem d rest hread]
      refine iff_of_false (fun heq => ?_) ?_
      · have hposition := congrArg Diagnostic.position (Expr.error.inj (Except.ok.inj heq))
        exact (Reported.of_read hread).moved_ne _ hposition
      · rintro ⟨_, _, ⟨⟩, hnoError⟩
        cases hnoError
  · intro d rest hread
    exact hproblem d rest (error_of_recover (fun hok => read_expr_ne_error hok d) (by simp) hread)

theorem lexeme_name : Lexeme .identifier "a".toList [] := by
  refine .word (c := 'a') (u := []) rfl rfl ?_
  rintro ⟨_, hhead, -⟩
  cases hhead

/-- A value without a problem, although nothing closes the parenthesis behind it, and a value that is
    missing. -/
theorem refused_assignment_missing :
    (parseExpression "a" false = .ok (.name "a") ∧ (Expr.name "a").isError = false) ∧
    parseExpression ("(" ++ "a" ++ "\n= " ++ "a") true =
      .ok (.error ⟨.assignmentNotAllowed, ⟨2, 1⟩⟩) ∧
    parseExpression ("(" ++ "a" ++ "\n= " ++ ")") true = .ok (.error ⟨.expectedValue, ⟨2, 3⟩⟩) := by
  have hname : parseExpression "a" false = .ok (.name "a") :=
    lexeme_name.parseExpression (.name rfl) false
  have hvalue : standard.readExpression false (.ofSource "a") =
      .ok (.name "a") (ended ⟨1, 2⟩) := by
    rw [TokenStream.ofSource, Scan.ofSource, scans_iff.mp lexeme_name.scans]
    rfl
  have hclosing : Lexeme .closeParen ")".toList [] :=
    .single (by decide) (fun _ hd => by cases hd) fun h => absurd h (by decide)
  have hmissing : standard.readExpression false (.ofSource ")") =
      .ok (.error ⟨.expectedValue, .start⟩) (.ofSource ")") := by
    rw [TokenStream.ofSource, Scan.ofSource, scans_iff.mp hclosing.scans]
    rfl
  refine ⟨⟨hname, rfl⟩, ?_, ?_⟩
  · exact (refused_assignment hname rfl "a" true).2.1.mpr ⟨_, _, hvalue, rfl⟩
  · exact (refused_assignment hname rfl ")" true).2.2 _ _ hmissing

/-- A refused assignment is not always the first problem that is reported: of two of them, the second
    one is. -/
theorem refused_assignment_not_first :
    ¬∀ (left right : String) (e : Expr), parseExpression left false = .ok e → e.isError = false →
      parseExpression ("(" ++ left ++ "\n= " ++ right) true =
        .ok (.error ⟨.assignmentNotAllowed, ⟨left.toList.count '\n' + 2, 1⟩⟩) := by
  intro h
  have hname : parseExpression "a" false = .ok (.name "a") :=
    lexeme_name.parseExpression (.name rfl) false
  have hword {c d : Char} {rest : List Char} (hc : isNameStart c = true)
      (hkind : Kind.ofWord (String.ofList [c]) = .identifier) (hd : isNamePart d = false) :
      Lexeme .identifier [c] (d :: rest) := by
    rw [← hkind]
    refine .word (u := []) hc rfl ?_
    rintro ⟨_, ⟨⟩, hpart⟩
    rw [hd] at hpart
    cases hpart
  have hscan : Scan.ofSource "b = c)" =
      ⟨[⟨.identifier, "b", ⟨1, 1⟩⟩, ⟨.assignment, "=", ⟨1, 3⟩⟩, ⟨.identifier, "c", ⟨1, 5⟩⟩,
        ⟨.closeParen, ")", ⟨1, 6⟩⟩], ⟨⟨1, 7⟩, []⟩⟩ :=
    scans_iff.mp <| .token (hword (c := 'b') rfl rfl (d := ' ') rfl) <| .blank rfl <|
      .token (.symbol (c := '=') rfl "c)".toList) <| .blank rfl <|
        .token (hword (c := 'c') rfl rfl (d := ')') rfl) <|
          .bracket (c := ')') rfl (fun _ => rfl) (by decide) .done
  have hread : standard.read (.expr 0 false) (.ofSource "b = c)") =
      .error ⟨.assignmentNotAllowed, ⟨1, 3⟩⟩
        ⟨[⟨.closeParen, ")", ⟨1, 6⟩⟩, .endOfInput ⟨1, 7⟩], ⟨1, 7⟩⟩ := by
    rw [TokenStream.ofSource, hscan]
    rfl
  have hsecond := (parse_refused (derives_of_parseExpression hname rfl) "b = c)" true).2 _ _ hread
  have hfirst := h "a" "b = c)" _ hname rfl
  -- the other operator stands further right
  rw [hsecond] at hfirst
  simp [Diagnostic.moved, Position.moved, Position.start] at hfirst

end
end ExprLang
