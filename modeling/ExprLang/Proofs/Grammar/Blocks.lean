import ExprLang.Proofs.Grammar.Parsing
import ExprLang.Proofs.Scanning.Braces

/-!
# `Proofs.Grammar.Blocks` — programs and the insides of blocks

A block without a result holds a program, and a block without statements an expression; in the
grammar this can be read off the productions. What is to be shown is that nothing else becomes such
a block once it stands between curly brackets: an expression that starts with a curly bracket and is
a block was derived as this block and as nothing larger, so that its last token closes the bracket
that its first one opens.

## Contents
- `Derives.block_of_expression`: blocks among the expressions.
- `derives_program_iff`, `derives_result_iff`: the insides of blocks.
- `standard_read_elsewhere`, `Derives.program_elsewhere`, `Derives.expression_elsewhere`: tokens with
  other positions.
- `body_of_parse_braced`, `parse_braced_of_body`: a text that is a block between curly brackets.
- `parse_braced`: source texts between curly brackets.
-/

namespace ExprLang

open TokenStream Parse

/-! ## Blocks among the expressions -/

/-- What an expression that starts with a curly bracket and is a block is derived as. -/
def Category.BlockOnly : (c : Category) → List Token → c.Tree → Prop
  | layer _, w, e | expression _, w, e =>
    StartsWith (· = .openCurly) w → e.IsBlock → Derives .block w e
  | _, _, _ => True

/-- **An expression that starts with a curly bracket and is a block** is derived as a block: no
    operator goes on with it, and no parentheses stand around it. -/
theorem Derives.blockOnly {c : Category} {w : List Token} {v : c.Tree} (h : Derives c w v) :
    c.BlockOnly w v := by
  induction h with
  | tighter _ _ ih | plain _ ih => exact ih
  | blockPrimary h => exact fun _ _ => h
  | grouping hopen =>
      rintro ⟨t, u, hw, hk⟩ -
      obtain ⟨rfl, -⟩ := List.cons.inj hw
      rw [hopen] at hk
      cases hk
  | atom h =>
      rintro - ⟨ss, result, rfl⟩
      cases h
  | _ => first | exact trivial | (rintro - ⟨_, _, h⟩; cases h)

/-- Tokens between curly brackets that derive a block are its inside. -/
theorem Derives.inside {assignable : Bool} {opening closing : Token} {w : List Token}
    {ss : List Statement} {result : Option Expr} (hopen : opening.kind = .openCurly)
    (h : Derives (.expression assignable) (opening :: (w ++ [closing])) (.block ss result)) :
    Derives .body w (ss, result) := by
  have hblock : Derives .block (opening :: (w ++ [closing])) (.block ss result) :=
    h.blockOnly (.cons (decide_eq_true hopen)) ⟨ss, result, rfl⟩
  generalize hw : opening :: (w ++ [closing]) = w' at hblock
  cases hblock with
  | block _ hbody _ =>
      obtain ⟨-, htail⟩ := List.cons.inj hw
      obtain ⟨rfl, -⟩ := List.append_inj' htail rfl
      exact hbody

/-! ## The insides of blocks -/

/-- **A block without a result holds a program.** -/
theorem derives_program_iff {w : List Token} {ss : List Statement} :
    Derives .program w ss ↔ Derives .body w (ss, none) := by
  constructor
  · intro h
    have hbody := h.body .bodyNil
    rwa [List.append_nil] at hbody
  · intro h
    induction ss generalizing w with
    | nil =>
        cases h
        exact .programNil
    | cons s ss ih =>
        cases h with
        | bodyCons hfirst hmore => exact .programCons hfirst (ih hmore)

/-- **A block without statements holds an expression.** -/
theorem derives_result_iff {w : List Token} {e : Expr} :
    Derives (.expression true) w e ↔ Derives .body w ([], some e) := by
  constructor
  · exact .bodyResult
  · intro h
    cases h with
    | bodyResult he => exact he

/-! ## Tokens with other positions -/

theorem lexemes_behind_ended {w : List Token} (hw : ∀ t ∈ w, t.kind ≠ .eof) (p : Position) :
    ((ended p).behind w).lexemes = w.map Token.lexeme := by
  rw [lexemes, collect, behind, takeWhile_before_end hw]
  intro t ht
  cases ht
  rfl

theorem behind_injective {s : TokenStream} {u v : List Token} (h : s.behind u = s.behind v) :
    u = v :=
  List.append_cancel_right (congrArg pending h)

section

variable {w w' : List Token} (hlexemes : w'.map Token.lexeme = w.map Token.lexeme)
  (hproper : ∀ t ∈ w, t.Proper)

include hlexemes hproper

/-- Tokens that are read to the end of the input are read as the same tree wherever they stand. -/
theorem standard_read_elsewhere {α : Type} (phrase : Phrase α) (hphrase : ¬phrase.Marked)
    {v : α} {p : Position} (h : standard.read phrase ((ended p).behind w) = .ok v (ended p)) :
    standard.read phrase ((ended p).behind w') = .ok v (ended p) := by
  have hproper' : ∀ t ∈ w', t.kind ≠ .eof := by
    intro t ht
    obtain ⟨t', ht', hlexeme⟩ := List.mem_map.mp (hlexemes ▸ List.mem_map_of_mem ht)
    exact (Prod.mk.inj hlexeme).1 ▸ (hproper t' ht').1
  have hleft := lexemes_behind_ended (fun t ht => (hproper t ht).1) p
  have hright := lexemes_behind_ended hproper' p
  have hagree := agreesTo_of_lexemes (hleft.trans (hlexemes.symm.trans hright.symm))
  obtain ⟨i, hi, ⟨v', hread⟩ | ⟨problem, j, -, hread⟩⟩ :=
    (regular_read phrase hphrase).settled ((ended p).behind w)
  · have hself := hread _ fun _ _ => ⟨rfl, fun _ => rfl⟩
    rw [h] at hself
    obtain ⟨rfl, hstop⟩ := Reply.ok.inj hself
    -- all of the tokens are taken off
    have hplace : ((ended p).behind w).skip w.length = ((ended p).behind w).skip i := by
      rw [skip_behind, ← hstop]
    rw [hleft, List.length_map] at hi
    have hle : w.length ≤ ((ended p).behind w).remaining := by
      rw [remaining_behind]
      exact Nat.le_add_right _ _
    obtain rfl := eq_of_skip hle (Nat.le_trans hi hle) hplace
    have hlength : w.length = w'.length := by simpa using (congrArg List.length hlexemes).symm
    rw [hread _ (hagree.mono (by rw [hleft, List.length_map])), hlength, skip_behind]
  · rw [hread _ fun _ _ => ⟨rfl, fun _ => rfl⟩] at h
    cases h

end

/-- **What a program is derived from** may stand elsewhere. -/
theorem Derives.program_elsewhere {w w' : List Token} {ss : List Statement}
    (h : Derives .program w ss) (hlexemes : w'.map Token.lexeme = w.map Token.lexeme) :
    Derives .program w' ss := by
  have hread := h.readAs (ended .start) rfl
  have hread' := standard_read_elsewhere hlexemes h.proper .program nofun hread
  obtain ⟨-, u, hu, hderives⟩ := standard_read_sound _ hread'
  rwa [behind_injective hu]

/-- **What an expression is derived from** may stand elsewhere. -/
theorem Derives.expression_elsewhere {assignable : Bool} {w w' : List Token} {e : Expr}
    (h : Derives (.expression assignable) w e)
    (hlexemes : w'.map Token.lexeme = w.map Token.lexeme) :
    Derives (.expression assignable) w' e := by
  have hread := h.readAs 0 (ended .start) (by decide) ⟨rfl, by decide⟩
  have hread' := standard_read_elsewhere hlexemes h.proper (.expr 0 assignable) nofun hread
  obtain ⟨u, hu, hderives⟩ := standard_read_sound.expression hread'
  rwa [behind_injective hu]

/-! ## Source texts -/

section

variable {source : String} {assignable : Bool} {ss : List Statement} {result : Option Expr}

/-- A text that is a block between curly brackets derives the inside of the block. -/
theorem body_of_parse_braced
    (h : parseExpression ("\x7b" ++ source ++ "\n\x7d") assignable = .ok (.block ss result)) :
    ∃ w, w.map Token.lexeme = (tokensBeforeEnd source).map Token.lexeme ∧
      Derives .body w (ss, result) := by
  have hderives := derives_of_parseExpression h rfl
  have hnoError := noError_of_braced source fun t ht => (hderives.proper t ht).2
  obtain ⟨opening, w, closing, htokens, hopen, -, hw⟩ := tokens_braced source hnoError
  rw [htokens] at hderives
  exact ⟨w, hw, hderives.inside hopen⟩

/-- A text that derives the inside of a block wherever its tokens stand is this block between curly
    brackets. -/
theorem parse_braced_of_body (hnoError : ∀ t ∈ tokensBeforeEnd source, t.kind ≠ .error)
    (h : ∀ w, w.map Token.lexeme = (tokensBeforeEnd source).map Token.lexeme →
      Derives .body w (ss, result)) :
    parseExpression ("\x7b" ++ source ++ "\n\x7d") assignable = .ok (.block ss result) := by
  obtain ⟨opening, w, closing, htokens, hopen, hclose, hw⟩ := tokens_braced source hnoError
  have hblock := Derives.block hopen (h w hw) hclose
  apply parseExpression_of_derives
  rw [htokens]
  exact .plain (hblock.blockPrimary.loosen (by decide))

end

/-- **A block reads its inside as a program, or as an expression**, whether it may itself be an
    assignment or not. A text is read as statements without an error exactly if, between curly
    brackets, it is read as the block of these statements without a result; and it is read as an
    expression, other than one that stands for a diagnostic, exactly if, between curly brackets, it
    is read as the block without statements that has this expression for its result. -/
theorem parse_braced (source : String) (assignable : Bool) :
    (∀ ss : List Statement,
      (parseProgram source = .ok ss ∧ ∀ s ∈ ss, s.isError = false) ↔
        parseExpression ("\x7b" ++ source ++ "\n\x7d") assignable = .ok (.block ss none)) ∧
    (∀ e : Expr,
      (parseExpression source true = .ok e ∧ e.isError = false) ↔
        parseExpression ("\x7b" ++ source ++ "\n\x7d") assignable = .ok (.block [] (some e))) := by
  refine ⟨fun ss => ⟨?_, fun h => ?_⟩, fun e => ⟨?_, fun h => ?_⟩⟩
  · rintro ⟨h, hnoError⟩
    have hderives := derives_of_parseProgram h hnoError
    refine parse_braced_of_body (fun t ht => (hderives.proper t ht).2) fun w hw => ?_
    exact derives_program_iff.mp (hderives.program_elsewhere hw)
  · obtain ⟨w, hw, hbody⟩ := body_of_parse_braced h
    have hderives := (derives_program_iff.mpr hbody).program_elsewhere hw.symm
    exact ⟨parseProgram_of_derives hderives, hderives.noError⟩
  · rintro ⟨h, hnoError⟩
    have hderives := derives_of_parseExpression h hnoError
    refine parse_braced_of_body (fun t ht => (hderives.proper t ht).2) fun w hw => ?_
    exact derives_result_iff.mp (hderives.expression_elsewhere hw)
  · obtain ⟨w, hw, hbody⟩ := body_of_parse_braced h
    have hderives := (derives_result_iff.mpr hbody).expression_elsewhere hw.symm
    exact ⟨parseExpression_of_derives hderives, hderives.noError⟩

end ExprLang
