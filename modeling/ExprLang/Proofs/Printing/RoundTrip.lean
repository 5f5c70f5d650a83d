import ExprLang.Proofs.Grammar.Parsing
import ExprLang.Proofs.Printing.Statement

/-!
# `Proofs.Printing.RoundTrip` — reading undoes printing

The text of a canonical tree is scanned as tokens that derive the tree, by induction on the tree:
every form has its own lemma, which puts the texts of the parts together. Since reading is the
grammar, the tree is what is read from the text.

## Contents
- `Expr.Canonical.spelled`, `Statement.Canonical.spelled` and their like: the induction.
- `spells_programText`: statements joined by line feeds.
- `parse_text`: reading undoes printing.
-/

namespace ExprLang

/-! ## The induction on the tree -/

mutual

/-- **The text of a canonical expression** is scanned as tokens that derive it. -/
theorem Expr.Canonical.spelled : ∀ {e : Expr}, e.Canonical → e.Spelled
  | .error _, h | .assign _ _ _, h | .float _, h => by cases h
  | .ifElse _ _ none, h => .ifThen h.1.spelled h.2.2.spelled h.2.1
  | .ifElse _ _ (some _), h =>
      .ifElse h.1.spelled h.2.1.2.spelled h.2.1.1 h.2.2.2.spelled h.2.2.1
  | .whileLoop _ _, h => .whileLoop h.1.spelled h.2.2.spelled h.2.1
  | .forLoop _ _ _, h => .forLoop h.1 h.2.1.spelled h.2.2.2.spelled h.2.2.1
  | .block ss none, h => .block (bodySpelled ss h)
  | .block ss (some _), h => .blockResult (bodySpelled ss h.1) h.2.spelled
  | .binary o _ _, h => .binary o h.1.spelled h.2.spelled
  | .unary o subject, h => .unary o (Expr.Canonical.spelled (e := subject) h)
  | .call _ es, h => .call h.1.spelled (argumentsSpelled es h.2)
  | .member _ _, h => .member h.1.spelled h.2.1 h.2.2
  | .index _ _, h => .index h.1.spelled h.2.spelled
  | .name _, h => .name h
  | .int _, h => .int h.1 h.2
  | .char _, h => .char h
  | .string _, h => .string h
  | .bool b, _ => .bool b
  | .null, _ => .null

theorem argumentsSpelled : ∀ es : List Expr, argumentsCanonical es → ArgumentsSpelled es
  | [], _ => .nil
  | _ :: es, h => .cons h.1.spelled (argumentsSpelled es h.2)

theorem bodySpelled : ∀ ss : List Statement, bodyCanonical ss → BodySpelled ss
  | [], _ => .nil
  | _ :: ss, h => .cons h.1.spelled (bodySpelled ss h.2)

/-- **The text of a canonical statement** is scanned as tokens that derive it. -/
theorem Statement.Canonical.spelled : ∀ {s : Statement}, s.Canonical → s.Spelled
  | .error _, h | .classDef _ _ _, h => by cases h
  | .expr e, h => .expr (Expr.Canonical.spelled (e := e) h)
  | .function f, h => FunctionDef.Canonical.spelled (f := f) h
  | .letIn p, h => .letIn (Parameter.Canonical.spelled (p := p) h)
  | .returning none, _ => .jump "return" rfl rfl
  | .returning (some e), h => .jumpValue "return" rfl rfl (Expr.Canonical.spelled (e := e) h)
  | .breaking none, _ => .jump "break" rfl rfl
  | .breaking (some e), h => .jumpValue "break" rfl rfl (Expr.Canonical.spelled (e := e) h)
  | .continuing none, _ => .jump "continue" rfl rfl
  | .continuing (some e), h => .jumpValue "continue" rfl rfl (Expr.Canonical.spelled (e := e) h)

theorem Parameter.Canonical.spelled : ∀ {p : Parameter}, p.Canonical → p.Spelled
  | ⟨_, _, none⟩, h => .intro h.1 h.2 fun _ he => (by cases he)
  | ⟨_, _, some e⟩, h => .intro h.1.1 h.1.2 fun _ he => by
      cases he
      exact Expr.Canonical.spelled (e := e) h.2

theorem parametersSpelled : ∀ ps : List Parameter, parametersCanonical ps → ParametersSpelled ps
  | [], _ => .nil
  | _ :: ps, h => .cons h.1.spelled (parametersSpelled ps h.2)

theorem FunctionDef.Canonical.spelled :
    ∀ {f : FunctionDef}, f.Canonical → (Statement.function f).Spelled
  | ⟨_, ps, _, _⟩, h =>
      .function h.1 (parametersSpelled ps h.2.1) h.2.2.1 h.2.2.2.2.spelled h.2.2.2.1

end

/-! ## Whole texts -/

/-- **The text of a program** is scanned statement by statement, since no statement goes on behind a
    line feed. -/
theorem spells_programText {ss : List Statement} (h : ∀ s ∈ ss, s.Canonical) :
    Spells (programText ss) Detached (Derives .program · ss) := by
  rw [programText]
  induction ss with
  | nil =>
      rw [List.map_nil, String.intercalate_nil]
      exact .empty .programNil
  | cons s ss ih =>
      obtain ⟨hs, hss⟩ := List.forall_mem_cons.mp h
      cases ss with
      | nil =>
          rw [List.map_singleton, String.intercalate_singleton]
          apply hs.spelled.imp
          intro w hw
          have hprogram := Derives.programCons hw .programNil
          rwa [List.append_nil] at hprogram
      | cons s' ss =>
          have hfirst := hs.spelled.append (.blank '\n' rfl)
            fun _ _ => detached_cons rfl (by decide) _
          rw [List.map_cons, List.map_cons, String.intercalate_cons_cons]
          refine (hfirst.join (ih hss)).imp ?_
          rintro _ ⟨_, v, ⟨u, _, hu, rfl, rfl⟩, hv, rfl⟩
          rw [List.append_nil]
          exact .programCons hu hv

/-- **Reading undoes printing.** A canonical expression is read from its text, whether it may be an
    assignment or not; and canonical statements are read from their texts, joined by line feeds. -/
theorem parse_text :
    (∀ e : Expr, e.Canonical → ∀ assignable, parseExpression e.text assignable = .ok e) ∧
    (∀ ss : List Statement, (∀ s ∈ ss, s.Canonical) → parseProgram (programText ss) = .ok ss) := by
  constructor
  · intro e he assignable
    have htokens := he.spelled.tokensBeforeEnd (detached_nil.apart e)
    exact parseExpression_of_derives (htokens.expression assignable)
  · intro ss hss
    exact parseProgram_of_derives ((spells_programText hss).tokensBeforeEnd detached_nil)

/-- A conditional whose branch is a block, and a function that returns a quote. -/
theorem parse_text_conditional :
    ((Expr.ifElse (.unary .not (.name "x")) (.block [] (some (.int 1))) none).Canonical ∧
      parseExpression
          (Expr.ifElse (.unary .not (.name "x")) (.block [] (some (.int 1))) none).text false =
        .ok (.ifElse (.unary .not (.name "x")) (.block [] (some (.int 1))) none)) ∧
    (∀ s ∈ [Statement.function ⟨"f", [], none, .block [.returning (some (.string "\""))] none⟩],
      s.Canonical) ∧
    parseProgram (programText
        [.function ⟨"f", [], none, .block [.returning (some (.string "\""))] none⟩]) =
      .ok [.function ⟨"f", [], none, .block [.returning (some (.string "\""))] none⟩] := by
  have hx : IsName "x" := ⟨⟨'x', [], rfl, rfl, rfl⟩, rfl⟩
  have hf : IsName "f" := ⟨⟨'f', [], rfl, rfl, rfl⟩, rfl⟩
  have hquote : Shown true '"' := ⟨by decide, by decide⟩
  have hbranch :
      (Expr.ifElse (.unary .not (.name "x")) (.block [] (some (.int 1))) none).Canonical :=
    ⟨hx, ⟨_, _, rfl⟩, trivial, by decide, by decide⟩
  have hfunction : ∀ s ∈
      [Statement.function ⟨"f", [], none, .block [.returning (some (.string "\""))] none⟩],
      s.Canonical := by
    intro s hs
    obtain rfl := List.mem_singleton.mp hs
    have hresult : ∀ t ∈ (none : Option TypeName), t.Canonical := by
      intro t ht
      cases ht
    exact ⟨hf, trivial, hresult, ⟨_, _, rfl⟩, ⟨hquote, List.forall_mem_nil _⟩, trivial⟩
  exact ⟨⟨hbranch, parse_text.1 _ hbranch false⟩, hfunction, parse_text.2 _ hfunction⟩

end ExprLang
