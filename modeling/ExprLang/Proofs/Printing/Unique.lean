import ExprLang.Proofs.Printing.Readable

/-!
# `Proofs.Printing.Unique` — printing identifies the tree

Two legible trees with the same text are the same tree. Statements end with a semicolon or a block,
so that their texts show where they end; with them the texts of blocks, of parameters and of
functions do. The induction on the tree then only puts the lemmas of the forms together.

Nothing is read back here. An assignment inside of an operation, a member of an integer or a
character that is written by its code point has a text of its own, although no reader gives the tree
for it.

## Contents
- `Statement.Readable`, `Parameter.Readable`: trees that their texts tell apart.
- `inside_unique`, `Expr.Readable.ofBlock`: blocks.
- `Parameter.Readable.intro`, `Statement.Readable.expr` and so on, `FunctionDef.Readable.intro`: one
  lemma for each form.
- `Expr.Legible.readable`, `Statement.Legible.readable`: the induction.
- `text_unique`: trees with the same text.
-/

namespace ExprLang

variable {r r' : List Char}

/-! ## Statements and parameters -/

/-- The text of the statement tells it from all legible ones, and shows where it ends; and if the
    statement is an expression, so does the text of the expression. -/
structure Statement.Readable (s : Statement) : Prop where
  unique : ∀ {s' : Statement} {r r' : List Char}, s'.Legible →
    s.text.toList ++ r = s'.text.toList ++ r' → s = s' ∧ r = r'
  inner : ∀ {e : Expr}, s = .expr e → e.Readable

/-- The text of the parameter tells it from all legible ones, in front of whatever may follow. -/
def Parameter.Readable (p : Parameter) : Prop :=
  ∀ {p' : Parameter} {r r' : List Char}, p'.Legible → Closing r → Closing r' →
    p.text.toList ++ r = p'.text.toList ++ r' → p = p' ∧ r = r'

/-- The text of the function tells it from all legible ones, and shows where it ends. -/
def FunctionDef.Readable (f : FunctionDef) : Prop :=
  ∀ {f' : FunctionDef} {r r' : List Char}, f'.Legible →
    f.text.toList ++ r = f'.text.toList ++ r' → f = f' ∧ r = r'

/-! ## Blocks -/

/-- The end of a block, from behind its statements on. -/
def blockEnd (result : Option Expr) (r : List Char) : List Char :=
  optional " " Expr.text result ++ ' ' :: '}' :: r

theorem blockEnd_some (e : Expr) (r : List Char) :
    blockEnd (some e) r = ' ' :: (e.text.toList ++ ' ' :: '}' :: r) := by
  simp [blockEnd, optional]

theorem ended_close (r : List Char) : Ended (' ' :: '}' :: r) := ended_blank (by decide) r

/-- A result is no statement: what stands behind it is not a semicolon. -/
theorem result_ne_statement {e : Expr} {s : Statement} (he : e.Legible) (hs : s.Legible)
    (hreadable : e.Readable ∨ s.Readable) (x : List Char) :
    e.text.toList ++ ' ' :: '}' :: r ≠ s.text.toList ++ x := by
  intro heq
  rcases hs.expr_or with ⟨e', rfl⟩ | hopen
  · have he' : e'.Legible := hs.part (.head _)
    rw [toList_exprStatement] at heq
    have hsemicolon : Ended (';' :: x) := ended_mark (by decide) x
    rcases hreadable with h | h
    · cases (List.cons.inj (h.whole he' (ended_close r) hsemicolon heq).2).1
    · cases (List.cons.inj ((h.inner rfl).whole he hsemicolon (ended_close r) heq.symm).2).1
  · refine he.text_ne (unworded_cons rfl _) ?_ heq
    rw [openingKind_statement hs, hopen.opensText]

/-- Behind the statements of a block no statement follows. -/
theorem blockEnd_ne_statement {result : Option Expr} {s : Statement}
    (hresult : ∀ e ∈ result, e.Legible) (hs : s.Legible)
    (hreadable : (∀ e ∈ result, e.Readable) ∨ s.Readable) (x : List Char) :
    blockEnd result r ≠ ' ' :: (s.text.toList ++ x) := by
  intro heq
  cases result with
  | none =>
      have hclose : Kind.closeCurly = s.opening := by
        rw [← openingKind_statement hs x, ← (List.cons.inj heq).2]
        rfl
      rcases hs.expr_or with ⟨e, rfl⟩ | hopen
      · have he : e.Legible := hs.part (.head _)
        have hopens := he.opensText
        rw [← show Kind.closeCurly = e.opening from hclose] at hopens
        cases hopens
      · rw [← hclose] at hopen
        cases hopen with
        | jump h => cases h
  | some e =>
      rw [blockEnd_some] at heq
      exact result_ne_statement (hresult e rfl) hs (hreadable.imp_left fun h => h e rfl) x
        (List.cons.inj heq).2

theorem blockEnd_unique {result result' : Option Expr}
    (hresult : ∀ e ∈ result, e.Legible ∧ e.Readable) (hresult' : ∀ e ∈ result', e.Legible)
    (heq : blockEnd result r = blockEnd result' r') : result = result' ∧ r = r' := by
  cases result with
  | none =>
      cases result' with
      | none => exact ⟨rfl, (List.cons.inj (List.cons.inj heq).2).2⟩
      | some e' =>
          rw [blockEnd_some] at heq
          exact absurd (List.cons.inj heq).2.symm
            ((hresult' e' rfl).text_ne (unworded_cons rfl _) rfl)
  | some e =>
      cases result' with
      | none =>
          rw [blockEnd_some] at heq
          exact absurd (List.cons.inj heq).2 ((hresult e rfl).1.text_ne (unworded_cons rfl _) rfl)
      | some e' =>
          rw [blockEnd_some, blockEnd_some] at heq
          obtain ⟨rfl, hclose⟩ := (hresult e rfl).2.whole (hresult' e' rfl) (ended_close r)
            (ended_close r') (List.cons.inj heq).2
          exact ⟨rfl, (List.cons.inj (List.cons.inj hclose).2).2⟩

/-- **The inside of a block** is told apart up to its closing bracket, by induction on its
    statements. -/
theorem inside_unique {ss ss' : List Statement} {result result' : Option Expr}
    (hss : ∀ s ∈ ss, s.Legible ∧ s.Readable) (hss' : ∀ s ∈ ss', s.Legible)
    (hresult : ∀ e ∈ result, e.Legible ∧ e.Readable) (hresult' : ∀ e ∈ result', e.Legible)
    (heq : (bodyText ss).toList ++ blockEnd result r = (bodyText ss').toList ++ blockEnd result' r') :
    ss = ss' ∧ result = result' ∧ r = r' := by
  have hnil : ∀ x, (bodyText []).toList ++ x = x := fun x => by rw [bodyText]; rfl
  induction ss generalizing ss' with
  | nil =>
      rw [hnil] at heq
      cases ss' with
      | nil =>
          rw [hnil] at heq
          exact ⟨rfl, blockEnd_unique hresult hresult' heq⟩
      | cons s' ss' =>
          rw [toList_body] at heq
          exact absurd heq (blockEnd_ne_statement (fun e he => (hresult e he).1)
            (hss' s' (.head _)) (.inl fun e he => (hresult e he).2) _)
  | cons s ss ih =>
      rw [toList_body] at heq
      cases ss' with
      | nil =>
          rw [hnil] at heq
          exact absurd heq.symm
            (blockEnd_ne_statement hresult' (hss s (.head _)).1 (.inr (hss s (.head _)).2) _)
      | cons s' ss' =>
          rw [toList_body] at heq
          obtain ⟨rfl, hmore⟩ := (hss s (.head _)).2.unique (hss' s' (.head _)) (List.cons.inj heq).2
          obtain ⟨rfl, hend⟩ := ih (fun s hs => hss s (.tail _ hs)) (fun s hs => hss' s (.tail _ hs))
            hmore
          exact ⟨rfl, hend⟩

/-- The parts of a legible block are legible. -/
theorem Expr.Legible.inside {ss : List Statement} {result : Option Expr}
    (h : (Expr.block ss result).Legible) :
    (∀ s ∈ ss, s.Legible) ∧ ∀ e ∈ result, e.Legible :=
  ⟨fun _ hs => h.part (List.mem_append_left _ (List.mem_map_of_mem hs)),
    fun _ he => h.part (List.mem_append_right _ (List.mem_map_of_mem (Option.mem_toList.mpr he)))⟩

/-- **A block** is readable if its statements and its result are. -/
theorem Expr.Readable.ofBlock {ss : List Statement} {result : Option Expr}
    (he : (Expr.block ss result).Legible) (hss : ∀ s ∈ ss, s.Readable)
    (hresult : ∀ e ∈ result, e.Readable) : (Expr.block ss result).Readable := by
  have hunique : ∀ {ss' : List Statement} {result' : Option Expr} {r r' : List Char},
      (Expr.block ss' result').Legible →
      (Expr.block ss result).text.toList ++ r = (Expr.block ss' result').text.toList ++ r' →
      Expr.block ss result = .block ss' result' ∧ r = r' := by
    intro ss' result' r r' he' heq
    rw [toList_block, toList_block] at heq
    obtain ⟨rfl, rfl, hr⟩ := inside_unique (fun s hs => ⟨he.inside.1 s hs, hss s hs⟩) he'.inside.1
      (fun e hmem => ⟨he.inside.2 e hmem, hresult e hmem⟩) he'.inside.2 (List.cons.inj heq).2
    exact ⟨rfl, hr⟩
  constructor
  · intro e' r r' he' hr hr' heq
    refine comparable_of_head he ?_ he' hr hr' heq
    intro h r r' hopen hlegible _ _ heq
    cases hopen with
    | block => exact (hunique hlegible heq).1
  · rintro e' r r' - ⟨ss', result', rfl⟩ he' heq
    exact hunique he' heq

/-! ## Parameters -/

/-- What may stand behind a parameter is no mark of its parts. -/
theorem Closing.unmarked {mark : String} {c : Char} {u : List Char} (h : Closing r)
    (hmark : mark.toList = c :: u) (hc : c ∉ [')', ',', ';']) : ¬mark.toList <+: r := by
  obtain ⟨d, hd, v, rfl⟩ := h
  rintro ⟨w, hw⟩
  rw [hmark] at hw
  exact hc ((List.cons.inj hw).1 ▸ hd)

theorem optional_value (value : Option Expr) (hr : Closing r) :
    Unworded (optional " = " Expr.text value ++ r) ∧
      ¬": ".toList <+: optional " = " Expr.text value ++ r := by
  cases value with
  | none => exact ⟨hr.ended.severed.1, hr.unmarked rfl (by decide)⟩
  | some e => exact ⟨unworded_cons rfl _, by rintro ⟨w, hw⟩; cases (List.cons.inj hw).1⟩

/-- The parts of a legible parameter are legible. -/
theorem Parameter.Legible.inside {subject : Pattern} {type : Option TypeName} {value : Option Expr}
    (h : (Parameter.mk subject type value).Legible) :
    (Node.pattern subject).Throughout Node.Legible ∧
      (∀ t ∈ type, (Node.type t).Throughout Node.Legible) ∧ ∀ e ∈ value, e.Legible :=
  ⟨h.part (.head _),
    fun _ ht => h.part (.tail _ (List.mem_append_left _
      (List.mem_map_of_mem (Option.mem_toList.mpr ht)))),
    fun _ he => h.part (.tail _ (List.mem_append_right _
      (List.mem_map_of_mem (Option.mem_toList.mpr he))))⟩

/-- **A parameter** is readable if its value is. -/
theorem Parameter.Readable.intro {subject : Pattern} {type : Option TypeName} {value : Option Expr}
    (hp : (Parameter.mk subject type value).Legible) (hvalue : ∀ e ∈ value, e.Readable) :
    (Parameter.mk subject type value).Readable := by
  rintro ⟨subject', type', value'⟩ r r' hp' hr hr' heq
  obtain ⟨hsubject, htypes, -⟩ := hp.inside
  obtain ⟨hsubject', htypes', hvalues'⟩ := hp'.inside
  obtain ⟨hword, hcolon⟩ := optional_value value hr
  obtain ⟨hword', hcolon'⟩ := optional_value value' hr'
  have hdeclared : ∀ {type : Option TypeName} {x : List Char}, Unworded x →
      Unworded (optional ": " TypeName.text type ++ x) := by
    intro type x hx
    cases type with
    | none => exact hx
    | some t => exact unworded_cons rfl _
  rw [toList_parameter, toList_parameter] at heq
  obtain ⟨rfl, hbehind⟩ := pattern_unique hsubject hsubject'
    (hdeclared hword) (hdeclared hword') heq
  obtain ⟨rfl, hmore⟩ := optional_unique hcolon hcolon'
    (fun t ht t' ht' => type_unique (htypes t ht) (htypes' t' ht') hword hword') hbehind
  obtain ⟨rfl, hrest⟩ := optional_unique (hr.unmarked rfl (by decide))
    (hr'.unmarked rfl (by decide))
    (fun e he e' he' => (hvalue e he).whole (hvalues' e' he') hr.ended hr'.ended) hmore
  exact ⟨rfl, hrest⟩

/-- Parameters are told apart up to the parenthesis behind them. -/
theorem parameters_unique {ps ps' : List Parameter} (hps : ∀ p ∈ ps, p.Legible ∧ p.Readable)
    (hps' : ∀ p ∈ ps', p.Legible)
    (heq : (parametersText ps).toList ++ ')' :: r = (parametersText ps').toList ++ ')' :: r') :
    ps = ps' ∧ r = r' := by
  have hopen : ∀ {p : Parameter}, p.Legible → ∀ x x', Closing x →
      p.text.toList ++ x ≠ ')' :: x' := by
    rintro ⟨subject, type, value⟩ hp x x' - heq
    have hsubject := hp.inside.1
    rw [toList_parameter] at heq
    cases subject with
    | error => exact hsubject.root.1
    | named name =>
        obtain ⟨c, u, hname, hc, -⟩ := hsubject.root.2.word
        rw [Pattern.text, hname] at heq
        rw [(List.cons.inj heq).1] at hc
        cases hc
  refine separated_parameters.unique (fun p hp => hopen (hps p hp).1)
    (fun p hp => hopen (hps' p hp)) (fun p hp p' hp' x x' hx hx' => ?_) heq
  exact (hps p hp).2 (hps' p' hp') hx hx'

/-! ## Statements -/

namespace Statement.Readable

theorem expr {e : Expr} (he : e.Legible) (h : e.Readable) : (Statement.expr e).Readable where
  unique := by
    intro s' r r' hs' heq
    rw [toList_exprStatement] at heq
    rcases hs'.expr_or with ⟨e', rfl⟩ | hopen
    · have he' : e'.Legible := hs'.part (.head _)
      rw [toList_exprStatement] at heq
      obtain ⟨rfl, hsemicolon⟩ := h.whole he' (ended_mark (by decide) r)
        (ended_mark (by decide) r') heq
      exact ⟨rfl, (List.cons.inj hsemicolon).2⟩
    · refine absurd heq (he.text_ne (unworded_cons rfl _) ?_)
      rw [openingKind_statement hs', hopen.opensText]
  inner := by
    rintro _ ⟨⟩
    exact h

/-- **A statement that opens with a keyword** is readable if its text tells it from those that open
    alike. -/
theorem of_opensAs {s : Statement} (hs : s.Legible) {k : Kind} (hopen : s.OpensAs k)
    (hsame : ∀ {s' : Statement} {r r' : List Char}, s'.OpensAs k → s'.Legible →
      s.text.toList ++ r = s'.text.toList ++ r' → s = s' ∧ r = r') : s.Readable := by
  have hexpr : ∀ {e : Expr}, s ≠ .expr e := by
    rintro e rfl
    cases hopen with
    | jump h => cases h
  have hkind : s.opening = k := by
    cases hopen with
    | function | letIn => rfl
    | jump h => exact h.opening
  constructor
  · intro s' r r' hs' heq
    have hopening := openingKind_statement hs r
    rw [heq, openingKind_statement hs', hkind] at hopening
    rcases hs'.expr_or with ⟨e', rfl⟩ | hopen'
    · have he' : e'.Legible := hs'.part (.head _)
      have hopens := he'.opensText
      rw [show e'.opening = k from hopening, hopen.opensText] at hopens
      cases hopens
    · exact hsame (hopening ▸ hopen') hs' heq
  · intro e he
    exact absurd he hexpr

theorem letIn {p : Parameter} (hs : (Statement.letIn p).Legible) (h : p.Readable) :
    (Statement.letIn p).Readable := by
  refine .of_opensAs hs .letIn ?_
  intro s' r r' hopen hs' heq
  cases hopen with
  | @letIn p' =>
      have hp' : p'.Legible := hs'.part (.head _)
      rw [toList_letIn, toList_letIn, List.append_cancel_left_eq] at heq
      obtain ⟨rfl, hsemicolon⟩ := h hp' (closing_cons (by decide) r) (closing_cons (by decide) r')
        (List.cons.inj heq).2
      exact ⟨rfl, (List.cons.inj hsemicolon).2⟩
  | jump h => cases h

theorem function {f : FunctionDef} (hs : (Statement.function f).Legible) (h : f.Readable) :
    (Statement.function f).Readable := by
  refine .of_opensAs hs .function ?_
  intro s' r r' hopen hs' heq
  cases hopen with
  | @function f' =>
      have hf' : f'.Legible := hs'.part (.head _)
      rw [Statement.text, Statement.text] at heq
      obtain ⟨rfl, hr⟩ := h hf' heq
      exact ⟨rfl, hr⟩
  | jump h => cases h

/-- **A jump** is readable if its value is. -/
theorem jump {s : Statement} {word : String} {k : Kind} {value : Option Expr}
    (h : s.IsJump word k value) (hs : s.Legible) (hvalue : ∀ e ∈ value, e.Readable) :
    s.Readable := by
  refine .of_opensAs hs (.jump h) ?_
  intro s' r r' hopen hs' heq
  cases hopen with
  | function | letIn => cases h
  | @jump _ word' _ value' h' =>
      have hvalues' : ∀ e ∈ value', e.Legible := by
        intro e he
        refine hs'.part ?_
        rw [h'.parts]
        exact List.mem_map_of_mem (Option.mem_toList.mpr he)
      have hclosing : ∀ x, Closing (';' :: x) := closing_cons (by decide)
      obtain ⟨rfl, hjump⟩ := h.unique h'
      rw [h.toList, h'.toList, List.append_cancel_left_eq] at heq
      obtain ⟨hsame, hsemicolon⟩ := optional_unique ((hclosing r).unmarked rfl (by decide))
        ((hclosing r').unmarked rfl (by decide))
        (fun e he e' he' => (hvalue e he).whole (hvalues' e' he') (hclosing r).ended
          (hclosing r').ended) heq
      exact ⟨hjump hsame, (List.cons.inj hsemicolon).2⟩

end Statement.Readable

/-! ## Functions -/

/-- A body is no type of a result. -/
theorem Expr.IsBlock.not_arrow {e : Expr} (h : e.IsBlock) (rest : List Char) :
    ¬" -> ".toList <+: ' ' :: (e.text.toList ++ rest) := by
  obtain ⟨ss, result, rfl⟩ := h
  rintro ⟨u, hu⟩
  rw [toList_block] at hu
  cases (List.cons.inj (List.cons.inj hu).2).1

/-- The parts of a legible function are legible. -/
theorem FunctionDef.Legible.inside {name : String} {ps : List Parameter}
    {result : Option TypeName} {body : Expr} (h : (FunctionDef.mk name ps result body).Legible) :
    (∀ p ∈ ps, p.Legible) ∧ (∀ t ∈ result, (Node.type t).Throughout Node.Legible) ∧
      body.Legible :=
  ⟨fun _ hp => h.part (.tail _ (List.mem_append_left _ (List.mem_map_of_mem hp))),
    fun _ ht => h.part (.tail _ (List.mem_append_right _
      (List.mem_map_of_mem (Option.mem_toList.mpr ht)))),
    h.part (.head _)⟩

/-- **A function** is readable if its parameters and its body are. -/
theorem FunctionDef.Readable.intro {name : String} {ps : List Parameter} {result : Option TypeName}
    {body : Expr} (hf : (FunctionDef.mk name ps result body).Legible) (hps : ∀ p ∈ ps, p.Readable)
    (hbody : body.Readable) : (FunctionDef.mk name ps result body).Readable := by
  rintro ⟨name', ps', result', body'⟩ r r' hf' heq
  obtain ⟨hparameters, htypes, -⟩ := hf.inside
  obtain ⟨hparameters', htypes', hlegible'⟩ := hf'.inside
  have hblock : body.IsBlock := hf.root.1
  have hblock' : body'.IsBlock := hf'.root.1
  rw [toList_function, toList_function, List.append_cancel_left_eq] at heq
  obtain ⟨rfl, hopen⟩ := name_unique hf.root.2 hf'.root.2 (unworded_cons rfl _)
    (unworded_cons rfl _) (List.cons.inj heq).2
  obtain ⟨rfl, hbehind⟩ := parameters_unique (fun p hp => ⟨hparameters p hp, hps p hp⟩)
    hparameters' (List.cons.inj hopen).2
  obtain ⟨rfl, hblocks⟩ := optional_unique (hblock.not_arrow r) (hblock'.not_arrow r')
    (fun t ht t' ht' => type_unique (htypes t ht) (htypes' t' ht') (unworded_cons rfl _)
      (unworded_cons rfl _)) hbehind
  obtain ⟨rfl, hr⟩ := hbody.block hblock hblock' hlegible' (List.cons.inj hblocks).2
  exact ⟨rfl, hr⟩

/-! ## The induction on the tree -/

mutual

/-- **The text of a legible expression** tells it from all others. -/
theorem Expr.Legible.readable : ∀ {e : Expr}, e.Legible → e.Readable
  | .error _, h => h.root.1.elim
  | .float _, h => h.root.2.elim
  | .ifElse condition truthy none, h =>
      .ifElse h (Expr.Legible.readable (e := condition) (h.part (.head _)))
        (Expr.Legible.readable (e := truthy) (h.part (.tail _ (.head _))))
        fun _ he => (by cases he)
  | .ifElse condition truthy (some falsy), h =>
      .ifElse h (Expr.Legible.readable (e := condition) (h.part (.head _)))
        (Expr.Legible.readable (e := truthy) (h.part (.tail _ (.head _)))) fun _ he => by
          cases he
          exact Expr.Legible.readable (e := falsy) (h.part (.tail _ (.tail _ (.head _))))
  | .whileLoop condition body, h =>
      .whileLoop h (Expr.Legible.readable (e := condition) (h.part (.head _)))
        (Expr.Legible.readable (e := body) (h.part (.tail _ (.head _))))
  | .forLoop _ iterable body, h =>
      .forLoop h (Expr.Legible.readable (e := iterable) (h.part (.tail _ (.head _))))
        (Expr.Legible.readable (e := body) (h.part (.tail _ (.tail _ (.head _)))))
  | .block ss none, h =>
      .ofBlock h (statementsReadable ss h.inside.1) fun _ he => (by cases he)
  | .block ss (some result), h =>
      .ofBlock h (statementsReadable ss h.inside.1) fun _ he => by
        cases he
        exact Expr.Legible.readable (e := result) (h.inside.2 result rfl)
  | .assign _ subject value, h =>
      .assign h (Expr.Legible.readable (e := subject) (h.part (.head _)))
        (Expr.Legible.readable (e := value) (h.part (.tail _ (.head _))))
  | .binary _ left right, h =>
      .binary h (Expr.Legible.readable (e := left) (h.part (.head _)))
        (Expr.Legible.readable (e := right) (h.part (.tail _ (.head _))))
  | .unary _ subject, h => .unary h (Expr.Legible.readable (e := subject) (h.part (.head _)))
  | .call subject given, h =>
      have hgiven : ∀ e ∈ given, e.Legible :=
        fun _ he => h.part (.tail _ (List.mem_map_of_mem he))
      .call (Expr.Legible.readable (e := subject) (h.part (.head _)))
        fun e he => ⟨hgiven e he, expressionsReadable given hgiven e he⟩
  | .member subject _, h =>
      .member (Expr.Legible.readable (e := subject) (h.part (.head _))) h
  | .index subject key, h =>
      .index (Expr.Legible.readable (e := subject) (h.part (.head _)))
        (Expr.Legible.readable (e := key) (h.part (.tail _ (.head _))))
  | .name _, h => .name h
  | .int _, h => .int h
  | .char _, h => .char h
  | .string _, h => .string h
  | .bool _, h => .bool h
  | .null, h => .null h

theorem expressionsReadable : ∀ es : List Expr, (∀ e ∈ es, e.Legible) → ∀ e ∈ es, e.Readable
  | [], _ => List.forall_mem_nil _
  | e :: es, h =>
      List.forall_mem_cons.mpr ⟨Expr.Legible.readable (e := e) (h e (.head _)),
        expressionsReadable es fun e he => h e (.tail _ he)⟩

theorem statementsReadable :
    ∀ ss : List Statement, (∀ s ∈ ss, s.Legible) → ∀ s ∈ ss, s.Readable
  | [], _ => List.forall_mem_nil _
  | s :: ss, h =>
      List.forall_mem_cons.mpr ⟨Statement.Legible.readable (s := s) (h s (.head _)),
        statementsReadable ss fun s hs => h s (.tail _ hs)⟩

/-- **The text of a legible statement** tells it from all others. -/
theorem Statement.Legible.readable : ∀ {s : Statement}, s.Legible → s.Readable
  | .error _, h | .classDef _ _ _, h => h.root.1.elim
  | .expr e, h =>
      have he : e.Legible := h.part (.head _)
      .expr he (Expr.Legible.readable (e := e) he)
  | .function f, h => .function h (FunctionDef.Legible.readable (f := f) (h.part (.head _)))
  | .letIn p, h => .letIn h (Parameter.Legible.readable (p := p) (h.part (.head _)))
  | .returning none, h => .jump .returning h fun _ he => (by cases he)
  | .breaking none, h => .jump .breaking h fun _ he => (by cases he)
  | .continuing none, h => .jump .continuing h fun _ he => (by cases he)
  | .returning (some e), h => .jump .returning h fun _ he => by
      cases he
      exact Expr.Legible.readable (e := e) (h.part (.head _))
  | .breaking (some e), h => .jump .breaking h fun _ he => by
      cases he
      exact Expr.Legible.readable (e := e) (h.part (.head _))
  | .continuing (some e), h => .jump .continuing h fun _ he => by
      cases he
      exact Expr.Legible.readable (e := e) (h.part (.head _))

theorem parametersReadable :
    ∀ ps : List Parameter, (∀ p ∈ ps, p.Legible) → ∀ p ∈ ps, p.Readable
  | [], _ => List.forall_mem_nil _
  | p :: ps, h =>
      List.forall_mem_cons.mpr ⟨Parameter.Legible.readable (p := p) (h p (.head _)),
        parametersReadable ps fun p hp => h p (.tail _ hp)⟩

theorem Parameter.Legible.readable : ∀ {p : Parameter}, p.Legible → p.Readable
  | ⟨_, _, none⟩, h => Parameter.Readable.intro h fun _ he => (by cases he)
  | ⟨_, _, some e⟩, h => Parameter.Readable.intro h fun _ he => by
      cases he
      exact Expr.Legible.readable (e := e) (h.inside.2.2 e rfl)

theorem FunctionDef.Legible.readable : ∀ {f : FunctionDef}, f.Legible → f.Readable
  | ⟨_, ps, _, body⟩, h =>
      FunctionDef.Readable.intro h (parametersReadable ps h.inside.1)
        (Expr.Legible.readable (e := body) h.inside.2.2)

end

/-! ## Whole texts -/

/-- **Printing identifies the tree.** Two legible expressions with the same text are the same, and
    so are two legible statements, wherever assignments stand in them. -/
theorem text_unique :
    (∀ e e' : Expr, e.Legible → e'.Legible → e.text = e'.text → e = e') ∧
    ∀ s s' : Statement, s.Legible → s'.Legible → s.text = s'.text → s = s' := by
  constructor
  · intro e e' he he' htext
    have hlist : e.text.toList ++ [] = e'.text.toList ++ [] := by rw [htext]
    exact (he.readable.whole he' ended_nil ended_nil hlist).1
  · intro s s' hs hs' htext
    have hlist : s.text.toList ++ [] = s'.text.toList ++ [] := by rw [htext]
    exact (hs.readable.unique hs' hlist).1

/-- Two calls with an assignment to a member of an integer, where a string that holds the character
    of code point 1 is not taken for one that spells it; and a binding of an assignment. -/
theorem text_unique_assignment :
    (Expr.call (.name "f") [.assign .assign (.member (.int 1) "x") (.string "\x01")]).Legible ∧
    (Expr.call (.name "f")
      [.assign .assign (.member (.int 1) "x") (.string "u\x7b1\x7d")]).Legible ∧
    (Expr.call (.name "f") [.assign .assign (.member (.int 1) "x") (.string "\x01")]).text ≠
      (Expr.call (.name "f")
        [.assign .assign (.member (.int 1) "x") (.string "u\x7b1\x7d")]).text ∧
    (Statement.letIn ⟨.named "x", none, some (.assign .add (.name "f") (.int 2))⟩).Legible ∧
    Statement.letIn ⟨.named "x", none, some (.assign .add (.name "f") (.int 2))⟩ =
      .letIn ⟨.named "x", none, some (.assign .add (.name "f") (.int (1 + 1)))⟩ := by
  have hx : IsName "x" := ⟨⟨'x', [], rfl, rfl, rfl⟩, rfl⟩
  have hf : IsName "f" := ⟨⟨'f', [], rfl, rfl, rfl⟩, rfl⟩
  have hname : (Expr.name "f").Legible := Node.Throughout.intro ⟨trivial, hf⟩ nofun
  have hint : ∀ n, 0 ≤ n → (Expr.int n).Legible := fun n hn =>
    Node.Throughout.intro ⟨trivial, hn⟩ nofun
  have hassign : ∀ {o subject value}, subject.Legible → value.Legible →
      (Expr.assign o subject value).Legible := fun hs hv =>
    Node.Throughout.intro ⟨trivial, trivial⟩
      (List.forall_mem_cons.mpr ⟨hs, List.forall_mem_singleton.mpr hv⟩)
  have hmember : (Expr.member (.int 1) "x").Legible :=
    Node.Throughout.intro ⟨trivial, hx⟩ (List.forall_mem_singleton.mpr (hint 1 (by decide)))
  have hcall : ∀ s, (Expr.call (.name "f")
      [.assign .assign (.member (.int 1) "x") (.string s)]).Legible := fun s =>
    Node.Throughout.intro ⟨trivial, trivial⟩ (List.forall_mem_cons.mpr ⟨hname,
      List.forall_mem_singleton.mpr
        (hassign hmember (Node.Throughout.intro ⟨trivial, trivial⟩ nofun))⟩)
  have hbinding : ∀ n, 0 ≤ n →
      (Statement.letIn ⟨.named "x", none, some (.assign .add (.name "f") (.int n))⟩).Legible :=
    fun n hn => Node.Throughout.intro ⟨trivial, trivial⟩ (List.forall_mem_singleton.mpr
      (Node.Throughout.intro ⟨trivial, trivial⟩ (List.forall_mem_cons.mpr
        ⟨Node.Throughout.intro ⟨trivial, hx⟩ nofun,
          List.forall_mem_singleton.mpr (hassign hname (hint n hn))⟩)))
  refine ⟨hcall _, hcall _, ?_, hbinding 2 (by decide), ?_⟩
  · intro htext
    have hsame := text_unique.1 _ _ (hcall _) (hcall _) htext
    simp at hsame
  · exact text_unique.2 _ _ (hbinding 2 (by decide)) (hbinding (1 + 1) (by decide)) rfl

end ExprLang
