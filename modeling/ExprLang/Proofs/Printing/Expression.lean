import ExprLang.Proofs.Grammar.Powers
import ExprLang.Proofs.Printing.Literal

/-!
# `Proofs.Printing.Expression` — the text of an expression, from the texts of its parts

For every form of expression: if the texts of its parts are scanned as tokens that derive the parts,
then its own text is scanned as tokens that derive it. The only thing to check is that no part runs
into what stands behind it. A word or a number could, so an expression asks that none goes on; and
an integer must not be followed by a point.

An operand in a text is a postfix form, whatever it is an operand of: operations stand in
parentheses. So the layers of operators play no part in reading a text back.

## Contents
- `Expr.Apart`, `Expr.Tokens`: what may follow an expression, and what its tokens derive.
- `Expr.Spelled` and its like for statements, parameters and lists: the text is read back.
- `Expr.Spelled.ifThen` and so on: one lemma for each form.
-/

namespace ExprLang

/-! ## What is spelled -/

/-- What may follow an expression. -/
def Expr.Apart (e : Expr) (rest : List Char) : Prop :=
  Unworded rest ∧ (rest.head? = some '.' → ¬e.IsInt)

/-- The tokens derive the expression where an operand may stand, and where a block must stand if it
    is one. -/
structure Expr.Tokens (e : Expr) (w : List Token) : Prop where
  operand : Derives (.layer .postfixed) w e
  block : e.IsBlock → Derives .block w e

/-- The text of the expression is scanned as tokens that derive it. -/
def Expr.Spelled (e : Expr) : Prop := Spells e.text e.Apart e.Tokens

def ArgumentsSpelled (es : List Expr) : Prop :=
  Spells (argumentsText es) Detached (Derives .arguments · es)

def Statement.Spelled (s : Statement) : Prop := Spells s.text Detached (Derives .statement · s)

def BodySpelled (ss : List Statement) : Prop :=
  Spells (bodyText ss) Detached (Derives .program · ss)

def Parameter.Spelled (p : Parameter) : Prop := Spells p.text Detached (Derives .parameter · p)

def ParametersSpelled (ps : List Parameter) : Prop :=
  Spells (parametersText ps) Detached (Derives .parameters · ps)

theorem Detached.apart {rest : List Char} (h : Detached rest) (e : Expr) : e.Apart rest :=
  ⟨h.1, fun hpoint => absurd hpoint h.2⟩

theorem Expr.apart_cons (e : Expr) {c : Char} (hc : isNamePart c = false) (hpoint : c ≠ '.')
    (rest : List Char) : e.Apart (c :: rest) :=
  (detached_cons hc hpoint rest).apart e

theorem Expr.apart_blank (e : Expr) (rest : List Char) : e.Apart (' ' :: rest) :=
  e.apart_cons rfl (by decide) rest

/-- A block ends with a symbol. -/
theorem Expr.IsBlock.apart {e : Expr} (h : e.IsBlock) {rest : List Char} (hrest : Unworded rest) :
    e.Apart rest := by
  obtain ⟨statements, result, rfl⟩ := h
  refine ⟨hrest, fun _ => ?_⟩
  rintro ⟨value, hvalue⟩
  cases hvalue

namespace Expr.Tokens

variable {e : Expr} {w : List Token}

theorem expression (h : e.Tokens w) (assignable : Bool) : Derives (.expression assignable) w e :=
  .plain (h.operand.loosen (by decide))

theorem of_operand (h : Derives (.layer .postfixed) w e) (hblock : ¬e.IsBlock) : e.Tokens w :=
  ⟨h, fun hb => absurd hb hblock⟩

theorem of_primary (h : Derives (.layer .primary) w e) (hblock : ¬e.IsBlock) : e.Tokens w :=
  of_operand (.tighter rfl h) hblock

theorem of_block (h : Derives .block w e) : e.Tokens w :=
  ⟨.tighter rfl (.blockPrimary h), fun _ => h⟩

theorem of_atom (h : AtomOf e w) : e.Tokens w := by
  obtain ⟨t, ht, rfl⟩ := h
  refine of_primary (.atom ht) ?_
  rintro ⟨statements, result, rfl⟩
  cases ht

end Expr.Tokens

/-! ## Control flow -/

namespace Expr.Spelled

variable {condition truthy falsy body iterable left right subject key result : Expr}

theorem ifThen (hc : condition.Spelled) (ht : truthy.Spelled) (hblock : truthy.IsBlock) :
    (Expr.ifElse condition truthy none).Spelled := by
  have hif := (spells_keyword_space "if" rfl).join hc
  have hpieces := (hif.space condition.apart_blank).join ht
  rw [Expr.Spelled, Expr.text]
  refine hpieces.mono (fun rest hrest => hblock.apart hrest.1) ?_
  rintro _ ⟨_, v, ⟨_, u, ⟨t, hk, -, rfl⟩, hu, rfl⟩, hv, rfl⟩
  have hderives := Derives.ifThen hk (hu.expression false) (hv.block hblock)
  refine .of_primary hderives ?_
  rintro ⟨_, _, hblock⟩
  cases hblock

theorem ifElse (hc : condition.Spelled) (ht : truthy.Spelled) (hblock : truthy.IsBlock)
    (hf : falsy.Spelled) (hblock' : falsy.IsBlock) :
    (Expr.ifElse condition truthy (some falsy)).Spelled := by
  have hif := (spells_keyword_space "if" rfl).join hc
  have hthen := (hif.space condition.apart_blank).join ht
  have helse := hthen.append (spells_keyword_space "else" rfl).indent
    fun rest _ => truthy.apart_blank _
  have hpieces := helse.join hf
  rw [Expr.Spelled, Expr.text]
  refine hpieces.mono (fun rest hrest => hblock'.apart hrest.1) ?_
  rintro _ ⟨_, w, ⟨_, _, ⟨_, v, ⟨_, u, ⟨t, hk, -, rfl⟩, hu, rfl⟩, hv, rfl⟩, ⟨t', hk', -, rfl⟩, rfl⟩,
    hw, rfl⟩
  have hderives := Derives.ifElse hk (hu.expression false) (hv.block hblock) hk' (hw.block hblock')
  refine .of_primary ?_ ?_
  · simpa using hderives
  · rintro ⟨_, _, hblock⟩
    cases hblock

theorem whileLoop (hc : condition.Spelled) (hb : body.Spelled) (hblock : body.IsBlock) :
    (Expr.whileLoop condition body).Spelled := by
  have hwhile := (spells_keyword_space "while" rfl).join hc
  have hpieces := (hwhile.space condition.apart_blank).join hb
  rw [Expr.Spelled, Expr.text]
  refine hpieces.mono (fun rest hrest => hblock.apart hrest.1) ?_
  rintro _ ⟨_, v, ⟨_, u, ⟨t, hk, -, rfl⟩, hu, rfl⟩, hv, rfl⟩
  have hderives := Derives.whileLoop hk (hu.expression false) (hv.block hblock)
  refine .of_primary hderives ?_
  rintro ⟨_, _, hblock⟩
  cases hblock

theorem forLoop {pattern : Pattern} (hp : pattern.Canonical) (hi : iterable.Spelled)
    (hb : body.Spelled) (hblock : body.IsBlock) :
    (Expr.forLoop pattern iterable body).Spelled := by
  cases pattern with
  | error d => cases hp
  | named name =>
      have hfor := (spells_keyword_space "for" rfl).join (spells_name hp)
      have hin := hfor.append (spells_keyword_space "in" rfl).indent
        fun rest _ => unworded_cons rfl _
      have hiterable := hin.join hi
      have hpieces := (hiterable.space iterable.apart_blank).join hb
      rw [Expr.Spelled, Expr.text]
      refine hpieces.mono (fun rest hrest => hblock.apart hrest.1) ?_
      rintro _ ⟨_, v, ⟨_, u, ⟨_, _, ⟨_, _, ⟨t, hk, -, rfl⟩, ⟨n, hn, rfl, rfl⟩, rfl⟩,
        ⟨t', hk', -, rfl⟩, rfl⟩, hu, rfl⟩, hv, rfl⟩
      have hderives := Derives.forLoop hk hn hk' (hu.expression false) (hv.block hblock)
      refine .of_primary ?_ ?_
      · simpa using hderives
      · rintro ⟨_, _, hblock⟩
        cases hblock

/-! ## Blocks -/

theorem block {ss : List Statement} (hs : BodySpelled ss) : (Expr.block ss none).Spelled := by
  have hopen := (spells_mark '{' rfl fun _ => rfl).join hs
  have hpieces := hopen.append (spells_mark '}' rfl fun _ => rfl).indent
    fun rest _ => detached_cons rfl (by decide) _
  rw [Expr.Spelled, Expr.text]
  refine hpieces.mono (fun _ _ => trivial) ?_
  rintro _ ⟨_, _, ⟨_, u, ⟨t, hk, -, rfl⟩, hu, rfl⟩, ⟨t', hk', -, rfl⟩, rfl⟩
  have hbody := hu.body .bodyNil
  rw [List.append_nil] at hbody
  exact .of_block (.block hk hbody hk')

theorem blockResult {ss : List Statement} (hs : BodySpelled ss) (hr : result.Spelled) :
    (Expr.block ss (some result)).Spelled := by
  have hopen := (spells_mark '{' rfl fun _ => rfl).join hs
  have hresult := (hopen.space (detached_cons rfl (by decide))).join hr
  have hpieces := hresult.append (spells_mark '}' rfl fun _ => rfl).indent
    fun rest _ => result.apart_blank _
  rw [Expr.Spelled, Expr.text]
  refine hpieces.mono (fun _ _ => trivial) ?_
  rintro _ ⟨_, _, ⟨_, v, ⟨_, u, ⟨t, hk, -, rfl⟩, hu, rfl⟩, hv, rfl⟩, ⟨t', hk', -, rfl⟩, rfl⟩
  have hbody := hu.body (.bodyResult (hv.expression true))
  refine .of_block ?_
  simpa using Derives.block hk hbody hk'

/-! ## Operations -/

theorem binary (o : BinaryOperator) (hl : left.Spelled) (hr : right.Spelled) :
    (Expr.binary o left right).Spelled := by
  have hleft := (spells_mark '(' rfl fun _ => rfl).join hl
  have hoperator := (hleft.space left.apart_blank).join (spells_operator o.symbol o.lexeme)
  have hright := (hoperator.space beforeBlank_cons).join hr
  have hpieces := hright.append (spells_mark ')' rfl fun _ => rfl)
    fun _ _ => right.apart_cons rfl (by decide) _
  rw [Expr.Spelled, Expr.text]
  refine hpieces.mono (fun _ _ => trivial) ?_
  rintro _ ⟨_, _, ⟨_, v, ⟨_, _, ⟨_, u, ⟨t, hk, -, rfl⟩, hu, rfl⟩, ⟨t', hk', -, rfl⟩, rfl⟩, hv, rfl⟩,
    ⟨t'', hk'', -, rfl⟩, rfl⟩
  have hoperator : t'.kind.binary? = some (o.layer, o) := by rw [hk']; exact o.binary?_kind
  -- a postfix form belongs to the layers of both operands, whichever the operator is
  have hrank : o.layer.operands.1.rank ≤ Layer.postfixed.rank ∧
      o.layer.operands.2.rank ≤ Layer.postfixed.rank := by cases o <;> decide
  have hderives := Derives.binary hoperator (hu.operand.loosen hrank.1) (hv.operand.loosen hrank.2)
  have hexpression : Derives (.expression false) (u ++ t' :: v) (.binary o left right) :=
    .plain (hderives.loosen (Nat.zero_le _))
  refine .of_primary ?_ ?_
  · simpa using Derives.grouping hk hexpression hk''
  · rintro ⟨_, _, hblock⟩
    cases hblock

theorem unary (o : UnaryOperator) (h : subject.Spelled) : (Expr.unary o subject).Spelled := by
  have hoperator := (spells_mark '(' rfl fun _ => rfl).join (spells_operator o.symbol o.lexeme)
  have hsubject := (hoperator.space beforeBlank_cons).join h
  have hpieces := hsubject.append (spells_mark ')' rfl fun _ => rfl)
    fun _ _ => subject.apart_cons rfl (by decide) _
  rw [Expr.Spelled, Expr.text]
  refine hpieces.mono (fun _ _ => trivial) ?_
  rintro _ ⟨_, _, ⟨_, u, ⟨_, _, ⟨t, hk, -, rfl⟩, ⟨t', hk', -, rfl⟩, rfl⟩, hu, rfl⟩,
    ⟨t'', hk'', -, rfl⟩, rfl⟩
  have hoperator : t'.kind.unary? = some o := by rw [hk']; exact o.unary?_kind
  have hderives := Derives.unary hoperator (hu.operand.loosen (by decide))
  refine .of_primary (.grouping hk (.plain (hderives.loosen (by decide))) hk'') ?_
  rintro ⟨_, _, hblock⟩
  cases hblock

/-! ## Postfix forms -/

theorem call {es : List Expr} (h : subject.Spelled) (hes : ArgumentsSpelled es) :
    (Expr.call subject es).Spelled := by
  have hopen := h.append (spells_mark '(' rfl fun _ => rfl)
    fun _ _ => subject.apart_cons rfl (by decide) _
  have harguments := hopen.join hes
  have hpieces := harguments.append (spells_mark ')' rfl fun _ => rfl)
    fun _ _ => detached_cons rfl (by decide) _
  rw [Expr.Spelled, Expr.text]
  refine hpieces.mono (fun _ _ => trivial) ?_
  rintro _ ⟨_, _, ⟨_, v, ⟨u, _, hu, ⟨t, hk, -, rfl⟩, rfl⟩, hv, rfl⟩, ⟨t', hk', -, rfl⟩, rfl⟩
  refine .of_operand ?_ ?_
  · simpa using Derives.call hu.operand hk hv hk'
  · rintro ⟨_, _, hblock⟩
    cases hblock

theorem index (h : subject.Spelled) (hk : key.Spelled) : (Expr.index subject key).Spelled := by
  have hopen := h.append (spells_mark '[' rfl fun _ => rfl)
    fun _ _ => subject.apart_cons rfl (by decide) _
  have hkey := hopen.join hk
  have hpieces := hkey.append (spells_mark ']' rfl fun _ => rfl)
    fun _ _ => key.apart_cons rfl (by decide) _
  rw [Expr.Spelled, Expr.text]
  refine hpieces.mono (fun _ _ => trivial) ?_
  rintro _ ⟨_, _, ⟨_, v, ⟨u, _, hu, ⟨t, hk, -, rfl⟩, rfl⟩, hv, rfl⟩, ⟨t', hk', -, rfl⟩, rfl⟩
  refine .of_operand ?_ ?_
  · simpa using Derives.index hu.operand hk (hv.expression false) hk'
  · rintro ⟨_, _, hblock⟩
    cases hblock

/-- A point behind an integer would make it a float. -/
theorem member {name : String} (h : subject.Spelled) (hint : ¬subject.IsInt) (hname : IsName name) :
    (Expr.member subject name).Spelled := by
  have hpoint := h.append (spells_mark '.' rfl fun _ => rfl)
    fun _ _ => ⟨unworded_cons rfl _, fun _ => hint⟩
  have hpieces := hpoint.join (spells_name hname)
  rw [Expr.Spelled, Expr.text]
  refine hpieces.mono (fun _ hrest => hrest.1) ?_
  rintro _ ⟨_, _, ⟨u, _, hu, ⟨t, hk, -, rfl⟩, rfl⟩, ⟨n, hn, rfl, rfl⟩, rfl⟩
  refine .of_operand ?_ ?_
  · simpa using Derives.member hu.operand hk hn
  · rintro ⟨_, _, hblock⟩
    cases hblock

/-! ## Names and literals -/

theorem name {name : String} (h : IsName name) : (Expr.name name).Spelled := by
  rw [Expr.Spelled, Expr.text]
  refine (spells_name h).mono (fun _ hrest => hrest.1) ?_
  rintro _ ⟨t, hk, rfl, rfl⟩
  exact .of_atom ⟨t, .name hk, rfl⟩

theorem int {n : Int} (hnonneg : 0 ≤ n) (hle : n ≤ 9223372036854775807) :
    (Expr.int n).Spelled := by
  refine (spells_int hnonneg hle).mono ?_ fun _ => .of_atom
  intro rest hrest
  exact ⟨hrest.1, fun hpoint => hrest.2 hpoint ⟨n, rfl⟩⟩

theorem char {c : Char} (h : Shown true c) : (Expr.char c).Spelled :=
  (spells_char h).mono (fun _ _ => trivial) fun _ => .of_atom

theorem string {s : String} (h : ShownAll s.toList) : (Expr.string s).Spelled :=
  (spells_string h).mono (fun _ _ => trivial) fun _ => .of_atom

/-- A reserved word that is an expression. -/
theorem keyword {word : String} {k : Kind} {e : Expr} (h : Kind.ofWord? word = some k)
    (hatom : ∀ t : Token, t.kind = k → Atom t e) (htext : e.text = word) : e.Spelled := by
  have hword : Spells word Unworded (AtomOf e) :=
    spells_atom (fun _ hrest => .keyword h hrest) fun t hk _ => hatom t hk
  rw [Expr.Spelled, htext]
  exact hword.mono (fun _ hrest => hrest.1) fun _ => .of_atom

theorem bool (b : Bool) : (Expr.bool b).Spelled := by
  cases b with
  | false => exact keyword rfl (fun _ => .false) (by rw [Expr.text])
  | true => exact keyword rfl (fun _ => .true) (by rw [Expr.text])

theorem null : Expr.null.Spelled :=
  keyword rfl (fun _ => .null) (by rw [Expr.text])

end Expr.Spelled

/-! ## Arguments -/

theorem ArgumentsSpelled.nil : ArgumentsSpelled [] := by
  rw [ArgumentsSpelled, argumentsText]
  exact .empty .argumentsNil

theorem ArgumentsSpelled.cons {e : Expr} {es : List Expr} (he : e.Spelled)
    (hes : ArgumentsSpelled es) : ArgumentsSpelled (e :: es) := by
  rw [ArgumentsSpelled]
  cases es with
  | nil =>
      rw [argumentsText]
      exact he.mono (fun _ hrest => hrest.apart e) fun _ hw => .argumentsOne (hw.expression false)
  | cons e' es =>
      have hfirst := he.append ((spells_mark ',' rfl fun _ => rfl).space fun _ => trivial)
        fun _ _ => e.apart_cons rfl (by decide) _
      have hpieces := hfirst.join hes
      rw [argumentsText]
      · refine hpieces.imp ?_
        rintro _ ⟨_, v, ⟨u, _, hu, ⟨t, hk, -, rfl⟩, rfl⟩, hv, rfl⟩
        rw [List.append_assoc]
        exact .argumentsCons (hu.expression false) hk hv
      · intro h
        cases h

end ExprLang
