import ExprLang.Proofs.Printing.Expression

/-!
# `Proofs.Printing.Statement` — the text of a statement, from the texts of its parts

The lists, parameters, statements and functions that the texts of expressions contain: as there, if
the texts of the parts are scanned as tokens that derive the parts, then the text of the whole is
scanned as tokens that derive the whole. All of them ask that neither a word nor a number goes on
behind them.

## Contents
- `BodySpelled.nil`, `BodySpelled.cons`: the statements of a block.
- `Parameter.Spelled.intro`, `ParametersSpelled.cons`: parameters, with or without type and value.
- `Statement.Spelled.expr` and so on: one lemma for each form.
-/

namespace ExprLang

/-! ## Bodies -/

theorem BodySpelled.nil : BodySpelled [] := by
  rw [BodySpelled, bodyText]
  exact .empty .programNil

/-- The text of a body is empty or starts with a blank, so that what stands before it ends. -/
theorem detached_bodyText (ss : List Statement) {rest : List Char} (hrest : Detached rest) :
    Detached ((bodyText ss).toList ++ rest) := by
  cases ss with
  | nil =>
      rw [bodyText]
      exact hrest
  | cons s ss =>
      rw [bodyText, String.toList_append, String.toList_append]
      exact detached_cons rfl (by decide) _

theorem BodySpelled.cons {s : Statement} {ss : List Statement} (hs : s.Spelled)
    (hss : BodySpelled ss) : BodySpelled (s :: ss) := by
  have hpieces := hs.indent.append hss fun _ hrest => detached_bodyText ss hrest
  rw [BodySpelled, bodyText]
  refine hpieces.imp ?_
  rintro _ ⟨u, v, hu, hv, rfl⟩
  exact .programCons hu hv

/-! ## Parameters -/

/-- A name, and behind it its type, if it has one. -/
def Binder (name : String) (type : Option TypeName) (w : List Token) : Prop :=
  ∃ t a, t.kind = .identifier ∧ t.value = name ∧ Annotation .colon a type ∧ w = t :: a

theorem spells_type {type : TypeName} (h : type.Canonical) :
    Spells type.text Unworded fun w =>
      ∃ t, t.kind = .identifier ∧ type = .named t.value ∧ w = [t] := by
  cases type with
  | error d => cases h
  | named name =>
      refine (spells_name h).imp ?_
      rintro _ ⟨t, hk, rfl, rfl⟩
      exact ⟨t, hk, rfl, rfl⟩

theorem spells_binder {name : String} (hname : IsName name) :
    Spells name Unworded (Binder name none) := by
  refine (spells_name hname).imp ?_
  rintro _ ⟨t, hk, hvalue, rfl⟩
  exact ⟨t, [], hk, hvalue, .missing, rfl⟩

theorem spells_typedBinder {name : String} (hname : IsName name) {type : TypeName}
    (htype : type.Canonical) :
    Spells (name ++ ": " ++ type.text) Unworded (Binder name (some type)) := by
  have hmark := (spells_mark ':' rfl fun _ => rfl).space fun _ => trivial
  have hcolon := (spells_name hname).append hmark fun _ _ => unworded_cons rfl _
  refine (hcolon.join (spells_type htype)).imp ?_
  rintro _ ⟨_, _, ⟨_, _, ⟨t, hk, hvalue, rfl⟩, ⟨t', hk', -, rfl⟩, rfl⟩, ⟨n, hn, rfl, rfl⟩, rfl⟩
  exact ⟨t, [t', n], hk, hvalue, .given hk' hn, rfl⟩

section

variable {text name : String} {type : Option TypeName} (h : Spells text Unworded (Binder name type))

include h

theorem spells_unvalued :
    Spells text Detached (Derives .parameter · ⟨.named name, type, none⟩) := by
  refine h.mono (fun _ hrest => hrest.1) ?_
  rintro _ ⟨t, a, hk, rfl, ha, rfl⟩
  have hderives := Derives.parameter hk ha .defaultNone
  rwa [List.append_nil] at hderives

theorem spells_valued {value : Expr} (hvalue : value.Spelled) :
    Spells (text ++ " = " ++ value.text) Detached
      (Derives .parameter · ⟨.named name, type, some value⟩) := by
  have hequals := ((spells_operator "=" (.symbol rfl)).space beforeBlank_cons).indent
  have hleft := h.append hequals fun _ _ => unworded_cons rfl _
  refine (hleft.join hvalue).mono (fun _ hrest => hrest.apart value) ?_
  rintro _ ⟨_, v, ⟨_, _, ⟨t, a, hk, rfl, ha, rfl⟩, ⟨t', hk', -, rfl⟩, rfl⟩, hv, rfl⟩
  simpa using Derives.parameter hk ha (.defaultSome hk' (hv.expression false))

end

theorem Parameter.Spelled.intro {subject : Pattern} {type : Option TypeName} {value : Option Expr}
    (hsubject : subject.Canonical) (htype : ∀ t ∈ type, t.Canonical)
    (hvalue : ∀ e ∈ value, e.Spelled) : (Parameter.mk subject type value).Spelled := by
  cases subject with
  | error d => cases hsubject
  | named name =>
      rw [Parameter.Spelled]
      cases type with
      | none =>
          cases value with
          | none => exact spells_unvalued (spells_binder hsubject)
          | some value => exact spells_valued (spells_binder hsubject) (hvalue _ rfl)
      | some type =>
          have hbinder := spells_typedBinder hsubject (htype _ rfl)
          cases value with
          | none => exact spells_unvalued hbinder
          | some value => exact spells_valued hbinder (hvalue _ rfl)

theorem ParametersSpelled.nil : ParametersSpelled [] := by
  rw [ParametersSpelled, parametersText]
  exact .empty .parametersNil

theorem ParametersSpelled.cons {p : Parameter} {ps : List Parameter} (hp : p.Spelled)
    (hps : ParametersSpelled ps) : ParametersSpelled (p :: ps) := by
  rw [ParametersSpelled]
  cases ps with
  | nil =>
      rw [parametersText]
      exact hp.imp fun _ hw => .parametersOne hw
  | cons p' ps =>
      have hfirst := hp.append ((spells_mark ',' rfl fun _ => rfl).space fun _ => trivial)
        fun _ _ => detached_cons rfl (by decide) _
      have hpieces := hfirst.join hps
      rw [parametersText]
      · refine hpieces.imp ?_
        rintro _ ⟨_, v, ⟨u, _, hu, ⟨t, hk, -, rfl⟩, rfl⟩, hv, rfl⟩
        rw [List.append_assoc]
        exact .parametersCons hu hk hv
      · intro h
        cases h

/-! ## Statements -/

namespace Statement.Spelled

theorem expr {e : Expr} (h : e.Spelled) : (Statement.expr e).Spelled := by
  have hpieces := h.append (spells_mark ';' rfl fun _ => rfl)
    fun _ _ => e.apart_cons rfl (by decide) _
  rw [Statement.Spelled, Statement.text]
  refine hpieces.mono (fun _ _ => trivial) ?_
  rintro _ ⟨u, _, hu, ⟨t, hk, -, rfl⟩, rfl⟩
  exact .exprStatement (hu.expression true) hk

theorem letIn {p : Parameter} (h : p.Spelled) : (Statement.letIn p).Spelled := by
  have hlet := (spells_keyword_space "let" rfl).join h
  have hpieces := hlet.append (spells_mark ';' rfl fun _ => rfl)
    fun _ _ => detached_cons rfl (by decide) _
  rw [Statement.Spelled, Statement.text]
  refine hpieces.mono (fun _ _ => trivial) ?_
  rintro _ ⟨_, _, ⟨_, u, ⟨t, hk, -, rfl⟩, hu, rfl⟩, ⟨t', hk', -, rfl⟩, rfl⟩
  exact .letIn hk hu hk'

section

variable {k : Kind} {f : Option Expr → Statement} (word : String)
  (hword : Kind.ofWord? word = some k) (hf : k.jump? = some f)

include hword hf

theorem jump : Spells (word ++ ";") Detached (Derives .statement · (f none)) := by
  have hpieces := (spells_keyword word hword).append (spells_mark ';' rfl fun _ => rfl)
    fun _ _ => unworded_cons rfl _
  refine hpieces.mono (fun _ _ => trivial) ?_
  rintro _ ⟨_, _, ⟨t, rfl, -, rfl⟩, ⟨t', hk', -, rfl⟩, rfl⟩
  exact .jump hf .valueNone hk'

theorem jumpValue {value : Expr} (h : value.Spelled) :
    Spells (word ++ " " ++ value.text ++ ";") Detached (Derives .statement · (f (some value))) := by
  have hvalue := (spells_keyword_space word hword).join h
  have hpieces := hvalue.append (spells_mark ';' rfl fun _ => rfl)
    fun _ _ => value.apart_cons rfl (by decide) _
  refine hpieces.mono (fun _ _ => trivial) ?_
  rintro _ ⟨_, _, ⟨_, u, ⟨t, rfl, -, rfl⟩, hu, rfl⟩, ⟨t', hk', -, rfl⟩, rfl⟩
  exact .jump hf (.valueSome (hu.expression false)) hk'

end

end Statement.Spelled

/-! ## Functions -/

/-- A function up to the text of its parameters. -/
theorem spells_signature {name : String} {ps : List Parameter} (hname : IsName name)
    (hps : ParametersSpelled ps) :
    Spells ("fn " ++ name ++ "(" ++ parametersText ps) Detached (fun w =>
      ∃ t n opening u, t.kind = .kwFn ∧ n.kind = .identifier ∧ n.value = name ∧
        opening.kind = .openParen ∧ Derives .parameters u ps ∧ w = t :: n :: opening :: u) := by
  have hfn := (spells_keyword_space "fn" rfl).join (spells_name hname)
  have hopen := hfn.append (spells_mark '(' rfl fun _ => rfl) fun _ _ => unworded_cons rfl _
  refine (hopen.join hps).imp ?_
  rintro _ ⟨_, u, ⟨_, _, ⟨_, _, ⟨t, hk, -, rfl⟩, ⟨n, hn, hvalue, rfl⟩, rfl⟩,
    ⟨t', hk', -, rfl⟩, rfl⟩, hu, rfl⟩
  exact ⟨t, n, t', u, hk, hn, hvalue, hk', hu, rfl⟩

theorem Statement.Spelled.function {name : String} {ps : List Parameter} {result : Option TypeName}
    {body : Expr} (hname : IsName name) (hps : ParametersSpelled ps)
    (hresult : ∀ t ∈ result, t.Canonical) (hb : body.Spelled) (hblock : body.IsBlock) :
    (Statement.function ⟨name, ps, result, body⟩).Spelled := by
  have hsignature := spells_signature hname hps
  have hclose := spells_mark ')' rfl fun _ => rfl
  rw [Statement.Spelled, Statement.text]
  cases result with
  | none =>
      have hparameters := hsignature.append (hclose.space fun _ => trivial)
        fun _ _ => detached_cons rfl (by decide) _
      rw [FunctionDef.text]
      refine (hparameters.join hb).mono (fun _ hrest => hrest.apart body) ?_
      rintro _ ⟨_, v, ⟨_, _, ⟨t, n, t', u, hk, hn, rfl, hk', hu, rfl⟩, ⟨t'', hk'', -, rfl⟩, rfl⟩,
        hv, rfl⟩
      simpa using Derives.function hk hn hk' hu hk'' .missing (hv.block hblock)
  | some type =>
      have harrow : Spells "->" Free (Single .arrow "->") := .lexeme fun _ _ => .pair rfl
      have hcloseArrow := hclose.join (harrow.space fun _ => trivial).indent
      have hparameters := hsignature.append hcloseArrow fun _ _ => detached_cons rfl (by decide) _
      have htyped := hparameters.join (spells_type (hresult _ rfl))
      have hpieces := (htyped.space (unworded_cons rfl)).join hb
      rw [FunctionDef.text]
      refine hpieces.mono (fun _ hrest => hrest.apart body) ?_
      rintro _ ⟨_, v, ⟨_, _, ⟨_, _, ⟨t, n, t', u, hk, hn, rfl, hk', hu, rfl⟩,
        ⟨_, _, ⟨t'', hk'', -, rfl⟩, ⟨arrow, harrow, -, rfl⟩, rfl⟩, rfl⟩, ⟨n', hn', rfl, rfl⟩, rfl⟩,
        hv, rfl⟩
      simpa using Derives.function hk hn hk' hu hk'' (.given harrow hn') (hv.block hblock)

end ExprLang
