import ExprLang.Proofs.Grammar.Powers
import ExprLang.Proofs.Reading.Success
import ExprLang.Proofs.Tree.Node

/-!
# `Proofs.Reading.Trees` — the trees that are read

Whatever the table says, a tree that is read with success is one that the rules have put together,
and the rules put nodes together in few ways: bodies are read as blocks, and what stands where no
assignment is accepted is read as an expression that may not be one. So every node is well shaped
and gated, except those of a tree that was handed to the rule from outside.

The two properties are proved at once, for any property `P` of nodes that follows from both of them;
a tree that was handed in must have `P` throughout. The claims about the shape and about assignments
take one of the two for `P`.

## Contents
- `Phrase.given`, `Phrase.nodes`: the trees that a phrase starts from, and the trees it is read as.
- `Phrase.Bare`: no assignment stands at the top of what is read where none is accepted.
- `Phrase.Grown`, `Grows`: what is promised of a phrase, and of a reader of phrases.
- `Table.rule_grows`, `Table.derive_grows`: one rule, and a whole derivation.
- `trees_wellShaped`, `trees_gated`: the two properties, whatever is registered.
-/

namespace ExprLang

/-! ## Phrases and their trees -/

/-- The tree that the phrase goes on with, if it does not start from nothing. -/
def Phrase.given : {α : Type} → Phrase α → List Node
  | _, .operators _ _ left => [.expr left]
  | _, .postfixForm _ subject => [.expr subject]
  | _, _ => []

/-- The roots of what the phrase is read as. -/
def Phrase.nodes : {α : Type} → Phrase α → α → List Node
  | _, .expr _ _, e | _, .operators _ _ _, e | _, .operand, e => [.expr e]
  | _, .operandForm _, e | _, .postfixForm _ _, e => [.expr e]
  | _, .arguments, es => es.map .expr
  | _, .body, (statements, result) => statements.map .statement ++ result.toList.map .expr
  | _, .statement, s | _, .statementForm _, s => [.statement s]
  | _, .parameter, p => [.parameter p]
  | _, .parameters, ps => ps.map .parameter
  | _, .program, ss => ss.map .statement

/-- What the phrase is read as shows no assignment outside of blocks, if it may not be one and does
    not go on with one; and a block is read as a block. -/
def Phrase.Bare : {α : Type} → Phrase α → α → Prop
  | _, .expr _ assignable, e => assignable = false → (Node.expr e).Unassigned
  | _, .operators _ assignable left, e =>
    assignable = false → (Node.expr left).Unassigned → (Node.expr e).Unassigned
  | _, .operand, e => (Node.expr e).Unassigned
  | _, .operandForm form, e => (Node.expr e).Unassigned ∧ (form = .block → e.IsBlock)
  | _, .postfixForm _ subject, e => (Node.expr subject).Unassigned → (Node.expr e).Unassigned
  | _, .arguments, es => ∀ e ∈ es, (Node.expr e).Unassigned
  | _, _, _ => True

/-- What a phrase is read as: its nodes have the property `P`. -/
structure Phrase.Grown (P : Node → Prop) {α : Type} (phrase : Phrase α) (v : α) : Prop where
  throughout : ∀ n ∈ phrase.nodes v, n.Throughout P
  bare : phrase.Bare v

/-- Every phrase that starts from trees with the property `P` is read as such trees. -/
def Grows (P : Node → Prop) (read : {α : Type} → Phrase α → Parse α) : Prop :=
  ∀ {α : Type} (phrase : Phrase α) {s s' : TokenStream} {v : α}, read phrase s = .ok v s' →
    (∀ n ∈ phrase.given, n.Throughout P) → phrase.Grown P v

section

open Node Parse

variable {P : Node → Prop} {t : Table} {read : {α : Type} → Phrase α → Parse α}
  {s s' : TokenStream}

/-! ## What the phrases inside are read as -/

namespace Grows

variable (hread : Grows P read) {e : Expr}

include hread

theorem expr {least : Nat} {assignable : Bool} (h : read (.expr least assignable) s = .ok e s') :
    (Node.expr e).Throughout P :=
  (hread _ h (List.forall_mem_nil _)).throughout _ List.mem_cons_self

/-- An expression that may not be an assignment, which is what stands in all guarded places. -/
theorem guarded {least : Nat} (h : read (.expr least false) s = .ok e s') :
    (Node.expr e).Fit P :=
  ⟨hread.expr h, (hread _ h (List.forall_mem_nil _)).bare rfl⟩

theorem block (h : read (.operandForm .block) s = .ok e s') : (Node.expr e).Fit P ∧ e.IsBlock :=
  have hgrown := hread _ h (List.forall_mem_nil _)
  ⟨⟨hgrown.throughout _ List.mem_cons_self, hgrown.bare.1⟩, hgrown.bare.2 rfl⟩

end Grows

namespace Rule

variable (hP : ∀ n : Node, n.WellShaped → n.Gated → P n)

include hP

/-! ## Rules without phrases inside -/

theorem typeName_grown {type : TypeName} (h : typeName s = .ok type s') :
    (Node.type type).Throughout P := by
  obtain ⟨-, rfl, -⟩ := typeName_eq_ok.mp h
  exact .intro (hP _ trivial (List.forall_mem_nil _)) (List.forall_mem_nil _)

theorem pattern_grown {subject : Pattern} (h : Rule.pattern s = .ok subject s') :
    (Node.pattern subject).Fit P := by
  obtain ⟨-, rfl, -⟩ := pattern_eq_ok.mp h
  exact .intro (hP _ trivial (List.forall_mem_nil _)) id (List.forall_mem_nil _)

/-- An expression of a single token has no parts. -/
theorem atom_grown {e : Expr} (h : atom s = .ok e s') : (Node.expr e).Fit P := by
  have hatom := Token.atom_eq_ok_iff.mp (atom_eq_ok.mp h).1
  have hleaf : (Node.expr e).WellShaped ∧ (Node.expr e).guarded = [] ∧ (Node.expr e).parts = [] ∧
      ¬(Node.expr e).IsAssign := by
    cases hatom <;> exact ⟨trivial, rfl, rfl, id⟩
  obtain ⟨hshape, hguarded, hparts, hassign⟩ := hleaf
  have hgated : (Node.expr e).Gated := by
    rw [Gated, hguarded]
    exact List.forall_mem_nil _
  refine .intro (hP _ hshape hgated) hassign ?_
  rw [hparts]
  exact List.forall_mem_nil _

section

variable (hread : Grows P read)

include hread

/-! ## Expressions -/

theorem ifElse_grown {e : Expr} (h : ifElse read s = .ok e s') : (Node.expr e).Fit P := by
  obtain ⟨condition, s₁, truthy, s₂, h₁, h₂, hfalsy⟩ := ifElse_eq_ok.mp h
  have hcondition := hread.guarded h₁
  obtain ⟨htruthy, hblock⟩ := hread.block h₂
  -- the second branch is read like the first one, or is missing
  have hbuilt : ∀ falsy : Option Expr, (∀ b ∈ falsy, (Node.expr b).Fit P ∧ b.IsBlock) →
      (Node.expr (.ifElse condition truthy falsy)).Fit P := by
    intro falsy hfalsy
    refine .intro (hP _ ⟨hblock, fun b hb => (hfalsy b hb).2⟩ ?_) id ?_
    · exact List.forall_mem_singleton.mpr hcondition.unassigned
    · refine List.forall_mem_cons.mpr ⟨hcondition, List.forall_mem_cons.mpr ⟨htruthy, ?_⟩⟩
      exact List.forall_mem_map.mpr fun b hb => (hfalsy b (Option.mem_toList.mp hb)).1
  rcases hfalsy with ⟨-, falsy, h₃, rfl⟩ | ⟨-, rfl, -⟩
  · apply hbuilt
    rintro b ⟨⟩
    exact hread.block h₃
  · exact hbuilt none nofun

theorem whileLoop_grown {e : Expr} (h : whileLoop read s = .ok e s') : (Node.expr e).Fit P := by
  obtain ⟨condition, s₁, body, h₁, h₂, rfl⟩ := whileLoop_eq_ok.mp h
  have hcondition := hread.guarded h₁
  obtain ⟨hbody, hblock⟩ := hread.block h₂
  refine .intro (hP _ hblock (List.forall_mem_singleton.mpr hcondition.unassigned)) id ?_
  exact List.forall_mem_cons.mpr ⟨hcondition, List.forall_mem_singleton.mpr hbody⟩

theorem forLoop_grown {e : Expr} (h : forLoop read s = .ok e s') : (Node.expr e).Fit P := by
  obtain ⟨subject, s₁, iterable, s₂, body, hsubject, -, h₁, h₂, rfl⟩ := forLoop_eq_ok.mp h
  have hiterable := hread.guarded h₁
  obtain ⟨hbody, hblock⟩ := hread.block h₂
  refine .intro (hP _ hblock (List.forall_mem_singleton.mpr hiterable.unassigned)) id ?_
  refine List.forall_mem_cons.mpr ⟨pattern_grown hP hsubject, ?_⟩
  exact List.forall_mem_cons.mpr ⟨hiterable, List.forall_mem_singleton.mpr hbody⟩

theorem block_grown {e : Expr} (h : Rule.block read s = .ok e s') :
    (Node.expr e).Fit P ∧ e.IsBlock := by
  obtain ⟨-, statements, result, s₁, h₁, -, rfl, -⟩ := block_eq_ok.mp h
  have hbody := (hread _ h₁ (List.forall_mem_nil _)).throughout
  refine ⟨⟨.intro (hP _ trivial (List.forall_mem_nil _)) hbody, ?_⟩, statements, result, rfl⟩
  exact unassigned_block statements result

theorem operandForm_grown (form : OperandForm) {e : Expr}
    (h : operandForm read form s = .ok e s') :
    (Node.expr e).Fit P ∧ (form = .block → e.IsBlock) := by
  cases form with
  | grouping =>
      obtain ⟨inner, s₁, h₁, -, rfl, -⟩ := grouping_eq_ok.mp h
      exact ⟨hread.guarded h₁, nofun⟩
  | ifElse => exact ⟨ifElse_grown hP hread h, nofun⟩
  | whileLoop => exact ⟨whileLoop_grown hP hread h, nofun⟩
  | forLoop => exact ⟨forLoop_grown hP hread h, nofun⟩
  | block =>
      obtain ⟨hfit, hblock⟩ := block_grown hP hread h
      exact ⟨hfit, fun _ => hblock⟩
  | atom => exact ⟨atom_grown hP h, nofun⟩

theorem operand_grown {e : Expr} (h : operand t read s = .ok e s') : (Node.expr e).Fit P := by
  rcases operand_eq_ok.mp h with ⟨power, o, subject, -, h₁, rfl⟩ | ⟨-, h₁⟩
  · have hsubject := hread.guarded h₁
    refine .intro (hP _ trivial (List.forall_mem_singleton.mpr hsubject.unassigned)) id ?_
    exact List.forall_mem_singleton.mpr hsubject
  · have hgrown := hread _ h₁ (List.forall_mem_nil _)
    exact ⟨hgrown.throughout _ List.mem_cons_self, hgrown.bare.1⟩

/-- A postfix form adds its own parts to its subject. -/
theorem postfixForm_grown (form : PostfixForm) {subject e : Expr}
    (hsubject : (Node.expr subject).Throughout P) (h : postfixForm read form subject s = .ok e s') :
    (Node.expr e).Throughout P ∧ ((Node.expr subject).Unassigned → (Node.expr e).Unassigned) := by
  cases form with
  | member =>
      obtain ⟨-, rfl, -⟩ := member_eq_ok.mp h
      refine ⟨.intro (hP _ trivial (List.forall_mem_nil _)) ?_, fun hbare => .intro id ?_⟩
      · exact List.forall_mem_singleton.mpr hsubject
      · exact List.forall_mem_singleton.mpr hbare
  | index =>
      obtain ⟨key, s₁, h₁, -, rfl, -⟩ := index_eq_ok.mp h
      have hkey := hread.guarded h₁
      refine ⟨.intro (hP _ trivial (List.forall_mem_singleton.mpr hkey.unassigned)) ?_,
        fun hbare => .intro id ?_⟩
      · exact List.forall_mem_cons.mpr ⟨hsubject, List.forall_mem_singleton.mpr hkey.throughout⟩
      · exact List.forall_mem_cons.mpr ⟨hbare, List.forall_mem_singleton.mpr hkey.unassigned⟩
  | call =>
      obtain ⟨arguments, s₁, h₁, -, rfl, -⟩ := call_eq_ok.mp h
      obtain ⟨harguments, hargumentsBare⟩ := hread _ h₁ (List.forall_mem_nil _)
      refine ⟨.intro (hP _ trivial hargumentsBare) ?_, fun hbare => .intro id ?_⟩
      · exact List.forall_mem_cons.mpr ⟨hsubject, harguments⟩
      · exact List.forall_mem_cons.mpr ⟨hbare, List.forall_mem_map.mpr hargumentsBare⟩

omit hread in
/-- An infix operator makes an assignment only where one is accepted. -/
theorem combine_grown {assignable : Bool} {operator : Token} {left right e : Expr}
    (hleft : (Node.expr left).Throughout P) (hright : (Node.expr right).Throughout P)
    (hbare : assignable = false → (Node.expr right).Unassigned)
    (h : combine t assignable operator left right s = .ok e s') :
    (Node.expr e).Throughout P ∧
      (assignable = false → (Node.expr left).Unassigned → (Node.expr e).Unassigned) := by
  have hparts : ∀ n ∈ [Node.expr left, .expr right], n.Throughout P :=
    List.forall_mem_cons.mpr ⟨hleft, List.forall_mem_singleton.mpr hright⟩
  rcases (combine_eq_ok.mp h).2 with ⟨o, -, hassignable, rfl⟩ | ⟨-, o, -, rfl⟩
  · refine ⟨.intro (hP _ trivial (List.forall_mem_nil _)) hparts, fun hfalse => ?_⟩
    rw [hassignable] at hfalse
    cases hfalse
  · refine ⟨.intro (hP _ trivial (List.forall_mem_nil _)) hparts, fun hfalse hleftBare => ?_⟩
    refine .intro id (List.forall_mem_cons.mpr ⟨hleftBare, ?_⟩)
    exact List.forall_mem_singleton.mpr (hbare hfalse)

/-- The loop goes on with what it has so far, and that has the property already. -/
theorem operators_grown {least : Nat} {assignable : Bool} {left e : Expr}
    (hleft : (Node.expr left).Throughout P)
    (h : operators t read least assignable left s = .ok e s') :
    (Node.expr e).Throughout P ∧
      (assignable = false → (Node.expr left).Unassigned → (Node.expr e).Unassigned) := by
  have hloop : ∀ {e₁ : Expr} {s₁ : TokenStream}, (Node.expr e₁).Throughout P →
      read (.operators least assignable e₁) s₁ = .ok e s' →
      (Node.expr e).Throughout P ∧
        (assignable = false → (Node.expr e₁).Unassigned → (Node.expr e).Unassigned) := by
    intro e₁ s₁ he₁ hrest
    have hgrown := hread _ hrest (List.forall_mem_singleton.mpr he₁)
    exact ⟨hgrown.throughout _ List.mem_cons_self, hgrown.bare⟩
  rcases operators_eq_ok.mp h with ⟨-, rfl, -⟩ | ⟨_, form, e₁, s₁, -, -, h₁, hrest⟩ |
    ⟨powers, right, e₁, s₁, -, -, -, h₁, h₂, hrest⟩
  · exact ⟨hleft, fun _ hbare => hbare⟩
  · have hgrown := hread _ h₁ (List.forall_mem_singleton.mpr hleft)
    obtain ⟨hthroughout, hbare⟩ := hloop (hgrown.throughout _ List.mem_cons_self) hrest
    exact ⟨hthroughout, fun hfalse hleftBare => hbare hfalse (hgrown.bare hleftBare)⟩
  · have hright := hread _ h₁ (List.forall_mem_nil _)
    obtain ⟨he₁, hcombined⟩ := combine_grown hP hleft
      (hright.throughout _ List.mem_cons_self) hright.bare h₂
    obtain ⟨hthroughout, hbare⟩ := hloop he₁ hrest
    exact ⟨hthroughout, fun hfalse hleftBare => hbare hfalse (hcombined hfalse hleftBare)⟩

omit hP in
theorem arguments_grown {es : List Expr} (h : arguments read s = .ok es s') :
    ∀ e ∈ es, (Node.expr e).Fit P := by
  rcases arguments_eq_ok.mp h with ⟨-, rfl, -⟩ | ⟨-, first, s₁, h₁, hmore⟩
  · exact List.forall_mem_nil _
  · have hfirst := hread.guarded h₁
    rcases hmore with ⟨-, more, h₂, rfl⟩ | ⟨-, rfl, -⟩
    · obtain ⟨hthroughout, hbare⟩ := hread _ h₂ (List.forall_mem_nil _)
      have hrest := List.forall_mem_map.mp hthroughout
      exact List.forall_mem_cons.mpr ⟨hfirst, fun e he => ⟨hrest e he, hbare e he⟩⟩
    · exact List.forall_mem_singleton.mpr hfirst

/-! ## Statements -/

omit hread in
/-- The statement of an expression. -/
theorem exprStatement_grown {e : Expr} (h : (Node.expr e).Throughout P) :
    (Node.statement (.expr e)).Throughout P :=
  .intro (hP _ trivial (List.forall_mem_nil _)) (List.forall_mem_singleton.mpr h)

omit hP in
theorem jumpValue_grown {value : Option Expr} (h : jumpValue read s = .ok value s') :
    ∀ e ∈ value, (Node.expr e).Fit P := by
  rcases jumpValue_eq_ok.mp h with ⟨-, rfl, -⟩ | ⟨-, -, e, s₁, h₁, -, rfl, -⟩
  · exact nofun
  · rintro _ ⟨⟩
    exact hread.guarded h₁

omit hP in
theorem defaultValue_grown {value : Option Expr} (h : defaultValue read s = .ok value s') :
    ∀ e ∈ value, (Node.expr e).Fit P := by
  rcases defaultValue_eq_ok.mp h with ⟨-, e, h₁, rfl⟩ | ⟨-, rfl, -⟩
  · rintro _ ⟨⟩
    exact hread.guarded h₁
  · exact nofun

theorem parameter_grown {p : Parameter} (h : parameter read s = .ok p s') :
    (Node.parameter p).Throughout P := by
  obtain ⟨subject, s₁, h₁, hrest⟩ := parameter_eq_ok.mp h
  have hsubject := (pattern_grown hP h₁).throughout
  have hbuilt : ∀ {declared : Option TypeName} {value : Option Expr},
      (∀ type ∈ declared, (Node.type type).Throughout P) →
      (∀ e ∈ value, (Node.expr e).Fit P) →
      (Node.parameter ⟨subject, declared, value⟩).Throughout P := by
    intro declared value hdeclared hvalue
    refine .intro (hP _ trivial fun e he => (hvalue e (Option.mem_toList.mp he)).unassigned) ?_
    refine List.forall_mem_cons.mpr ⟨hsubject, List.forall_mem_append.mpr ⟨?_, ?_⟩⟩
    · exact List.forall_mem_map.mpr fun type htype => hdeclared type (Option.mem_toList.mp htype)
    · exact List.forall_mem_map.mpr fun e he => (hvalue e (Option.mem_toList.mp he)).throughout
  rcases hrest with ⟨-, type, s₂, value, h₂, h₃, rfl⟩ | ⟨-, value, h₂, rfl⟩
  · refine hbuilt ?_ (defaultValue_grown hread h₃)
    rintro _ ⟨⟩
    exact typeName_grown hP h₂
  · exact hbuilt nofun (defaultValue_grown hread h₂)

theorem function_grown {st : Statement} (h : function read s = .ok st s') :
    (Node.statement st).Throughout P := by
  obtain ⟨-, -, ps, s₁, h₁, -, hbody⟩ := function_eq_ok.mp h
  have hparameters := (hread _ h₁ (List.forall_mem_nil _)).throughout
  have hbuilt : ∀ {name : String} {result : Option TypeName} {body : Expr},
      (∀ type ∈ result, (Node.type type).Throughout P) →
      (Node.expr body).Fit P ∧ body.IsBlock →
      (Node.statement (.function ⟨name, ps, result, body⟩)).Throughout P := by
    rintro name result body hresult ⟨hbody, hblock⟩
    have hfunction : (Node.function ⟨name, ps, result, body⟩).Throughout P := by
      refine .intro (hP _ hblock (List.forall_mem_nil _)) ?_
      refine List.forall_mem_cons.mpr
        ⟨hbody.throughout, List.forall_mem_append.mpr ⟨hparameters, ?_⟩⟩
      exact List.forall_mem_map.mpr fun type htype => hresult type (Option.mem_toList.mp htype)
    refine .intro (hP _ trivial (List.forall_mem_nil _)) ?_
    exact List.forall_mem_singleton.mpr hfunction
  rcases hbody with ⟨-, result, s₂, body, h₂, h₃, rfl⟩ | ⟨-, body, h₂, rfl⟩
  · refine hbuilt ?_ (hread.block h₃)
    rintro _ ⟨⟩
    exact typeName_grown hP h₂
  · exact hbuilt nofun (hread.block h₂)

/-- All three jumps are well shaped, and have nothing but their value. -/
theorem jump_grown (f : Option Expr → Statement) {st : Statement}
    (hshape : ∀ value, (Node.statement (f value)).WellShaped)
    (hguarded : ∀ value, (Node.statement (f value)).guarded = value.toList)
    (hparts : ∀ value, (Node.statement (f value)).parts = value.toList.map .expr)
    (h : (jumpValue read >>= fun value => pure (f value)) s = .ok st s') :
    (Node.statement st).Throughout P := by
  obtain ⟨value, s₁, h₁, hpure⟩ := bind_eq_ok.mp h
  cases hpure
  have hvalue := jumpValue_grown hread h₁
  have hgated : (Node.statement (f value)).Gated := by
    rw [Gated, hguarded]
    exact fun e he => (hvalue e (Option.mem_toList.mp he)).unassigned
  refine .intro (hP _ (hshape value) hgated) ?_
  rw [hparts]
  exact List.forall_mem_map.mpr fun e he => (hvalue e (Option.mem_toList.mp he)).throughout

theorem statementForm_grown (form : StatementForm) {st : Statement}
    (h : statementForm read form s = .ok st s') : (Node.statement st).Throughout P := by
  cases form with
  | classDef => cases h
  | function => exact function_grown hP hread h
  | letIn =>
      obtain ⟨p, s₁, h₁, -, rfl, -⟩ := letIn_eq_ok.mp h
      exact .intro (hP _ trivial (List.forall_mem_nil _))
        (hread _ h₁ (List.forall_mem_nil _)).throughout
  | returning =>
      exact jump_grown hP hread .returning (fun _ => trivial) (fun _ => rfl) (fun _ => rfl) h
  | breaking =>
      exact jump_grown hP hread .breaking (fun _ => trivial) (fun _ => rfl) (fun _ => rfl) h
  | continuing =>
      exact jump_grown hP hread .continuing (fun _ => trivial) (fun _ => rfl) (fun _ => rfl) h
  | any => exact (hread _ h (List.forall_mem_nil _)).throughout _ List.mem_cons_self

theorem statement_grown {st : Statement} (h : Rule.statement t read s = .ok st s') :
    (Node.statement st).Throughout P := by
  rcases statement_eq_ok.mp h with ⟨form, -, h₁⟩ | ⟨-, e, s₁, h₁, -, rfl, -⟩
  · exact (hread _ h₁ (List.forall_mem_nil _)).throughout _ List.mem_cons_self
  · exact exprStatement_grown hP (hread.expr h₁)

theorem body_grown {ss : List Statement} {result : Option Expr}
    (h : body t read s = .ok (ss, result) s') :
    ∀ n ∈ Phrase.body.nodes (ss, result), n.Throughout P := by
  -- a statement in front of the rest of a body
  have hcons : ∀ {first : Statement} {more : List Statement} {s₁ : TokenStream},
      (Node.statement first).Throughout P → read .body s₁ = .ok (more, result) s' →
      ∀ n ∈ Phrase.body.nodes (first :: more, result), n.Throughout P := by
    intro first more s₁ hfirst hrest
    have hmore := (hread _ hrest (List.forall_mem_nil _)).throughout
    exact List.forall_mem_cons.mpr ⟨hfirst, hmore⟩
  rcases body_eq_ok.mp h with ⟨-, rfl, rfl, -⟩ | ⟨-, -, ⟨form, first, s₁, more, -, h₁, hrest, rfl⟩ |
    ⟨-, e, s₁, h₁, ⟨-, more, hrest, rfl⟩ | ⟨-, rfl, rfl, -⟩⟩⟩
  · exact List.forall_mem_nil _
  · have hfirst := (hread _ h₁ (List.forall_mem_nil _)).throughout _ List.mem_cons_self
    exact hcons hfirst hrest
  · exact hcons (exprStatement_grown hP (hread.expr h₁)) hrest
  · exact List.forall_mem_singleton.mpr (hread.expr h₁)

omit hP in
theorem parameters_grown {ps : List Parameter} (h : parameters read s = .ok ps s') :
    ∀ n ∈ Phrase.parameters.nodes ps, n.Throughout P := by
  rcases parameters_eq_ok.mp h with ⟨-, rfl, -⟩ | ⟨-, first, s₁, h₁, hmore⟩
  · exact List.forall_mem_nil _
  · have hfirst := (hread _ h₁ (List.forall_mem_nil _)).throughout _ List.mem_cons_self
    rcases hmore with ⟨-, more, h₂, rfl⟩ | ⟨-, rfl, -⟩
    · have hrest := (hread _ h₂ (List.forall_mem_nil _)).throughout
      exact List.forall_mem_cons.mpr ⟨hfirst, hrest⟩
    · exact List.forall_mem_singleton.mpr hfirst

omit hP in
theorem program_grown {ss : List Statement} (h : program read s = .ok ss s') :
    ∀ n ∈ Phrase.program.nodes ss, n.Throughout P := by
  rcases program_eq_ok.mp h with ⟨-, rfl, -⟩ | ⟨-, first, s₁, more, h₁, h₂, rfl⟩
  · exact List.forall_mem_nil _
  · have hfirst := (hread _ h₁ (List.forall_mem_nil _)).throughout _ List.mem_cons_self
    have hrest := (hread _ h₂ (List.forall_mem_nil _)).throughout
    exact List.forall_mem_cons.mpr ⟨hfirst, hrest⟩

end
end Rule

namespace Table

open Rule

variable (hP : ∀ n : Node, n.WellShaped → n.Gated → P n)

include hP

/-- **One rule reads such trees** when the readings inside it do. -/
theorem rule_grows (t : Table) (hread : Grows P read) : Grows P (t.rule read) := by
  intro α phrase s s' v h hgiven
  cases phrase with
  | expr least assignable =>
      obtain ⟨left, s₁, h₁, h₂⟩ := expr_eq_ok.mp h
      have hleft := hread _ h₁ (List.forall_mem_nil _)
      have hgrown := hread _ h₂ hleft.throughout
      exact ⟨hgrown.throughout, fun hfalse => hgrown.bare hfalse hleft.bare⟩
  | operators least assignable left =>
      obtain ⟨hthroughout, hbare⟩ :=
        operators_grown hP hread (List.forall_mem_singleton.mp hgiven) h
      exact ⟨List.forall_mem_singleton.mpr hthroughout, hbare⟩
  | operand =>
      have hfit := operand_grown hP hread h
      exact ⟨List.forall_mem_singleton.mpr hfit.throughout, hfit.unassigned⟩
  | operandForm form =>
      obtain ⟨hfit, hblock⟩ := operandForm_grown hP hread form h
      exact ⟨List.forall_mem_singleton.mpr hfit.throughout, hfit.unassigned, hblock⟩
  | postfixForm form subject =>
      obtain ⟨hthroughout, hbare⟩ :=
        postfixForm_grown hP hread form (List.forall_mem_singleton.mp hgiven) h
      exact ⟨List.forall_mem_singleton.mpr hthroughout, hbare⟩
  | arguments =>
      have hgrown := arguments_grown hread h
      exact ⟨List.forall_mem_map.mpr fun e he => (hgrown e he).throughout,
        fun e he => (hgrown e he).unassigned⟩
  | body => exact ⟨body_grown hP hread h, trivial⟩
  | statement => exact ⟨List.forall_mem_singleton.mpr (statement_grown hP hread h), trivial⟩
  | statementForm form =>
      exact ⟨List.forall_mem_singleton.mpr (statementForm_grown hP hread form h), trivial⟩
  | parameter => exact ⟨List.forall_mem_singleton.mpr (parameter_grown hP hread h), trivial⟩
  | parameters => exact ⟨parameters_grown hread h, trivial⟩
  | program => exact ⟨program_grown hread h, trivial⟩

/-- **A whole derivation reads such trees**, by induction on its depth. -/
theorem derive_grows (t : Table) (depth : Nat) : Grows P (t.derive depth) := by
  induction depth with
  | zero =>
      intro α phrase s s' v h
      cases (show Reply.halt .outOfFuel = .ok v s' from h)
  | succ depth ih => exact t.rule_grows hP ih

omit hP in
/-- Every tree that is read is well shaped, but for one that was handed in. -/
theorem derive_wellShaped (t : Table) (depth : Nat) : Grows WellShaped (t.derive depth) :=
  t.derive_grows (fun _ hshape _ => hshape) depth

end Table
end

/-! ## Whatever is registered -/

open Node

/-- **All trees that are read are well shaped**, whatever the table says: no node in them stands for
    a diagnostic, none is a class, and branches and bodies are blocks. Where a phrase goes on with a
    tree, that tree is well shaped to begin with. The statements of a program, which `readStatements`
    reads at the depth that it sets aside, are such trees, or else there is one statement, which is a
    diagnostic. -/
theorem trees_wellShaped (t : Table) (depth : Nat) :
    (∀ {α : Type} (phrase : Phrase α) {s s' : TokenStream} {v : α},
      t.derive depth phrase s = .ok v s' → (∀ n ∈ phrase.given, n.Throughout WellShaped) →
        ∀ n ∈ phrase.nodes v, n.Throughout WellShaped) ∧
    (∀ {s s' : TokenStream} {type : TypeName},
      Rule.typeName s = .ok type s' → (Node.type type).Throughout WellShaped) ∧
    (∀ {s s' : TokenStream} {subject : Pattern},
      Rule.pattern s = .ok subject s' → (Node.pattern subject).Throughout WellShaped) ∧
    (∀ {s s' : TokenStream} {ss : List Statement},
      (t.derive depth .program).recover (fun d => [.error d]) s = .ok ss s' →
        (∀ st ∈ ss, (Node.statement st).Throughout WellShaped) ∨ ∃ d, ss = [.error d]) := by
  have hP : ∀ n : Node, n.WellShaped → n.Gated → n.WellShaped := fun _ hshape _ => hshape
  have hgrows := @t.derive_wellShaped depth
  refine ⟨?_, Rule.typeName_grown hP, fun h => (Rule.pattern_grown hP h).throughout, ?_⟩
  · intro α phrase s s' v h hgiven
    exact (hgrows phrase h hgiven).throughout
  · intro s s' ss h
    unfold Parse.recover at h
    cases hread : t.derive depth .program s with
    | ok ss' s₁ =>
        rw [hread] at h
        cases h
        have hgrown := (hgrows .program hread (List.forall_mem_nil _)).throughout
        exact Or.inl (List.forall_mem_map.mp hgrown)
    | error d s₁ =>
        rw [hread] at h
        cases h
        exact Or.inr ⟨d, rfl⟩
    | halt cause =>
        rw [hread] at h
        cases h

/-- A keyword registered for conditionals: `class a { b }`. -/
theorem trees_wellShaped_conditional :
    let t := standard.registerAll [.operandForm .kwClass .ifElse]
    let e := Expr.ifElse (.name "a") (.block [] (some (.name "b"))) none
    (t.derive 10 (.expr 0 true)
        (.ofKinds [(.kwClass, "class"), (.identifier, "a"), (.openCurly, "\x7b"), (.identifier, "b"),
          (.closeCurly, "\x7d")]) = .ok e ⟨[], ⟨1, 5⟩⟩ ∧
      ∀ n ∈ (Phrase.expr 0 true).given, n.Throughout WellShaped) ∧
    (Node.expr e).Throughout WellShaped := by
  intro t e
  have h : t.derive 10 (.expr 0 true)
      (.ofKinds [(.kwClass, "class"), (.identifier, "a"), (.openCurly, "\x7b"), (.identifier, "b"),
        (.closeCurly, "\x7d")]) = .ok e ⟨[], ⟨1, 5⟩⟩ := rfl
  refine ⟨⟨h, List.forall_mem_nil _⟩, ?_⟩
  exact (trees_wellShaped t 10).1 _ h (List.forall_mem_nil _) _ List.mem_cons_self

/-- **No assignment stands where none is accepted**, whatever the table says: not as a condition, as
    what a loop goes over, as an argument or a key, under a prefix operator, or as the value of a
    parameter, of `let` or of a jump; and not in one of these either, except in its blocks. An
    expression that may not be an assignment is free of them in the same way, whatever power it is
    read at. -/
theorem trees_gated (t : Table) (depth : Nat) :
    (∀ {α : Type} (phrase : Phrase α) {s s' : TokenStream} {v : α},
      t.derive depth phrase s = .ok v s' → (∀ n ∈ phrase.given, n.Throughout Gated) →
        ∀ n ∈ phrase.nodes v, n.Throughout Gated) ∧
    (∀ {least : Nat} {s s' : TokenStream} {e : Expr},
      t.derive depth (.expr least false) s = .ok e s' → (Node.expr e).Unassigned) := by
  have hP : ∀ n : Node, n.WellShaped → n.Gated → n.Gated := fun _ _ hgated => hgated
  have hgrows : Grows Gated (t.derive depth) := t.derive_grows hP depth
  constructor
  · intro α phrase s s' v h hgiven
    exact (hgrows phrase h hgiven).throughout
  · intro least s s' e h
    exact (hgrows.guarded h).unassigned

/-- With a sum that takes assignments for its right operand, an argument is a block that holds one:
    `f({ a + b = c })`. -/
theorem trees_gated_argument :
    let t := standard.registerAll [.binaryOperator .plus ⟨21, 0⟩ .add]
    let argument := Expr.block []
      (some (.binary .add (.name "a") (.assign .assign (.name "b") (.name "c"))))
    let e := Expr.call (.name "f") [argument]
    (t.derive 20 (.expr 0 false)
        (.ofKinds [(.identifier, "f"), (.openParen, "("), (.openCurly, "\x7b"), (.identifier, "a"),
          (.plus, "+"), (.identifier, "b"), (.assignment, "="), (.identifier, "c"),
          (.closeCurly, "\x7d"), (.closeParen, ")")]) = .ok e ⟨[], ⟨1, 10⟩⟩ ∧
      ∀ n ∈ (Phrase.expr 0 false).given, n.Throughout Gated) ∧
    (Node.expr e).Throughout Gated ∧ (Node.expr e).Unassigned := by
  intro t argument e
  have h : t.derive 20 (.expr 0 false)
      (.ofKinds [(.identifier, "f"), (.openParen, "("), (.openCurly, "\x7b"), (.identifier, "a"),
        (.plus, "+"), (.identifier, "b"), (.assignment, "="), (.identifier, "c"),
        (.closeCurly, "\x7d"), (.closeParen, ")")]) = .ok e ⟨[], ⟨1, 10⟩⟩ := rfl
  refine ⟨⟨h, List.forall_mem_nil _⟩, ?_, (trees_gated t 20).2 h⟩
  exact (trees_gated t 20).1 _ h (List.forall_mem_nil _) _ List.mem_cons_self

end ExprLang
