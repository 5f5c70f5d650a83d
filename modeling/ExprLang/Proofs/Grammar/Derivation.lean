import ExprLang.Literal
import ExprLang.Number.Numeral
import ExprLang.Token.Basic
import ExprLang.Tree.Basic

/-!
# `Proofs.Grammar.Derivation` — the grammar of the language, stated without a reader

The grammar is given by its productions: `Derives c w v` says that the tokens `w` derive the tree
`v` in the category `c`. Nothing here knows of binding powers, of streams or of the order in which
tokens are looked at. Precedence is the order of the **layers**, and associativity is the side on
which an operator takes an operand of its own layer.

    program    = statement*
    statement  = "fn" Id "(" parameters ")" [ "->" Id ] block
               | "let" parameter ";"
               | ( "return" | "break" | "continue" ) [ E ] ";"
               | A ";"
    block      = "{" statement* [ A ] "}"
    parameter  = Id [ ":" Id ] [ "=" E ]
    A          = E [ assignment-operator A ]

`E` is an expression of the loosest layer and `A` one that may be an assignment. Arguments and
parameters are separated by commas, and a comma may stand behind the last of them.

## Contents
- `Layer`, `Kind.binary?`, `Kind.unary?`, `Kind.assign?`: operators and the layers they belong to.
- `Atom`, `Annotation`: the productions without categories inside.
- `Category`, `Derives`: the grammar.
- `Derives.starts`, `Derives.proper`: how derived tokens start, and what is never among them.
- `Derives.body`: statements in front of a result.
-/

namespace ExprLang

/-! ## Operators -/

/-- The layers of expressions, from loose to tight. -/
inductive Layer where
  | disjunction | conjunction | equality | comparison | sum | product | power
  | prefixed | postfixed | primary
  deriving DecidableEq, Repr

namespace Layer

/-- The layer that is next tighter. -/
def next? : Layer → Option Layer
  | disjunction => some conjunction
  | conjunction => some equality
  | equality => some comparison
  | comparison => some sum
  | sum => some product
  | product => some power
  | power => some prefixed
  | prefixed => some postfixed
  | postfixed => some primary
  | primary => none

/-- The layers of the two operands of a binary operator. All operators but the power associate to
    the left. -/
def operands : Layer → Layer × Layer
  | disjunction => (disjunction, conjunction)
  | conjunction => (conjunction, equality)
  | equality => (equality, comparison)
  | comparison => (comparison, sum)
  | sum => (sum, product)
  | product => (product, power)
  | power => (prefixed, power)
  | l => (l, l)

end Layer

namespace Kind

/-- The binary operator that a token is, and its layer. -/
def binary? : Kind → Option (Layer × BinaryOperator)
  | kwOr => some (.disjunction, .or)
  | kwAnd => some (.conjunction, .and)
  | equals => some (.equality, .equal)
  | notEquals => some (.equality, .notEqual)
  | less => some (.comparison, .less)
  | lessEquals => some (.comparison, .lessEqual)
  | greater => some (.comparison, .greater)
  | greaterEquals => some (.comparison, .greaterEqual)
  | kwIn => some (.comparison, .isIn)
  | plus => some (.sum, .add)
  | dash => some (.sum, .subtract)
  | star => some (.product, .multiply)
  | slash => some (.product, .divide)
  | percent => some (.product, .modulus)
  | starStar => some (.power, .power)
  | _ => none

/-- The unary operator that a token is. -/
def unary? : Kind → Option UnaryOperator
  | kwNot => some .not
  | dash => some .negate
  | _ => none

/-- The assignment operator that a token is. -/
def assign? : Kind → Option AssignOperator
  | assignment => some .assign
  | plusEquals => some .add
  | minusEquals => some .subtract
  | starEquals => some .multiply
  | slashEquals => some .divide
  | percentEquals => some .modulus
  | _ => none

/-- The jump that a keyword stands for, given its value. -/
def jump? : Kind → Option (Option Expr → Statement)
  | kwReturn => some .returning
  | kwBreak => some .breaking
  | kwContinue => some .continuing
  | _ => none

end Kind

/-! ## Productions without categories inside -/

/-- A single token that is an expression. An integer has to fit into 64 bits. -/
inductive Atom : Token → Expr → Prop where
  | name {t} (ht : t.kind = .identifier) : Atom t (.name t.value)
  | int {t n} (ht : t.kind = .int) (hn : Numeral.integer? t.value = some n) : Atom t (.int n)
  | float {t x} (ht : t.kind = .float) (hx : Numeral.binary64? t.value = some x) : Atom t (.float x)
  | char {t c} (ht : t.kind = .char) (hc : Literal.charValue? t.value = some c) : Atom t (.char c)
  | string {t} (ht : t.kind = .string) : Atom t (.string (Literal.stringValue t.value))
  | true {t} (ht : t.kind = .kwTrue) : Atom t (.bool true)
  | false {t} (ht : t.kind = .kwFalse) : Atom t (.bool false)
  | null {t} (ht : t.kind = .kwNull) : Atom t .null

/-- A type behind a token of kind `k`; both may be missing. -/
inductive Annotation (k : Kind) : List Token → Option TypeName → Prop where
  | missing : Annotation k [] none
  | given {t name} (ht : t.kind = k) (hname : name.kind = .identifier) :
      Annotation k [t, name] (some (.named name.value))

/-! ## The grammar -/

/-- The categories of the grammar. -/
inductive Category where
  /-- Expressions of a layer. -/
  | layer (l : Layer)
  /-- Expressions, which may be assignments or not. -/
  | expression (assignable : Bool)
  | block
  /-- The inside of a block. -/
  | body
  | arguments
  | statement
  /-- The value of a jump, which may be missing. -/
  | value
  | parameter
  /-- The value of a parameter, which may be missing. -/
  | default
  | parameters
  | program
  deriving DecidableEq, Repr

/-- The trees of a category. -/
@[reducible] def Category.Tree : Category → Type
  | layer _ | expression _ | block => Expr
  | body => List Statement × Option Expr
  | arguments => List Expr
  | statement => Statement
  | value | default => Option Expr
  | parameter => Parameter
  | parameters => List Parameter
  | program => List Statement

/-- **The grammar**: the tokens derive the tree in the category. -/
inductive Derives : (c : Category) → List Token → c.Tree → Prop where
  /-- Every expression belongs to all layers that are looser than its own. -/
  | tighter {l l' : Layer} {w e} (hl : l.next? = some l') (h : Derives (.layer l') w e) :
      Derives (.layer l) w e
  | binary {l : Layer} {o u v left right} {t : Token} (ho : t.kind.binary? = some (l, o))
      (hleft : Derives (.layer l.operands.1) u left)
      (hright : Derives (.layer l.operands.2) v right) :
      Derives (.layer l) (u ++ t :: v) (.binary o left right)
  | unary {o w subject} {t : Token} (ho : t.kind.unary? = some o)
      (h : Derives (.layer .prefixed) w subject) :
      Derives (.layer .prefixed) (t :: w) (.unary o subject)
  | member {w subject} {dot name : Token} (h : Derives (.layer .postfixed) w subject)
      (hdot : dot.kind = .dot) (hname : name.kind = .identifier) :
      Derives (.layer .postfixed) (w ++ [dot, name]) (.member subject name.value)
  | index {w v subject key} {opening closing : Token} (h : Derives (.layer .postfixed) w subject)
      (hopen : opening.kind = .openBracket) (hkey : Derives (.expression false) v key)
      (hclose : closing.kind = .closeBracket) :
      Derives (.layer .postfixed) (w ++ opening :: (v ++ [closing])) (.index subject key)
  | call {w v subject given} {opening closing : Token} (h : Derives (.layer .postfixed) w subject)
      (hopen : opening.kind = .openParen) (hgiven : Derives .arguments v given)
      (hclose : closing.kind = .closeParen) :
      Derives (.layer .postfixed) (w ++ opening :: (v ++ [closing])) (.call subject given)
  | grouping {w e} {opening closing : Token} (hopen : opening.kind = .openParen)
      (h : Derives (.expression false) w e) (hclose : closing.kind = .closeParen) :
      Derives (.layer .primary) (opening :: (w ++ [closing])) e
  | ifThen {u v condition truthy} {t : Token} (ht : t.kind = .kwIf)
      (hcondition : Derives (.expression false) u condition) (htruthy : Derives .block v truthy) :
      Derives (.layer .primary) (t :: (u ++ v)) (.ifElse condition truthy none)
  | ifElse {u v w condition truthy falsy} {t t' : Token} (ht : t.kind = .kwIf)
      (hcondition : Derives (.expression false) u condition) (htruthy : Derives .block v truthy)
      (ht' : t'.kind = .kwElse) (hfalsy : Derives .block w falsy) :
      Derives (.layer .primary) (t :: (u ++ (v ++ t' :: w)))
        (.ifElse condition truthy (some falsy))
  | whileLoop {u v condition body} {t : Token} (ht : t.kind = .kwWhile)
      (hcondition : Derives (.expression false) u condition) (hbody : Derives .block v body) :
      Derives (.layer .primary) (t :: (u ++ v)) (.whileLoop condition body)
  | forLoop {u v iterable body} {t name t' : Token} (ht : t.kind = .kwFor)
      (hname : name.kind = .identifier) (ht' : t'.kind = .kwIn)
      (hiterable : Derives (.expression false) u iterable) (hbody : Derives .block v body) :
      Derives (.layer .primary) (t :: name :: t' :: (u ++ v))
        (.forLoop (.named name.value) iterable body)
  | blockPrimary {w e} (h : Derives .block w e) : Derives (.layer .primary) w e
  | atom {t e} (h : Atom t e) : Derives (.layer .primary) [t] e
  | plain {assignable w e} (h : Derives (.layer .disjunction) w e) :
      Derives (.expression assignable) w e
  | assign {o u v subject value} {t : Token} (ho : t.kind.assign? = some o)
      (hsubject : Derives (.layer .disjunction) u subject)
      (hvalue : Derives (.expression true) v value) :
      Derives (.expression true) (u ++ t :: v) (.assign o subject value)
  | block {w ss result} {opening closing : Token} (hopen : opening.kind = .openCurly)
      (h : Derives .body w (ss, result)) (hclose : closing.kind = .closeCurly) :
      Derives .block (opening :: (w ++ [closing])) (.block ss result)
  | bodyNil : Derives .body [] ([], none)
  | bodyResult {w e} (h : Derives (.expression true) w e) : Derives .body w ([], some e)
  | bodyCons {u v s ss result} (hfirst : Derives .statement u s)
      (hmore : Derives .body v (ss, result)) : Derives .body (u ++ v) (s :: ss, result)
  | argumentsNil : Derives .arguments [] []
  | argumentsOne {w e} (h : Derives (.expression false) w e) : Derives .arguments w [e]
  | argumentsCons {u v e es} {t : Token} (hfirst : Derives (.expression false) u e)
      (ht : t.kind = .comma) (hmore : Derives .arguments v es) :
      Derives .arguments (u ++ t :: v) (e :: es)
  | exprStatement {w e} {t : Token} (h : Derives (.expression true) w e)
      (ht : t.kind = .semicolon) : Derives .statement (w ++ [t]) (.expr e)
  | letIn {w p} {t t' : Token} (ht : t.kind = .kwLet) (h : Derives .parameter w p)
      (ht' : t'.kind = .semicolon) : Derives .statement (t :: (w ++ [t'])) (.letIn p)
  | jump {f w v} {t t' : Token} (hf : t.kind.jump? = some f) (h : Derives .value w v)
      (ht' : t'.kind = .semicolon) : Derives .statement (t :: (w ++ [t'])) (f v)
  | function {u a v ps result body} {t name opening closing : Token} (ht : t.kind = .kwFn)
      (hname : name.kind = .identifier) (hopen : opening.kind = .openParen)
      (hparameters : Derives .parameters u ps) (hclose : closing.kind = .closeParen)
      (hresult : Annotation .arrow a result) (hbody : Derives .block v body) :
      Derives .statement (t :: name :: opening :: (u ++ closing :: (a ++ v)))
        (.function ⟨name.value, ps, result, body⟩)
  | valueNone : Derives .value [] none
  | valueSome {w e} (h : Derives (.expression false) w e) : Derives .value w (some e)
  | parameter {a w type value} {name : Token} (hname : name.kind = .identifier)
      (htype : Annotation .colon a type) (hvalue : Derives .default w value) :
      Derives .parameter (name :: (a ++ w)) ⟨.named name.value, type, value⟩
  | defaultNone : Derives .default [] none
  | defaultSome {w e} {t : Token} (ht : t.kind = .assignment)
      (h : Derives (.expression false) w e) :
      Derives .default (t :: w) (some e)
  | parametersNil : Derives .parameters [] []
  | parametersOne {w p} (h : Derives .parameter w p) : Derives .parameters w [p]
  | parametersCons {u v p ps} {t : Token} (hfirst : Derives .parameter u p) (ht : t.kind = .comma)
      (hmore : Derives .parameters v ps) : Derives .parameters (u ++ t :: v) (p :: ps)
  | programNil : Derives .program [] []
  | programCons {u v s ss} (hfirst : Derives .statement u s) (hmore : Derives .program v ss) :
      Derives .program (u ++ v) (s :: ss)

/-! ## How derived tokens start -/

/-- An expression can start with a token of this kind. -/
def Kind.opens : Kind → Bool
  | .identifier | .int | .float | .char | .string | .kwTrue | .kwFalse | .kwNull
  | .openParen | .openCurly | .kwIf | .kwWhile | .kwFor | .kwNot | .dash => true
  | _ => false

/-- A statement can start with a token of this kind. -/
def Kind.opensStatement : Kind → Bool
  | .kwFn | .kwLet | .kwReturn | .kwBreak | .kwContinue => true
  | k => k.opens

/-- The first of the tokens has a kind that satisfies `p`. -/
def StartsWith (p : Kind → Bool) (w : List Token) : Prop := ∃ t u, w = t :: u ∧ p t.kind = true

theorem StartsWith.cons {p : Kind → Bool} {t : Token} {w : List Token} (h : p t.kind = true) :
    StartsWith p (t :: w) :=
  ⟨t, w, rfl, h⟩

theorem StartsWith.append {p : Kind → Bool} {u v : List Token} (h : StartsWith p u) :
    StartsWith p (u ++ v) := by
  obtain ⟨t, w, rfl, ht⟩ := h
  exact ⟨t, w ++ v, rfl, ht⟩

/-- Where an expression can start, a statement can. -/
theorem Kind.opensStatement_of_opens {k : Kind} (h : k.opens = true) : k.opensStatement = true := by
  cases k <;> first | rfl | cases h

theorem StartsWith.statement {w : List Token} (h : StartsWith Kind.opens w) :
    StartsWith Kind.opensStatement w := by
  obtain ⟨t, u, hw, ht⟩ := h
  exact ⟨t, u, hw, Kind.opensStatement_of_opens ht⟩

theorem Kind.opens_of_unary? {k : Kind} {o : UnaryOperator} (h : k.unary? = some o) :
    k.opens = true := by
  cases k <;> first | rfl | cases h

theorem Kind.opensStatement_of_jump? {k : Kind} {f : Option Expr → Statement}
    (h : k.jump? = some f) : k.opensStatement = true := by
  cases k <;> first | rfl | cases h

/-- What tokens in the category start with, where they cannot be missing. -/
def Category.Starts : Category → List Token → Prop
  | layer _, w | expression _, w | block, w => StartsWith Kind.opens w
  | statement, w => StartsWith Kind.opensStatement w
  | parameter, w => StartsWith (· = .identifier) w
  | _, _ => True

/-- **The first token of an expression or a statement** is of a kind that can start one. -/
theorem Derives.starts {c : Category} {w : List Token} {v : c.Tree} (h : Derives c w v) :
    c.Starts w := by
  induction h with
  | tighter _ _ ih | plain _ ih | blockPrimary _ ih => exact ih
  | binary _ _ _ ih | assign _ _ _ ih | member _ _ _ ih => exact StartsWith.append ih
  | index _ _ _ _ ih | call _ _ _ _ ih => exact StartsWith.append ih
  | exprStatement _ _ ih => exact StartsWith.append (StartsWith.statement ih)
  | unary ho => exact .cons (Kind.opens_of_unary? ho)
  | jump hf => exact .cons (Kind.opensStatement_of_jump? hf)
  | grouping ht | ifThen ht | ifElse ht | whileLoop ht | forLoop ht | block ht | letIn ht
  | function ht => exact .cons (by rw [ht]; rfl)
  | parameter ht => exact ⟨_, _, rfl, decide_eq_true ht⟩
  | atom h => cases h <;> exact .cons (by simp [*, Kind.opens])
  | _ => trivial

/-! ## Kinds that no category knows -/

/-- The token stands for a piece of text that is not malformed. -/
def Token.Proper (t : Token) : Prop := t.kind ≠ .eof ∧ t.kind ≠ .error

theorem Token.proper_of_kind {t : Token} {k : Kind} (ht : t.kind = k) (hk : k ≠ .eof ∧ k ≠ .error) :
    t.Proper := by
  rwa [← ht] at hk

theorem Token.proper_of_binary? {t : Token} {entry} (h : t.kind.binary? = some entry) :
    t.Proper := by
  constructor <;> intro hk <;> rw [hk] at h <;> cases h

theorem Token.proper_of_unary? {t : Token} {o} (h : t.kind.unary? = some o) : t.Proper := by
  constructor <;> intro hk <;> rw [hk] at h <;> cases h

theorem Token.proper_of_assign? {t : Token} {o} (h : t.kind.assign? = some o) : t.Proper := by
  constructor <;> intro hk <;> rw [hk] at h <;> cases h

theorem Token.proper_of_jump? {t : Token} {f} (h : t.kind.jump? = some f) : t.Proper := by
  constructor <;> intro hk <;> rw [hk] at h <;> cases h

theorem Atom.proper {t : Token} {e : Expr} (h : Atom t e) : t.Proper := by
  cases h <;> exact Token.proper_of_kind ‹_› (by decide)

theorem Annotation.proper {k : Kind} (hk : k ≠ .eof ∧ k ≠ .error) {w : List Token}
    {type : Option TypeName} (h : Annotation k w type) : ∀ t ∈ w, t.Proper := by
  cases h with
  | missing => simp
  | given ht hname =>
      have hfirst := Token.proper_of_kind ht hk
      have hsecond := Token.proper_of_kind hname (by decide)
      simp [hfirst, hsecond]

/-- **Neither the end of the input nor a malformed piece** is ever derived. -/
theorem Derives.proper {c : Category} {w : List Token} {v : c.Tree} (h : Derives c w v) :
    ∀ t ∈ w, t.Proper := by
  have hkind : ∀ {t : Token} {k : Kind}, t.kind = k → k ≠ .eof ∧ k ≠ .error → t.Proper :=
    Token.proper_of_kind
  induction h with
  | tighter _ _ ih | blockPrimary _ ih | plain _ ih | bodyResult _ ih | argumentsOne _ ih
  | valueSome _ ih | parametersOne _ ih => exact ih
  | bodyNil | argumentsNil | valueNone | defaultNone | parametersNil | programNil => simp
  | atom h => simpa using h.proper
  | bodyCons _ _ ihu ihv | programCons _ _ ihu ihv =>
      exact List.forall_mem_append.mpr ⟨ihu, ihv⟩
  | binary ho _ _ ihu ihv =>
      simp only [List.forall_mem_append, List.forall_mem_cons]
      exact ⟨ihu, Token.proper_of_binary? ho, ihv⟩
  | assign ho _ _ ihu ihv =>
      simp only [List.forall_mem_append, List.forall_mem_cons]
      exact ⟨ihu, Token.proper_of_assign? ho, ihv⟩
  | unary ho _ ih => exact List.forall_mem_cons.mpr ⟨Token.proper_of_unary? ho, ih⟩
  | defaultSome ht _ ih => exact List.forall_mem_cons.mpr ⟨hkind ht (by decide), ih⟩
  | member _ hdot hname ih =>
      simp only [List.forall_mem_append, List.forall_mem_cons]
      exact ⟨ih, hkind hdot (by decide), hkind hname (by decide), List.forall_mem_nil _⟩
  | index _ hopen _ hclose ihu ihv | call _ hopen _ hclose ihu ihv =>
      simp only [List.forall_mem_append, List.forall_mem_cons]
      exact ⟨ihu, hkind hopen (by decide), ihv, hkind hclose (by decide), List.forall_mem_nil _⟩
  | grouping hopen _ hclose ih | block hopen _ hclose ih | letIn hopen _ hclose ih =>
      simp only [List.forall_mem_append, List.forall_mem_cons]
      exact ⟨hkind hopen (by decide), ih, hkind hclose (by decide), List.forall_mem_nil _⟩
  | jump hf _ hclose ih =>
      simp only [List.forall_mem_append, List.forall_mem_cons]
      exact ⟨Token.proper_of_jump? hf, ih, hkind hclose (by decide), List.forall_mem_nil _⟩
  | exprStatement _ hclose ih =>
      simp only [List.forall_mem_append, List.forall_mem_cons]
      exact ⟨ih, hkind hclose (by decide), List.forall_mem_nil _⟩
  | ifThen ht _ _ ihu ihv | whileLoop ht _ _ ihu ihv =>
      simp only [List.forall_mem_append, List.forall_mem_cons]
      exact ⟨hkind ht (by decide), ihu, ihv⟩
  | ifElse ht _ _ ht' _ ihu ihv ihw =>
      simp only [List.forall_mem_append, List.forall_mem_cons]
      exact ⟨hkind ht (by decide), ihu, ihv, hkind ht' (by decide), ihw⟩
  | forLoop ht hname ht' _ _ ihu ihv =>
      simp only [List.forall_mem_append, List.forall_mem_cons]
      exact ⟨hkind ht (by decide), hkind hname (by decide), hkind ht' (by decide), ihu, ihv⟩
  | argumentsCons _ ht _ ihu ihv | parametersCons _ ht _ ihu ihv =>
      simp only [List.forall_mem_append, List.forall_mem_cons]
      exact ⟨ihu, hkind ht (by decide), ihv⟩
  | parameter hname htype _ ih =>
      simp only [List.forall_mem_append, List.forall_mem_cons]
      exact ⟨hkind hname (by decide), htype.proper (by decide), ih⟩
  | function ht hname hopen _ hclose hresult _ ihu ihv =>
      simp only [List.forall_mem_append, List.forall_mem_cons]
      exact ⟨hkind ht (by decide), hkind hname (by decide), hkind hopen (by decide), ihu,
        hkind hclose (by decide), hresult.proper (by decide), ihv⟩

/-! ## The inside of a block -/

/-- The tokens of the statements of a block, and behind them those of its result. -/
theorem Derives.body {u v : List Token} {ss : List Statement} {result : Option Expr}
    (h : Derives .program u ss) (hresult : Derives .body v ([], result)) :
    Derives .body (u ++ v) (ss, result) := by
  induction ss generalizing u with
  | nil =>
      cases h
      exact hresult
  | cons s ss ih =>
      cases h with
      | programCons hfirst hmore =>
          rw [List.append_assoc]
          exact .bodyCons hfirst (ih hmore)

end ExprLang
