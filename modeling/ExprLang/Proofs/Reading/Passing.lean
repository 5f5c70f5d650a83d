import ExprLang.Proofs.Grammar.Derivation
import ExprLang.Proofs.Reading.Stream
import ExprLang.Proofs.Reading.Success

/-!
# `Proofs.Reading.Passing` — what a reading passes over, and where it stops

Neither the end of the input nor a malformed token is ever taken off a stream, whether a reading
succeeds or fails: every rule looks at a token before it takes it, and gives no meaning to these two
kinds. A reading that fails stops at the token that its diagnostic speaks of. There is one exception,
an assignment that is not accepted: it is found only behind its right operand, and its diagnostic
speaks of the operator, which is a token that was passed over.

This holds of every table without an entry for the two kinds.

## Contents
- `TokenStream.Passes`: proper tokens that are passed over.
- `Problem.OfToken`: what can be wrong with a token, told on one line.
- `Reply.Orderly`: replies that pass over proper tokens only.
- `Parse.orderly_bind` and its like: single steps.
- `Table.Strict`: tables without an entry for the end of the input or for malformed tokens.
- `Table.rule_orderly`, `Table.derive_orderly`: one rule, and a whole derivation.
-/

namespace ExprLang

/-! ## Tokens passed over -/

namespace TokenStream

/-- The tokens `w`, which are all proper, are passed over from `s` to `s'`. -/
def Passes (s : TokenStream) (w : List Token) (s' : TokenStream) : Prop :=
  s = s'.behind w ∧ ∀ t ∈ w, t.Proper

variable {s s₁ s₂ : TokenStream} {u v : List Token}

theorem Passes.refl (s : TokenStream) : s.Passes [] s := ⟨rfl, List.forall_mem_nil _⟩

theorem Passes.trans (h : s.Passes u s₁) (h' : s₁.Passes v s₂) : s.Passes (u ++ v) s₂ := by
  obtain ⟨rfl, hu⟩ := h
  obtain ⟨rfl, hv⟩ := h'
  exact ⟨(s₂.behind_append u v).symm, List.forall_mem_append.mpr ⟨hu, hv⟩⟩

theorem passes_advance (h : s.peek.Proper) : s.Passes [s.peek] s.advance :=
  ⟨eq_advance_behind h.1, List.forall_mem_singleton.mpr h⟩

end TokenStream

/-- A text without a line feed. -/
def OneLine (text : String) : Prop := '\n' ∉ text.toList

instance (text : String) : Decidable (OneLine text) :=
  inferInstanceAs (Decidable ('\n' ∉ text.toList))

/-- A problem that a rule finds with the token it stops at. -/
def Problem.OfToken (token : Token) : Problem → Prop
  | .lexical _ | .assignmentNotAllowed => False
  | .expected what => OneLine what
  | .expectedValue => True
  | .notImplemented construct => OneLine construct
  | .badNumber text => text = token.value ∧ (token.kind = .int ∨ token.kind = .float)

/-- **The reply passes over proper tokens only**, and a diagnostic speaks of the token that it stops
    at, or else of an assignment operator that it has passed over. -/
inductive Reply.Orderly (t : Table) (s : TokenStream) {α : Type} : Reply α → Prop where
  | ok {v w s'} (h : s.Passes w s') : Orderly t s (.ok v s')
  | stopped {problem w s'} (h : s.Passes w s') (hproblem : problem.OfToken s'.peek) :
      Orderly t s (.error (s'.diagnose problem) s')
  | disallowed {operator w s'} (h : s.Passes w s') (hmem : operator ∈ w)
      (hoperator : (t.assignOperator operator.kind).isSome) :
      Orderly t s (.error ⟨.assignmentNotAllowed, operator.position⟩ s')
  | halt {cause} : Orderly t s (.halt cause)

/-- A reply that is orderly behind some tokens is orderly in front of them. -/
theorem Reply.Orderly.after {t : Table} {s s₁ : TokenStream} {u : List Token} {α : Type}
    {r : Reply α} (hr : r.Orderly t s₁) (hs : s.Passes u s₁) : r.Orderly t s := by
  cases hr with
  | ok h => exact .ok (hs.trans h)
  | stopped h hproblem => exact .stopped (hs.trans h) hproblem
  | disallowed h hmem hoperator =>
      exact .disallowed (hs.trans h) (List.mem_append_right u hmem) hoperator
  | halt => exact .halt

/-- Whether a failure is orderly does not depend on what was to be read. -/
theorem Reply.Orderly.error {t : Table} {s s' : TokenStream} {d : Diagnostic} {α β : Type}
    (h : (Reply.error d s' : Reply α).Orderly t s) : (Reply.error d s' : Reply β).Orderly t s := by
  cases h with
  | stopped h hproblem => exact .stopped h hproblem
  | disallowed h hmem hoperator => exact .disallowed h hmem hoperator

/-! ## Single steps -/

namespace Parse

variable {α β : Type} {t : Table} {s s' : TokenStream}

theorem orderly_ok {a : α} : (Reply.ok a s).Orderly t s := .ok (.refl s)

theorem orderly_reject {problem : Problem} (h : problem.OfToken s.peek) :
    (reject problem s : Reply α).Orderly t s := .stopped (.refl s) h

theorem orderly_expect {k : Kind} {what : String}
    (h : (k ≠ .eof ∧ k ≠ .error) ∧ OneLine what) : (expect k what s).Orderly t s := by
  rw [expect_apply]
  by_cases hpeek : s.peek.kind = k
  · rw [if_pos (by simp [Token.is, hpeek])]
    exact .ok (TokenStream.passes_advance (Token.proper_of_kind hpeek h.1))
  · rw [if_neg (by simp [Token.is, hpeek])]
    exact .stopped (.refl s) h.2

/-- A sequence that starts at `s'` and is orderly from `s` on, which may be further in front. -/
theorem orderly_bind_since {p : Parse α} {f : α → Parse β} (hp : (p s').Orderly t s)
    (hf : ∀ a s₁, p s' = .ok a s₁ → (f a s₁).Orderly t s) : ((p >>= f) s').Orderly t s := by
  rw [bind_apply]
  cases hps : p s' with
  | ok a s₁ => exact hf a s₁ hps
  | error d s₁ =>
      rw [hps] at hp
      exact hp.error
  | halt cause => exact .halt

/-- **A sequence is orderly** if both of its halves are, each from where it starts. -/
theorem orderly_bind {p : Parse α} {f : α → Parse β} (hp : (p s).Orderly t s)
    (hf : ∀ a s₁, p s = .ok a s₁ → (f a s₁).Orderly t s₁) : ((p >>= f) s).Orderly t s := by
  refine orderly_bind_since hp ?_
  intro a s₁ hps
  have hnext := hf a s₁ hps
  rw [hps] at hp
  cases hp with
  | ok h => exact hnext.after h

theorem orderly_advance_bind (h : s.peek.Proper) {f : Token → Parse β}
    (hf : (f s.peek s.advance).Orderly t s.advance) : ((advance >>= f) s).Orderly t s :=
  hf.after (TokenStream.passes_advance h)

theorem orderly_kind_bind {f : Kind → Parse β} (hf : (f s.peek.kind s).Orderly t s) :
    ((kind >>= f) s).Orderly t s := hf

theorem orderly_ite {c : Prop} [Decidable c] {p q : Parse α} (hp : c → (p s).Orderly t s)
    (hq : ¬c → (q s).Orderly t s) : ((if c then p else q) s).Orderly t s := by
  by_cases hc : c
  · simpa only [if_pos hc] using hp hc
  · simpa only [if_neg hc] using hq hc

/-- What follows an expected token starts behind it. -/
theorem orderly_expect_bind {k : Kind} {what : String}
    (h : (k ≠ .eof ∧ k ≠ .error) ∧ OneLine what) {f : Token → Parse β}
    (hf : ∀ a s₁, (f a s₁).Orderly t s₁) : ((expect k what >>= f) s).Orderly t s :=
  orderly_bind (orderly_expect h) fun a s₁ _ => hf a s₁

end Parse

/-! ## Tables -/

/-- The table has no entry for the end of the input and none for malformed tokens. -/
structure Table.Strict (t : Table) : Prop where
  statementForm : ∀ {k form}, t.statementForm k = some form → k ≠ .eof ∧ k ≠ .error
  operandForm : ∀ {k form}, t.operandForm k = some form → k ≠ .eof ∧ k ≠ .error
  postfixForm : ∀ {k entry}, t.postfixForm k = some entry → k ≠ .eof ∧ k ≠ .error
  prefixOperator : ∀ {k entry}, t.prefixOperator k = some entry → k ≠ .eof ∧ k ≠ .error
  infixPowers : ∀ {k powers}, t.infixPowers k = some powers → k ≠ .eof ∧ k ≠ .error

theorem standard_strict : standard.Strict := by
  constructor <;> intro k _ h <;> constructor <;> rintro rfl <;> cases h

/-- The rule of the phrase takes its first token off without looking at it: whoever reads the phrase
    has looked at it. -/
def Phrase.Marked : {α : Type} → Phrase α → Prop
  | _, .operandForm .block | _, .operandForm .atom => False
  | _, .operandForm _ | _, .postfixForm _ _ | _, .statementForm _ => True
  | _, _ => False

/-- A reader that is orderly for every phrase, wherever the phrase may start. -/
def Table.ReadsOrderly (t : Table) (read : {α : Type} → Phrase α → Parse α) : Prop :=
  ∀ {α : Type} (phrase : Phrase α) (s : TokenStream), (phrase.Marked → s.peek.Proper) →
    (read phrase s).Orderly t s

/-! ## The rules -/

namespace Rule

open Parse

variable {t : Table} {read : {α : Type} → Phrase α → Parse α} {s : TokenStream}

theorem typeName_orderly : (typeName s).Orderly t s :=
  orderly_expect_bind (by decide) fun _ _ => orderly_ok

theorem pattern_orderly : (pattern s).Orderly t s :=
  orderly_expect_bind (by decide) fun _ _ => orderly_ok

/-- A token that is no atom is one that a value is missing at, or a number without a value. -/
theorem ofToken_of_atom {token : Token} {problem : Problem} (h : token.atom = .error problem) :
    problem.OfToken token := by
  unfold Token.atom at h
  generalize hk : token.kind = k at h
  cases k with
  | int =>
      cases hn : Numeral.integer? token.value <;> simp [hn] at h
      rw [← h]
      exact ⟨rfl, Or.inl hk⟩
  | float =>
      cases hx : Numeral.binary64? token.value <;> simp [hx] at h
      rw [← h]
      exact ⟨rfl, Or.inr hk⟩
  | char =>
      cases hc : Literal.charValue? token.value <;> simp [hc] at h
      rw [← h]
      trivial
  | _ => cases h <;> trivial

theorem atom_orderly : (atom s).Orderly t s := by
  show ((current >>= _) s).Orderly t s
  rw [current_bind]
  cases ha : s.peek.atom with
  | ok e =>
      have hproper : s.peek.Proper := by
        constructor <;> intro hk <;> simp [Token.atom, hk] at ha
      exact orderly_advance_bind hproper orderly_ok
  | error problem => exact orderly_reject (ofToken_of_atom ha)

section

variable (hread : t.ReadsOrderly read)

include hread

/-- What stands between parentheses, or behind a keyword, is read behind its first token. -/
theorem grouping_orderly (hs : s.peek.Proper) : (grouping read s).Orderly t s := by
  refine orderly_advance_bind hs (orderly_bind (hread _ _ nofun) fun e s₁ _ => ?_)
  exact orderly_expect_bind (by decide) fun _ _ => orderly_ok

theorem ifElse_orderly (hs : s.peek.Proper) : (ifElse read s).Orderly t s := by
  refine orderly_advance_bind hs (orderly_bind (hread _ _ nofun) fun condition s₁ _ => ?_)
  refine orderly_bind (hread _ _ nofun) fun truthy s₂ _ => orderly_kind_bind ?_
  refine orderly_ite (fun hk => ?_) fun _ => orderly_ok
  refine orderly_advance_bind (Token.proper_of_kind hk (by decide)) ?_
  exact orderly_bind (hread _ _ nofun) fun falsy s₃ _ => orderly_ok

theorem whileLoop_orderly (hs : s.peek.Proper) : (whileLoop read s).Orderly t s := by
  refine orderly_advance_bind hs (orderly_bind (hread _ _ nofun) fun condition s₁ _ => ?_)
  exact orderly_bind (hread _ _ nofun) fun body s₂ _ => orderly_ok

theorem forLoop_orderly (hs : s.peek.Proper) : (forLoop read s).Orderly t s := by
  refine orderly_advance_bind hs (orderly_bind pattern_orderly fun subject s₁ _ => ?_)
  refine orderly_expect_bind (by decide) fun _ s₂ => ?_
  refine orderly_bind (hread _ _ nofun) fun iterable s₃ _ => ?_
  exact orderly_bind (hread _ _ nofun) fun body s₄ _ => orderly_ok

theorem block_orderly : (block read s).Orderly t s := by
  refine orderly_expect_bind (by decide) fun _ s₁ => ?_
  refine orderly_bind (hread _ _ nofun) fun inside s₂ _ => ?_
  exact orderly_expect_bind (by decide) fun _ _ => orderly_ok

theorem operandForm_orderly (form : OperandForm)
    (hs : (Phrase.operandForm form).Marked → s.peek.Proper) :
    (operandForm read form s).Orderly t s := by
  cases form with
  | grouping => exact grouping_orderly hread (hs trivial)
  | ifElse => exact ifElse_orderly hread (hs trivial)
  | whileLoop => exact whileLoop_orderly hread (hs trivial)
  | forLoop => exact forLoop_orderly hread (hs trivial)
  | block => exact block_orderly hread
  | atom => exact atom_orderly

theorem postfixForm_orderly (form : PostfixForm) (subject : Expr) (hs : s.peek.Proper) :
    (postfixForm read form subject s).Orderly t s := by
  cases form with
  | member =>
      exact orderly_advance_bind hs (orderly_expect_bind (by decide) fun _ _ => orderly_ok)
  | index =>
      refine orderly_advance_bind hs (orderly_bind (hread _ _ nofun) fun key s₁ _ => ?_)
      exact orderly_expect_bind (by decide) fun _ _ => orderly_ok
  | call =>
      refine orderly_advance_bind hs (orderly_bind (hread _ _ nofun) fun given s₁ _ => ?_)
      exact orderly_expect_bind (by decide) fun _ _ => orderly_ok

theorem operand_orderly (ht : t.Strict) : (operand t read s).Orderly t s := by
  refine orderly_kind_bind ?_
  cases hp : t.prefixOperator s.peek.kind with
  | some entry =>
      refine orderly_advance_bind (ht.prefixOperator hp) ?_
      exact orderly_bind (hread _ _ nofun) fun subject s₁ _ => orderly_ok
  | none =>
      refine hread _ _ ?_
      cases hform : t.operandForm s.peek.kind with
      | some form => exact fun _ => ht.operandForm hform
      | none => exact nofun

/-- An assignment that is not accepted is found behind its right operand, but its diagnostic speaks
    of the operator in front of it. -/
theorem infix_orderly {assignable : Bool} {powers : InfixPowers} {left : Expr}
    {f : Expr → Parse Expr} (hs : s.peek.Proper) (hf : ∀ e s₁, (f e s₁).Orderly t s₁) :
    ((read (.expr powers.right assignable) >>= fun right =>
      combine t assignable s.peek left right >>= f) s.advance).Orderly t s := by
  have hright : (read (.expr powers.right assignable) s.advance).Orderly t s.advance :=
    hread _ _ nofun
  refine orderly_bind_since (hright.after (TokenStream.passes_advance hs)) ?_
  intro right s₁ hok
  rw [hok] at hright
  cases hright with
  | @ok _ w _ h =>
      have hpasses := (TokenStream.passes_advance hs).trans h
      rw [bind_apply]
      unfold combine
      cases ha : t.assignOperator s.peek.kind with
      | some o =>
          cases assignable with
          | true => exact (hf _ s₁).after hpasses
          | false => exact .disallowed hpasses List.mem_cons_self (by rw [ha]; rfl)
      | none =>
          cases t.binaryOperator s.peek.kind with
          | some o => exact (hf _ s₁).after hpasses
          | none => exact .halt

theorem operators_orderly (ht : t.Strict) {least : Nat} {assignable : Bool} {left : Expr} :
    (operators t read least assignable left s).Orderly t s := by
  rcases t.stopsAt_or least s.peek.kind with
    hstops | ⟨power, form, hp, hle⟩ | ⟨hp, powers, hi, hle⟩
  · rw [operators_of_stopsAt hstops]
    exact orderly_ok
  · rw [operators_of_postfixForm hp hle]
    exact orderly_bind (hread _ _ fun _ => ht.postfixForm hp) fun e s₁ _ => hread _ _ nofun
  · rw [operators_of_infixPowers hp hi hle]
    exact infix_orderly hread (ht.infixPowers hi) fun e s₁ => hread _ _ nofun

/-- A list with commas in between passes over its commas and its elements. -/
theorem separated_orderly {α : Type} {first : Phrase α} {more : Phrase (List α)}
    (hfirst : ¬first.Marked) (hmore : ¬more.Marked) :
    ((do
        if (← kind) = .closeParen then return []
        let a ← read first
        if (← kind) = .comma then
          let _ ← advance
          let rest ← read more
          return a :: rest
        else
          return [a] : Parse (List α)) s).Orderly t s := by
  refine orderly_kind_bind (orderly_ite (fun _ => orderly_ok) fun _ => ?_)
  refine orderly_bind (hread _ _ fun h => absurd h hfirst) fun a s₁ _ => orderly_kind_bind ?_
  refine orderly_ite (fun hk => ?_) fun _ => orderly_ok
  refine orderly_advance_bind (Token.proper_of_kind hk (by decide)) ?_
  exact orderly_bind (hread _ _ fun h => absurd h hmore) fun rest s₂ _ => orderly_ok

theorem body_orderly (ht : t.Strict) : (body t read s).Orderly t s := by
  refine orderly_kind_bind (orderly_ite (fun _ => orderly_ok) fun _ => ?_)
  cases hform : t.statementForm s.peek.kind with
  | some form =>
      refine orderly_bind (hread _ _ fun _ => ht.statementForm hform) fun first s₁ _ => ?_
      exact orderly_bind (hread _ _ nofun) fun _ _ _ => orderly_ok
  | none =>
      refine orderly_bind (hread _ _ nofun) fun e s₁ _ => orderly_kind_bind ?_
      -- what follows the expression makes it a statement, or ends the block, or is a problem
      generalize hk : s₁.peek.kind = k
      cases k with
      | semicolon =>
          refine orderly_advance_bind (Token.proper_of_kind hk (by decide)) ?_
          exact orderly_bind (hread _ _ nofun) fun _ _ _ => orderly_ok
      | closeCurly => exact orderly_ok
      | _ => exact orderly_reject (show OneLine _ by decide)

theorem statement_orderly (ht : t.Strict) : (Rule.statement t read s).Orderly t s := by
  refine orderly_kind_bind ?_
  cases hform : t.statementForm s.peek.kind with
  | some form => exact hread _ _ fun _ => ht.statementForm hform
  | none =>
      refine orderly_bind (hread _ _ nofun) fun e s₁ _ => ?_
      exact orderly_expect_bind (by decide) fun _ _ => orderly_ok

theorem jumpValue_orderly (hs : s.peek.Proper) : (jumpValue read s).Orderly t s := by
  refine orderly_advance_bind hs (orderly_kind_bind (orderly_ite (fun _ => ?_) fun _ => ?_))
  · exact orderly_expect_bind (by decide) fun _ _ => orderly_ok
  · refine orderly_bind (hread _ _ nofun) fun value s₁ _ => ?_
    exact orderly_expect_bind (by decide) fun _ _ => orderly_ok

theorem function_orderly (hs : s.peek.Proper) : (function read s).Orderly t s := by
  refine orderly_advance_bind hs (orderly_expect_bind (by decide) fun name s₁ => ?_)
  refine orderly_expect_bind (by decide) fun _ s₂ => ?_
  refine orderly_bind (hread _ _ nofun) fun parameters s₃ _ => ?_
  refine orderly_expect_bind (by decide) fun _ s₄ => orderly_kind_bind ?_
  refine orderly_ite (fun hk => ?_) fun _ => ?_
  · refine orderly_advance_bind (Token.proper_of_kind hk (by decide)) ?_
    refine orderly_bind typeName_orderly fun result s₅ _ => ?_
    exact orderly_bind (hread _ _ nofun) fun body s₆ _ => orderly_ok
  · exact orderly_bind (hread _ _ nofun) fun body s₅ _ => orderly_ok

theorem statementForm_orderly (form : StatementForm) (hs : s.peek.Proper) :
    (statementForm read form s).Orderly t s := by
  have hjump := jumpValue_orderly hread hs
  cases form with
  | classDef => exact orderly_reject (show OneLine "class" by decide)
  | function => exact function_orderly hread hs
  | letIn =>
      refine orderly_advance_bind hs (orderly_bind (hread _ _ nofun) fun p s₁ _ => ?_)
      exact orderly_expect_bind (by decide) fun _ _ => orderly_ok
  | returning => exact orderly_bind hjump fun _ _ _ => orderly_ok
  | breaking => exact orderly_bind hjump fun _ _ _ => orderly_ok
  | continuing => exact orderly_bind hjump fun _ _ _ => orderly_ok
  | any => exact hread _ _ nofun

theorem defaultValue_orderly : (defaultValue read s).Orderly t s := by
  refine orderly_kind_bind (orderly_ite (fun hk => ?_) fun _ => orderly_ok)
  refine orderly_advance_bind (Token.proper_of_kind hk (by decide)) ?_
  exact orderly_bind (hread _ _ nofun) fun value s₁ _ => orderly_ok

theorem parameter_orderly : (parameter read s).Orderly t s := by
  refine orderly_bind pattern_orderly fun subject s₁ _ => orderly_kind_bind ?_
  refine orderly_ite (fun hk => ?_) fun _ => ?_
  · refine orderly_advance_bind (Token.proper_of_kind hk (by decide)) ?_
    refine orderly_bind typeName_orderly fun type s₂ _ => ?_
    exact orderly_bind (defaultValue_orderly hread) fun value s₃ _ => orderly_ok
  · exact orderly_bind (defaultValue_orderly hread) fun value s₂ _ => orderly_ok

theorem program_orderly : (program read s).Orderly t s := by
  refine orderly_kind_bind (orderly_ite (fun _ => orderly_ok) fun _ => ?_)
  refine orderly_bind (hread _ _ nofun) fun first s₁ _ => ?_
  exact orderly_bind (hread _ _ nofun) fun more s₂ _ => orderly_ok

end
end Rule

namespace Table

open Rule

variable {t : Table} {read : {α : Type} → Phrase α → Parse α}

/-- **One rule is orderly** when the readings inside it are. -/
theorem rule_orderly (ht : t.Strict) (hread : t.ReadsOrderly read) :
    t.ReadsOrderly (t.rule read) := by
  intro α phrase s hs
  cases phrase with
  | expr least assignable =>
      exact Parse.orderly_bind (hread _ _ nofun) fun left s₁ _ => hread _ _ nofun
  | operators least assignable left => exact operators_orderly hread ht
  | operand => exact operand_orderly hread ht
  | operandForm form => exact operandForm_orderly hread form hs
  | postfixForm form subject => exact postfixForm_orderly hread form subject (hs trivial)
  | arguments => exact separated_orderly hread nofun nofun
  | body => exact body_orderly hread ht
  | statement => exact statement_orderly hread ht
  | statementForm form => exact statementForm_orderly hread form (hs trivial)
  | parameter => exact parameter_orderly hread
  | parameters => exact separated_orderly hread nofun nofun
  | program => exact program_orderly hread

/-- **A whole derivation is orderly**, by induction on its depth. -/
theorem derive_orderly (ht : t.Strict) (depth : Nat) : t.ReadsOrderly (t.derive depth) := by
  induction depth with
  | zero => exact fun _ _ _ => .halt
  | succ depth ih => exact rule_orderly ht ih

end Table
end ExprLang
