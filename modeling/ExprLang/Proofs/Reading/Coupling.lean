import ExprLang.Proofs.Reading.Success

/-!
# `Proofs.Reading.Coupling` — two readings in lockstep

A reader looks at a stream only through the kind and the value of the current token; positions go
into diagnostics and nowhere else. So when two streams are **coupled** — their current tokens differ
in nothing but the position, and stay so when both are advanced — any two readings of them run in
lockstep: they end in the same way, with the same tree or the same problem, and leave coupled
streams.

Two streams may be coupled up to some token only. Nothing is known of a reading that has gone
**past** it, except that it stays past it: whether it did can be told from the stream that it leaves.

The first of the two readings may also run out of depth, which says nothing about the second one.
With it, coupling a stream with itself says that a deeper derivation only adds answers, and coupling
it with the same tokens elsewhere says that diagnostics move with the text.

## Contents
- `Coupling`, `Reply.Follows`, `Parse.Follows`: what lockstep means for replies and for readers.
- `Parse.Follows.bind` and its like: single steps.
- `Table.rule_follows`, `Table.derive_follows`: one rule, and a whole derivation.
- `Table.derive_mono`: a deeper derivation gives the same answer.
-/

namespace ExprLang

/-- Pairs of streams that a reader cannot tell apart, and the positions that correspond in them. -/
structure Coupling where
  streams : TokenStream → TokenStream → Prop
  positions : Position → Position → Prop
  /-- A reading of the first stream has left the tokens behind that the two are coupled on. -/
  past : TokenStream → Prop
  kind_eq : ∀ {s s'}, streams s s' → s.peek.kind = s'.peek.kind
  value_eq : ∀ {s s'}, streams s s' → s.peek.kind ≠ .eof → s.peek.value = s'.peek.value
  position : ∀ {s s'}, streams s s' → positions s.peek.position s'.peek.position
  advance : ∀ {s s'}, streams s s' → streams s.advance s'.advance ∨ past s.advance
  past_advance : ∀ {s}, past s → past s.advance
  exists_position : ∀ p, ∃ p', positions p p'

/-- Tokens that differ in nothing but the position, which corresponds. -/
structure Coupling.Tokens (c : Coupling) (t t' : Token) : Prop where
  kind_eq : t.kind = t'.kind
  value_eq : t.kind ≠ .eof → t.value = t'.value
  position : c.positions t.position t'.position

theorem Coupling.peek (c : Coupling) {s s' : TokenStream} (h : c.streams s s') :
    c.Tokens s.peek s'.peek :=
  ⟨c.kind_eq h, c.value_eq h, c.position h⟩

theorem Coupling.exists_token (c : Coupling) (t : Token) : ∃ t', c.Tokens t t' := by
  obtain ⟨p', hp'⟩ := c.exists_position t.position
  exact ⟨⟨t.kind, t.value, p'⟩, rfl, fun _ => rfl, hp'⟩

/-- What a token is read as depends on its kind and its value only. -/
theorem Coupling.Tokens.atom_eq {c : Coupling} {t t' : Token} (h : c.Tokens t t') :
    t.atom = t'.atom := by
  by_cases hk : t.kind = .eof
  · simp only [Token.atom, ← h.kind_eq, hk]
  · simp only [Token.atom, h.kind_eq, h.value_eq hk]

/-- **The second reply follows the first one**: it is the same up to positions, or the first one ran
    out of depth. Values are compared by `same`. -/
inductive Reply.Follows (c : Coupling) {α : Type} (same : α → α → Prop) :
    Reply α → Reply α → Prop where
  | ok {v v' s s'} (hv : same v v') (hs : c.streams s s') : Follows c same (.ok v s) (.ok v' s')
  | error {problem p p' s s'} (hp : c.positions p p') (hs : c.streams s s') :
      Follows c same (.error ⟨problem, p⟩ s) (.error ⟨problem, p'⟩ s')
  | halt (cause) : Follows c same (.halt cause) (.halt cause)
  | outOfFuel (r) : Follows c same (.halt .outOfFuel) r

/-- The reading has gone past the tokens that the streams are coupled on. -/
inductive Reply.Past (c : Coupling) {α : Type} : Reply α → Prop where
  | ok {v s} (hs : c.past s) : Past c (.ok v s)
  | error {d s} (hs : c.past s) : Past c (.error d s)
  | halt {cause s} (hs : c.past s) : Past c (.halt cause)

theorem Reply.Past.exists_past {c : Coupling} {α : Type} {r : Reply α} (h : r.Past c) :
    ∃ s, c.past s := by
  cases h with
  | ok hs | error hs | halt hs => exact ⟨_, hs⟩

/-- The second reader follows the first one on coupled streams, unless the first one goes past the
    tokens that they are coupled on; and once it is past them it does not come back. -/
structure Parse.Follows (c : Coupling) {α : Type} (same : α → α → Prop) (p p' : Parse α) : Prop where
  reply : ∀ {s s'}, c.streams s s' → Reply.Follows c same (p s) (p' s') ∨ (p s).Past c
  past : ∀ {s}, c.past s → (p s).Past c

namespace Parse

variable {α β : Type} {c : Coupling} {same : α → α → Prop} {same' : β → β → Prop}

/-- Where streams are coupled all along, the second reply does follow. -/
theorem Follows.reply_of_never {p p' : Parse α} (h : Follows c same p p') (hpast : ∀ s, ¬c.past s)
    {s s' : TokenStream} (hs : c.streams s s') : Reply.Follows c same (p s) (p' s') := by
  rcases h.reply hs with hreply | hover
  · exact hreply
  · obtain ⟨s₁, hs₁⟩ := hover.exists_past
    exact absurd hs₁ (hpast s₁)

/-! ## Single steps -/

theorem Follows.pure {a a' : α} (h : same a a') :
    Follows c same (Pure.pure a : Parse α) (Pure.pure a') :=
  ⟨fun hs => .inl (.ok h hs), .ok⟩

/-- A sequence goes past the coupled tokens if its first half does. -/
theorem past_bind {p : Parse α} {f : α → Parse β} {s : TokenStream} (hp : (p s).Past c)
    (hf : ∀ a {s₁}, c.past s₁ → (f a s₁).Past c) : ((p >>= f) s).Past c := by
  rw [bind_apply]
  generalize p s = r at hp
  cases hp with
  | ok hs => exact hf _ hs
  | error hs => exact .error hs
  | halt hs => exact .halt hs

theorem Follows.bind {p p' : Parse α} {f f' : α → Parse β} (hp : Follows c same p p')
    (htotal : ∀ a, ∃ a', same a a') (hf : ∀ a a', same a a' → Follows c same' (f a) (f' a')) :
    Follows c same' (p >>= f) (p' >>= f') := by
  have hpast : ∀ a {s₁}, c.past s₁ → (f a s₁).Past c := by
    intro a s₁ hs₁
    obtain ⟨a', ha⟩ := htotal a
    exact (hf a a' ha).past hs₁
  constructor
  · intro s s' hs
    rcases hp.reply hs with hreply | hover
    · rw [bind_apply, bind_apply]
      -- what comes next runs only if the first step of both readings ends with a value
      generalize p s = r, p' s' = r' at hreply
      cases hreply with
      | ok hv hs' => exact (hf _ _ hv).reply hs'
      | error hpos hs' => exact .inl (.error hpos hs')
      | halt cause => exact .inl (.halt cause)
      | outOfFuel r => exact .inl (.outOfFuel _)
    · exact .inr (past_bind hover hpast)
  · exact fun hs => past_bind (hp.past hs) hpast

/-- Where values are compared by equality, what comes next is given one value. -/
theorem Follows.bind_eq {p p' : Parse α} {f f' : α → Parse β} (hp : Follows c Eq p p')
    (hf : ∀ a, Follows c same' (f a) (f' a)) : Follows c same' (p >>= f) (p' >>= f') := by
  refine hp.bind (fun a => ⟨a, rfl⟩) ?_
  rintro a _ rfl
  exact hf a

theorem follows_kind : Follows c Eq kind kind :=
  ⟨fun hs => .inl (.ok (c.kind_eq hs) hs), .ok⟩

theorem follows_current_bind {f f' : Token → Parse β}
    (hf : ∀ t t', c.Tokens t t' → Follows c same' (f t) (f' t')) :
    Follows c same' (current >>= f) (current >>= f') := by
  have hcurrent : Follows c c.Tokens current current := ⟨fun hs => .inl (.ok (c.peek hs) hs), .ok⟩
  exact hcurrent.bind c.exists_token hf

theorem follows_advance : Follows c c.Tokens advance advance := by
  refine ⟨fun hs => ?_, fun hs => .ok (c.past_advance hs)⟩
  rcases c.advance hs with hs' | hover
  · exact .inl (.ok (c.peek hs) hs')
  · exact .inr (.ok hover)

theorem follows_advance_bind {f f' : Token → Parse β}
    (hf : ∀ t t', c.Tokens t t' → Follows c same' (f t) (f' t')) :
    Follows c same' (advance >>= f) (advance >>= f') :=
  follows_advance.bind c.exists_token hf

theorem follows_rejectAt (problem : Problem) {p p' : Position} (h : c.positions p p') :
    Follows c same (rejectAt problem p) (rejectAt problem p') :=
  ⟨fun hs => .inl (.error h hs), .error⟩

theorem follows_halt (cause : Halt) : Follows c same (Parse.halt cause) (Parse.halt cause) :=
  ⟨fun _ => .inl (.halt cause), .halt⟩

/-- The message of a malformed token wins in both readings or in neither. -/
theorem follows_reject (problem : Problem) : Follows c same (reject problem) (reject problem) := by
  refine ⟨fun {s s'} hs => .inl ?_, .error⟩
  simp only [reject_apply, TokenStream.diagnose, Token.is, ← c.kind_eq hs]
  by_cases hk : s.peek.kind = .error
  · simp only [hk, decide_true, if_true, ← c.value_eq hs (by simp [hk])]
    exact .error (c.position hs) hs
  · simp only [hk, decide_false, Bool.false_eq_true, if_false]
    exact .error (c.position hs) hs

/-- Two tokens of an expected kind, which is not the end of the input, have the same value. -/
theorem follows_expect_bind {k : Kind} {what : String} (hk : k ≠ .eof) {f f' : Token → Parse β}
    (hf : ∀ t t', t.value = t'.value → Follows c same' (f t) (f' t')) :
    Follows c same' (expect k what >>= f) (expect k what >>= f') := by
  have hexpect : Follows c (fun t t' => t.value = t'.value) (expect k what) (expect k what) := by
    constructor
    · intro s s' hs
      simp only [expect, expectOr, Token.is, ← c.kind_eq hs]
      by_cases hpeek : s.peek.kind = k
      · simp only [hpeek, decide_true, if_true]
        rcases c.advance hs with hs' | hover
        · exact .inl (.ok (c.value_eq hs (hpeek ▸ hk)) hs')
        · exact .inr (.ok hover)
      · simp only [hpeek, decide_false, Bool.false_eq_true, if_false]
        exact (follows_reject _).reply hs
    · intro s hs
      rw [expect_apply]
      split
      · exact .ok (c.past_advance hs)
      · exact .error hs
  exact hexpect.bind (fun t => ⟨t, rfl⟩) hf

end Parse

/-! ## The rules -/

/-- A reader of phrases that follows another one, phrase by phrase. -/
def Coupling.Reads (c : Coupling) (read read' : {α : Type} → Phrase α → Parse α) : Prop :=
  ∀ {α : Type} (phrase : Phrase α), Parse.Follows c Eq (read phrase) (read' phrase)

namespace Rule

open Parse

variable {c : Coupling} {t : Table} {read read' : {α : Type} → Phrase α → Parse α}

theorem typeName_follows : Follows c Eq typeName typeName := by
  apply follows_expect_bind (by decide)
  intro t t' ht
  exact .pure (by rw [ht])

theorem pattern_follows : Follows c Eq pattern pattern := by
  apply follows_expect_bind (by decide)
  intro t t' ht
  exact .pure (by rw [ht])

theorem atom_follows : Follows c Eq atom atom := by
  apply follows_current_bind
  intro t t' ht
  rw [ht.atom_eq]
  cases t'.atom with
  | ok e => exact follows_advance_bind fun _ _ _ => .pure rfl
  | error problem => exact follows_reject problem

theorem combine_follows {assignable : Bool} {operator operator' : Token} {left right : Expr}
    (h : c.Tokens operator operator') :
    Follows c Eq (combine t assignable operator left right)
      (combine t assignable operator' left right) := by
  unfold combine
  rw [h.kind_eq]
  cases t.assignOperator operator'.kind with
  | some o =>
      cases assignable with
      | true => exact .pure rfl
      | false =>
          -- the one diagnostic that stands elsewhere than at the current token
          exact follows_rejectAt _ h.position
  | none =>
      cases t.binaryOperator operator'.kind with
      | some o => exact .pure rfl
      | none => exact follows_halt _

theorem operators_follows (hread : c.Reads read read') {least : Nat} {assignable : Bool}
    {left : Expr} :
    Follows c Eq (operators t read least assignable left)
      (operators t read' least assignable left) := by
  apply follows_current_bind
  intro token token' htoken
  rw [htoken.kind_eq]
  cases t.postfixForm token'.kind with
  | some entry =>
      obtain ⟨power, form⟩ := entry
      by_cases hlt : power < least
      · simp only [if_pos hlt]
        exact .pure rfl
      · simp only [if_neg hlt]
        exact (hread _).bind_eq fun _ => hread _
  | none =>
      cases t.infixPowers token'.kind with
      | none => exact .pure rfl
      | some powers =>
          by_cases hlt : powers.left < least
          · simp only [if_pos hlt]
            exact .pure rfl
          · simp only [if_neg hlt]
            refine follows_advance_bind fun _ _ _ => ?_
            apply (hread _).bind_eq
            intro right
            exact (combine_follows htoken).bind_eq fun _ => hread _

theorem operand_follows (hread : c.Reads read read') :
    Follows c Eq (operand t read) (operand t read') := by
  apply follows_kind.bind_eq
  intro k
  cases t.prefixOperator k with
  | some entry =>
      refine follows_advance_bind fun _ _ _ => ?_
      exact (hread _).bind_eq fun _ => .pure rfl
  | none => exact hread _

theorem operandForm_follows (hread : c.Reads read read') (form : OperandForm) :
    Follows c Eq (operandForm read form) (operandForm read' form) := by
  cases form with
  | grouping =>
      refine follows_advance_bind fun _ _ _ => ?_
      refine (hread _).bind_eq fun _ => ?_
      exact follows_expect_bind (by decide) fun _ _ _ => .pure rfl
  | ifElse =>
      refine follows_advance_bind fun _ _ _ => ?_
      refine (hread _).bind_eq fun _ => ?_
      refine (hread _).bind_eq fun _ => ?_
      apply follows_kind.bind_eq
      intro k
      by_cases hk : k = .kwElse
      · simp only [if_pos hk]
        refine follows_advance_bind fun _ _ _ => ?_
        exact (hread _).bind_eq fun _ => .pure rfl
      · simp only [if_neg hk]
        exact .pure rfl
  | whileLoop =>
      refine follows_advance_bind fun _ _ _ => ?_
      refine (hread _).bind_eq fun _ => ?_
      exact (hread _).bind_eq fun _ => .pure rfl
  | forLoop =>
      refine follows_advance_bind fun _ _ _ => ?_
      refine pattern_follows.bind_eq fun _ => ?_
      refine follows_expect_bind (by decide) fun _ _ _ => ?_
      refine (hread _).bind_eq fun _ => ?_
      exact (hread _).bind_eq fun _ => .pure rfl
  | block =>
      refine follows_expect_bind (by decide) fun _ _ _ => ?_
      refine (hread _).bind_eq fun _ => ?_
      exact follows_expect_bind (by decide) fun _ _ _ => .pure rfl
  | atom => exact atom_follows

theorem postfixForm_follows (hread : c.Reads read read') (form : PostfixForm) (subject : Expr) :
    Follows c Eq (postfixForm read form subject) (postfixForm read' form subject) := by
  cases form with
  | member =>
      refine follows_advance_bind fun _ _ _ => ?_
      apply follows_expect_bind (by decide)
      intro t t' ht
      exact .pure (by rw [ht])
  | index =>
      refine follows_advance_bind fun _ _ _ => ?_
      refine (hread _).bind_eq fun _ => ?_
      exact follows_expect_bind (by decide) fun _ _ _ => .pure rfl
  | call =>
      refine follows_advance_bind fun _ _ _ => ?_
      refine (hread _).bind_eq fun _ => ?_
      exact follows_expect_bind (by decide) fun _ _ _ => .pure rfl

/-- A list with commas in between is read alike whatever its elements are. -/
theorem separated_follows {α : Type} {first first' : Parse α} {more more' : Parse (List α)}
    (hfirst : Follows c Eq first first') (hmore : Follows c Eq more more') :
    Follows c Eq
      (do
        if (← kind) = .closeParen then return []
        let a ← first
        if (← kind) = .comma then
          let _ ← advance
          let rest ← more
          return a :: rest
        else
          return [a])
      (do
        if (← kind) = .closeParen then return []
        let a ← first'
        if (← kind) = .comma then
          let _ ← advance
          let rest ← more'
          return a :: rest
        else
          return [a]) := by
  apply follows_kind.bind_eq
  intro k
  by_cases hk : k = .closeParen
  · simp only [if_pos hk]
    exact .pure rfl
  · simp only [if_neg hk]
    refine hfirst.bind_eq fun _ => ?_
    apply follows_kind.bind_eq
    intro k'
    by_cases hk' : k' = .comma
    · simp only [if_pos hk']
      refine follows_advance_bind fun _ _ _ => ?_
      exact hmore.bind_eq fun _ => .pure rfl
    · simp only [if_neg hk']
      exact .pure rfl

theorem body_follows (hread : c.Reads read read') : Follows c Eq (body t read) (body t read') := by
  apply follows_kind.bind_eq
  intro k
  by_cases hk : k = .closeCurly ∨ k = .eof
  · simp only [if_pos hk]
    exact .pure rfl
  · simp only [if_neg hk]
    cases t.statementForm k with
    | some form =>
        refine (hread _).bind_eq fun _ => ?_
        exact (hread _).bind_eq fun _ => .pure rfl
    | none =>
        refine (hread _).bind_eq fun _ => ?_
        apply follows_kind.bind_eq
        intro k'
        split
        · refine follows_advance_bind fun _ _ _ => ?_
          exact (hread _).bind_eq fun _ => .pure rfl
        · exact .pure rfl
        · exact follows_reject _

theorem statement_follows (hread : c.Reads read read') :
    Follows c Eq (Rule.statement t read) (Rule.statement t read') := by
  apply follows_kind.bind_eq
  intro k
  cases t.statementForm k with
  | some form => exact hread _
  | none =>
      refine (hread _).bind_eq fun _ => ?_
      exact follows_expect_bind (by decide) fun _ _ _ => .pure rfl

theorem jumpValue_follows (hread : c.Reads read read') :
    Follows c Eq (jumpValue read) (jumpValue read') := by
  refine follows_advance_bind fun _ _ _ => ?_
  apply follows_kind.bind_eq
  intro k
  by_cases hk : k = .semicolon ∨ k = .closeCurly
  · simp only [if_pos hk]
    exact follows_expect_bind (by decide) fun _ _ _ => .pure rfl
  · simp only [if_neg hk]
    refine (hread _).bind_eq fun _ => ?_
    exact follows_expect_bind (by decide) fun _ _ _ => .pure rfl

theorem function_follows (hread : c.Reads read read') :
    Follows c Eq (function read) (function read') := by
  refine follows_advance_bind fun _ _ _ => ?_
  apply follows_expect_bind (by decide)
  intro name name' hname
  refine follows_expect_bind (by decide) fun _ _ _ => ?_
  refine (hread _).bind_eq fun _ => ?_
  refine follows_expect_bind (by decide) fun _ _ _ => ?_
  apply follows_kind.bind_eq
  intro k
  by_cases hk : k = .arrow
  · simp only [if_pos hk]
    refine follows_advance_bind fun _ _ _ => ?_
    refine typeName_follows.bind_eq fun _ => ?_
    exact (hread _).bind_eq fun _ => .pure (by rw [hname])
  · simp only [if_neg hk]
    exact (hread _).bind_eq fun _ => .pure (by rw [hname])

theorem statementForm_follows (hread : c.Reads read read') (form : StatementForm) :
    Follows c Eq (statementForm read form) (statementForm read' form) := by
  cases form with
  | classDef => exact follows_reject _
  | function => exact function_follows hread
  | letIn =>
      refine follows_advance_bind fun _ _ _ => ?_
      refine (hread _).bind_eq fun _ => ?_
      exact follows_expect_bind (by decide) fun _ _ _ => .pure rfl
  | returning => exact (jumpValue_follows hread).bind_eq fun _ => .pure rfl
  | breaking => exact (jumpValue_follows hread).bind_eq fun _ => .pure rfl
  | continuing => exact (jumpValue_follows hread).bind_eq fun _ => .pure rfl
  | any => exact hread _

theorem defaultValue_follows (hread : c.Reads read read') :
    Follows c Eq (defaultValue read) (defaultValue read') := by
  apply follows_kind.bind_eq
  intro k
  by_cases hk : k = .assignment
  · simp only [if_pos hk]
    refine follows_advance_bind fun _ _ _ => ?_
    exact (hread _).bind_eq fun _ => .pure rfl
  · simp only [if_neg hk]
    exact .pure rfl

theorem parameter_follows (hread : c.Reads read read') :
    Follows c Eq (parameter read) (parameter read') := by
  refine pattern_follows.bind_eq fun _ => ?_
  apply follows_kind.bind_eq
  intro k
  by_cases hk : k = .colon
  · simp only [if_pos hk]
    refine follows_advance_bind fun _ _ _ => ?_
    refine typeName_follows.bind_eq fun _ => ?_
    exact (defaultValue_follows hread).bind_eq fun _ => .pure rfl
  · simp only [if_neg hk]
    exact (defaultValue_follows hread).bind_eq fun _ => .pure rfl

theorem program_follows (hread : c.Reads read read') :
    Follows c Eq (program read) (program read') := by
  apply follows_kind.bind_eq
  intro k
  by_cases hk : k = .eof
  · simp only [if_pos hk]
    exact .pure rfl
  · simp only [if_neg hk]
    refine (hread _).bind_eq fun _ => ?_
    exact (hread _).bind_eq fun _ => .pure rfl

end Rule

namespace Table

open Rule

variable {t : Table} {c : Coupling} {read read' : {α : Type} → Phrase α → Parse α}

/-- **One rule runs in lockstep** when the phrases inside it do. -/
theorem rule_follows (hread : c.Reads read read') : c.Reads (t.rule read) (t.rule read') := by
  intro α phrase
  cases phrase with
  | expr least assignable => exact (hread _).bind_eq fun _ => hread _
  | operators least assignable left => exact operators_follows hread
  | operand => exact operand_follows hread
  | operandForm form => exact operandForm_follows hread form
  | postfixForm form subject => exact postfixForm_follows hread form subject
  | arguments => exact separated_follows (hread _) (hread _)
  | body => exact body_follows hread
  | statement => exact statement_follows hread
  | statementForm form => exact statementForm_follows hread form
  | parameter => exact parameter_follows hread
  | parameters => exact separated_follows (hread _) (hread _)
  | program => exact program_follows hread

/-- **Whole derivations run in lockstep**, the second one at least as deep as the first. -/
theorem derive_follows (t : Table) (c : Coupling) {depth depth' : Nat} (hle : depth ≤ depth') :
    c.Reads (t.derive depth) (t.derive depth') := by
  induction depth generalizing depth' with
  | zero =>
      -- a derivation of depth zero is followed by whatever there is
      exact fun _ => ⟨fun _ => .inl (.outOfFuel _), .halt⟩
  | succ depth ih =>
      obtain ⟨depth', rfl⟩ := Nat.exists_eq_add_of_lt hle
      exact rule_follows (ih (Nat.le_add_right depth depth'))

end Table

/-! ## Deeper derivations -/

/-- Every stream is coupled with itself. -/
def Coupling.same : Coupling where
  streams := Eq
  positions := Eq
  past _ := False
  kind_eq := by rintro s _ rfl; rfl
  value_eq := by rintro s _ rfl _; rfl
  position := by rintro s _ rfl; rfl
  advance := by rintro s _ rfl; exact .inl rfl
  past_advance := id
  exists_position p := ⟨p, rfl⟩

/-- A reply that follows another one on the same stream is equal to it, unless the other one ran
    out of depth. -/
theorem Reply.Follows.eq_of_same {α : Type} {r r' : Reply α} (h : Follows .same Eq r r')
    (hfuel : r ≠ .halt .outOfFuel) : r' = r := by
  cases h with
  | ok hv hs => rw [hv, show _ = _ from hs]
  | error hp hs => rw [show _ = _ from hp, show _ = _ from hs]
  | halt cause => rfl
  | outOfFuel r => exact absurd rfl hfuel

/-- **A deeper derivation gives the same answer**, unless the shallower one gave none. -/
theorem Table.derive_mono (t : Table) {depth depth' : Nat} (hle : depth ≤ depth') {α : Type}
    (phrase : Phrase α) (s : TokenStream) (h : t.derive depth phrase s ≠ .halt .outOfFuel) :
    t.derive depth' phrase s = t.derive depth phrase s := by
  have hfollows : Parse.Follows .same Eq (t.derive depth phrase) (t.derive depth' phrase) :=
    t.derive_follows .same hle phrase
  exact (hfollows.reply_of_never (fun _ => id) rfl).eq_of_same h

end ExprLang
