import ExprLang.Proofs.Reading.Stream
import ExprLang.Proofs.Reading.Success

/-!
# `Proofs.Reading.Progress` — successful readings take tokens

A phrase that cannot be empty takes at least one token whenever it is read with success, and no
phrase puts any back. This holds for every table: also one that gives meaning to the end of the
input, which can be passed over without a token being taken, since some token is taken after it.

## Contents
- `Phrase.minimum`: the fewest tokens that a phrase is made of.
- `Table.rule_takes`: one rule, when the phrases inside it take what they must.
- `Table.derive_takes`: a whole derivation.
-/

namespace ExprLang

/-- The fewest tokens that a phrase takes: none for the rest of something and for lists, and one
    for all others. -/
def Phrase.minimum : {α : Type} → Phrase α → Nat
  | _, .operators _ _ _ | _, .arguments | _, .body | _, .parameters | _, .program => 0
  | _, _ => 1

/-- Every phrase takes its minimum of tokens off the stream when it is read with success. -/
def Takes (read : {α : Type} → Phrase α → Parse α) : Prop :=
  ∀ {α : Type} (phrase : Phrase α) {s s' : TokenStream} {v : α},
    read phrase s = .ok v s' → s'.remaining + phrase.minimum ≤ s.remaining

namespace Rule

open Parse

variable {t : Table} {read : {α : Type} → Phrase α → Parse α} {s s' : TokenStream}

/-- A single token is taken by a type, a pattern or an atom. -/
theorem atom_takes {e : Expr} (h : atom s = .ok e s') : s'.remaining + 1 ≤ s.remaining := by
  obtain ⟨ha, rfl⟩ := atom_eq_ok.mp h
  -- the end of the input is no atom, whatever the table says
  apply TokenStream.remaining_advance_lt_of_kind
  intro hk
  simp [Token.atom, hk] at ha

theorem typeName_takes {type : TypeName} (h : typeName s = .ok type s') :
    s'.remaining + 1 ≤ s.remaining := by
  obtain ⟨hk, -, rfl⟩ := typeName_eq_ok.mp h
  exact TokenStream.remaining_advance_lt_of_kind (by simp [hk])

theorem pattern_takes {subject : Pattern} (h : pattern s = .ok subject s') :
    s'.remaining + 1 ≤ s.remaining := by
  obtain ⟨hk, -, rfl⟩ := pattern_eq_ok.mp h
  exact TokenStream.remaining_advance_lt_of_kind (by simp [hk])

theorem operandForm_takes (hread : Takes read) {form : OperandForm} {e : Expr}
    (h : operandForm read form s = .ok e s') : s'.remaining + 1 ≤ s.remaining := by
  have hadvance := s.remaining_advance_le
  cases form with
  | grouping =>
      obtain ⟨_, s₁, h₁, -, -, rfl⟩ := grouping_eq_ok.mp h
      have htaken := hread _ h₁
      have hle := s₁.remaining_advance_le
      simp only [Phrase.minimum] at htaken
      omega
  | ifElse =>
      obtain ⟨_, s₁, _, s₂, h₁, h₂, hfalsy⟩ := ifElse_eq_ok.mp h
      have htaken := hread _ h₁
      have hblock := hread _ h₂
      have hle := s₂.remaining_advance_le
      simp only [Phrase.minimum] at htaken hblock
      rcases hfalsy with ⟨-, _, h₃, -⟩ | ⟨-, -, rfl⟩
      · have hblock' := hread _ h₃
        omega
      · omega
  | whileLoop =>
      obtain ⟨_, s₁, _, h₁, h₂, -⟩ := whileLoop_eq_ok.mp h
      have htaken := hread _ h₁
      have hblock := hread _ h₂
      simp only [Phrase.minimum] at htaken
      omega
  | forLoop =>
      obtain ⟨_, s₁, _, s₂, _, h₁, -, h₂, h₃, -⟩ := forLoop_eq_ok.mp h
      have htaken := pattern_takes h₁
      have hexpr := hread _ h₂
      have hblock := hread _ h₃
      have hle := s₁.remaining_advance_le
      omega
  | block =>
      -- a body can be empty, so the brace that opens the block is the token that counts
      obtain ⟨hk, _, _, s₁, h₁, -, -, rfl⟩ := block_eq_ok.mp h
      have htaken := TokenStream.remaining_advance_lt_of_kind (s := s) (by simp [hk])
      have hbody := hread _ h₁
      have hle := s₁.remaining_advance_le
      omega
  | atom => exact atom_takes h

theorem postfixForm_takes (hread : Takes read) {form : PostfixForm} {subject e : Expr}
    (h : postfixForm read form subject s = .ok e s') : s'.remaining + 1 ≤ s.remaining := by
  have hadvance := s.remaining_advance_le
  cases form with
  | member =>
      -- the name counts: the token in front of it may be the end of the input
      obtain ⟨hk, -, rfl⟩ := member_eq_ok.mp h
      have htaken := TokenStream.remaining_advance_lt_of_kind (s := s.advance) (by simp [hk])
      omega
  | index =>
      obtain ⟨_, s₁, h₁, hk, -, rfl⟩ := index_eq_ok.mp h
      have hexpr := hread _ h₁
      have htaken := TokenStream.remaining_advance_lt_of_kind (s := s₁) (by simp [hk])
      omega
  | call =>
      obtain ⟨_, s₁, h₁, hk, -, rfl⟩ := call_eq_ok.mp h
      have harguments := hread _ h₁
      have htaken := TokenStream.remaining_advance_lt_of_kind (s := s₁) (by simp [hk])
      omega

theorem jumpValue_takes (hread : Takes read) {value : Option Expr}
    (h : jumpValue read s = .ok value s') : s'.remaining + 1 ≤ s.remaining := by
  have hadvance := s.remaining_advance_le
  rcases jumpValue_eq_ok.mp h with ⟨hk, -, rfl⟩ | ⟨-, -, _, s₁, h₁, hk, -, rfl⟩
  · have htaken := TokenStream.remaining_advance_lt_of_kind (s := s.advance) (by simp [hk])
    omega
  · have hexpr := hread _ h₁
    have htaken := TokenStream.remaining_advance_lt_of_kind (s := s₁) (by simp [hk])
    omega

theorem statementForm_takes (hread : Takes read) {form : StatementForm} {statement : Statement}
    (h : statementForm read form s = .ok statement s') : s'.remaining + 1 ≤ s.remaining := by
  have hadvance := s.remaining_advance_le
  -- all three jumps are read by the rule of their value
  have hjump : ∀ {f : Option Expr → Statement},
      (jumpValue read >>= fun value => pure (f value)) s = .ok statement s' →
        s'.remaining + 1 ≤ s.remaining := by
    intro f hf
    obtain ⟨_, s₁, h₁, hpure⟩ := bind_eq_ok.mp hf
    cases hpure
    exact jumpValue_takes hread h₁
  cases form with
  | classDef => simp [statementForm] at h
  | function =>
      obtain ⟨-, hk, _, s₁, h₁, -, hbody⟩ := function_eq_ok.mp h
      have hname := s.advance.remaining_advance_le
      have htaken :=
        TokenStream.remaining_advance_lt_of_kind (s := s.advance.advance) (by simp [hk])
      have hparameters := hread _ h₁
      have hclose := s₁.remaining_advance_le
      rcases hbody with ⟨-, _, s₂, _, hresult, h₂, -⟩ | ⟨-, _, h₂, -⟩
      · have harrow := s₁.advance.remaining_advance_le
        have htype := typeName_takes hresult
        have hblock := hread _ h₂
        omega
      · have hblock := hread _ h₂
        omega
  | letIn =>
      obtain ⟨_, s₁, h₁, -, -, rfl⟩ := letIn_eq_ok.mp h
      have hparameter := hread _ h₁
      have hle := s₁.remaining_advance_le
      simp only [Phrase.minimum] at hparameter
      omega
  | returning => exact hjump h
  | breaking => exact hjump h
  | continuing => exact hjump h
  | any => exact hread _ h

theorem defaultValue_takes (hread : Takes read) {value : Option Expr}
    (h : defaultValue read s = .ok value s') : s'.remaining ≤ s.remaining := by
  rcases defaultValue_eq_ok.mp h with ⟨-, _, h₁, -⟩ | ⟨-, -, rfl⟩
  · have hexpr := hread _ h₁
    have hadvance := s.remaining_advance_le
    omega
  · exact Nat.le_refl _

theorem parameter_takes (hread : Takes read) {p : Parameter}
    (h : parameter read s = .ok p s') : s'.remaining + 1 ≤ s.remaining := by
  obtain ⟨_, s₁, h₁, hrest⟩ := parameter_eq_ok.mp h
  have htaken := pattern_takes h₁
  rcases hrest with ⟨-, _, s₂, _, htype, hvalue, -⟩ | ⟨-, _, hvalue, -⟩
  · have hcolon := s₁.remaining_advance_le
    have hname := typeName_takes htype
    have hdefault := defaultValue_takes hread hvalue
    omega
  · have hdefault := defaultValue_takes hread hvalue
    omega

theorem operators_takes (hread : Takes read) {least : Nat} {assignable : Bool} {left e : Expr}
    (h : operators t read least assignable left s = .ok e s') : s'.remaining ≤ s.remaining := by
  rcases operators_eq_ok.mp h with
    ⟨-, -, rfl⟩ | ⟨_, _, _, s₁, -, -, h₁, h₂⟩ | ⟨_, _, _, s₁, -, -, -, h₁, -, h₂⟩
  · exact Nat.le_refl _
  · have hform := hread _ h₁
    have hoperators := hread _ h₂
    simp only [Phrase.minimum] at hoperators
    omega
  · have hadvance := s.remaining_advance_le
    have hright := hread _ h₁
    have hoperators := hread _ h₂
    simp only [Phrase.minimum] at hoperators
    omega

/-- An element, and what comes behind its separator if it has one, put no token back. -/
theorem separated_takes (hread : Takes read) {α β : Type} {element : Phrase α} {list : Phrase β}
    {first : α} {s₁ : TokenStream} (h₁ : read element s = .ok first s₁)
    (hmore : (∃ more, read list s₁.advance = .ok more s') ∨ s₁ = s') :
    s'.remaining ≤ s.remaining := by
  have hfirst := hread _ h₁
  have hle := s₁.remaining_advance_le
  rcases hmore with ⟨more, h₂⟩ | rfl
  · have hrest := hread _ h₂
    omega
  · omega

theorem body_takes (hread : Takes read) {inside : List Statement × Option Expr}
    (h : body t read s = .ok inside s') : s'.remaining ≤ s.remaining := by
  obtain ⟨ss, result⟩ := inside
  rcases body_eq_ok.mp h with ⟨-, -, -, rfl⟩ | ⟨-, -, ⟨_, _, s₁, _, -, h₁, h₂, -⟩ |
    ⟨-, _, s₁, h₁, hmore⟩⟩
  · exact Nat.le_refl _
  · have hfirst := hread _ h₁
    have hrest := hread _ h₂
    omega
  · apply separated_takes hread h₁
    rcases hmore with ⟨-, more, h₂, -⟩ | ⟨-, -, -, hend⟩
    · exact Or.inl ⟨_, h₂⟩
    · exact Or.inr hend

end Rule

namespace Table

open Rule

variable {t : Table} {read : {α : Type} → Phrase α → Parse α}

/-- **One rule takes what it must** when the phrases inside it do. -/
theorem rule_takes (hread : Takes read) : Takes (t.rule read) := by
  intro α phrase s s' v h
  cases phrase with
  | expr least assignable =>
      obtain ⟨_, s₁, h₁, h₂⟩ := expr_eq_ok.mp h
      have hoperand := hread _ h₁
      have hoperators := hread _ h₂
      simp only [Phrase.minimum] at hoperand hoperators ⊢
      omega
  | operators least assignable left => exact operators_takes hread h
  | operand =>
      rcases operand_eq_ok.mp h with ⟨_, _, _, -, h₁, -⟩ | ⟨-, h₁⟩
      · have hadvance := s.remaining_advance_le
        have hsubject := hread _ h₁
        simp only [Phrase.minimum] at hsubject ⊢
        omega
      · have hform := hread _ h₁
        exact hform
  | operandForm form => exact operandForm_takes hread h
  | postfixForm form subject => exact postfixForm_takes hread h
  | arguments =>
      rcases arguments_eq_ok.mp h with ⟨-, -, rfl⟩ | ⟨-, _, s₁, h₁, hmore⟩
      · exact Nat.le_refl _
      · apply separated_takes hread h₁
        rcases hmore with ⟨-, more, h₂, -⟩ | ⟨-, -, hend⟩
        · exact Or.inl ⟨more, h₂⟩
        · exact Or.inr hend
  | body => exact body_takes hread h
  | statement =>
      rcases statement_eq_ok.mp h with ⟨_, -, h₁⟩ | ⟨-, _, s₁, h₁, -, -, rfl⟩
      · have hform := hread _ h₁
        exact hform
      · have hexpr := hread _ h₁
        have hle := s₁.remaining_advance_le
        simp only [Phrase.minimum] at hexpr ⊢
        omega
  | statementForm form => exact statementForm_takes hread h
  | parameter => exact parameter_takes hread h
  | parameters =>
      rcases parameters_eq_ok.mp h with ⟨-, -, rfl⟩ | ⟨-, _, s₁, h₁, hmore⟩
      · exact Nat.le_refl _
      · apply separated_takes hread h₁
        rcases hmore with ⟨-, more, h₂, -⟩ | ⟨-, -, hend⟩
        · exact Or.inl ⟨more, h₂⟩
        · exact Or.inr hend
  | program =>
      rcases program_eq_ok.mp h with ⟨-, -, rfl⟩ | ⟨-, _, s₁, _, h₁, h₂, -⟩
      · exact Nat.le_refl _
      · have hfirst := hread _ h₁
        have hrest := hread _ h₂
        omega

/-- **A whole derivation takes what it must**, by induction on its depth. -/
theorem derive_takes (t : Table) (depth : Nat) : Takes (t.derive depth) := by
  induction depth with
  | zero =>
      intro α phrase s s' v h
      cases (show Reply.halt .outOfFuel = .ok v s' from h)
  | succ depth ih => exact rule_takes ih

end Table
end ExprLang
