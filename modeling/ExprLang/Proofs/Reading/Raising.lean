import ExprLang.Proofs.Reading.Coupling
import ExprLang.Proofs.Reading.Stream

/-!
# `Proofs.Reading.Raising` — what a higher power leaves out

The power that an expression is read at is asked for in one place: where the operator loop decides
whether the next token goes on with what was read. No operand depends on it, on either side of an
operator. So the loop at a higher power takes the same steps as the loop at a lower one and only
stops earlier, and the lower one can go on from there: **reading at a power is reading at a higher
one and then going on**.

This is an equation between replies, and it holds of failures as well: what is wrong at a lower power
is wrong at the higher one, or it stands behind all that the higher one takes. The depth is the same
on both sides, so all that is asked for is that it was enough for the reading at the lower power.

## Contents
- `Table.Resumes`, `Table.derive_resumes`: the operator loop at two powers.
- `Table.derive_expr_raised`: whole expressions.
- `Expr.leftPart?`, `Expr.Starts`: what an expression goes on with, and what it started with.
- `Table.derive_operators_starts`: the operator loop only builds on what it is given.
- `Table.derive_leaves`: what a reading leaves stands behind what it takes.
- `raising_shortens`: the two readings of a stream.
-/

namespace ExprLang

/-! ## The operator loop at two powers -/

namespace Table

open Parse

variable {t : Table} {depth least raised : Nat} {assignable : Bool}

/-- The operator loop at the power `raised`, and after it the one at `least`, read what the one at
    `least` reads, wherever the depth is enough for that. -/
def Resumes (t : Table) (depth least raised : Nat) (assignable : Bool) : Prop :=
  ∀ (left : Expr) (s : TokenStream),
    t.derive depth (.operators least assignable left) s ≠ .halt .outOfFuel →
      (t.derive depth (.operators raised assignable left) >>= fun e =>
        t.derive depth (.operators least assignable e)) s =
      t.derive depth (.operators least assignable left) s

/-- **Both readings start alike.** Where two phrases begin with the same reading `p` and then run the
    loop, one at each power, the lower loop can go on behind the phrase with the higher one. -/
theorem Resumes.step (hloop : t.Resumes depth least raised assignable) {p : Parse Expr}
    {lower higher : Phrase Expr} {s s₀ : TokenStream}
    (hlower : t.derive (depth + 1) lower s =
      (p >>= fun e => t.derive depth (.operators least assignable e)) s₀)
    (hhigher : t.derive (depth + 1) higher s =
      (p >>= fun e => t.derive depth (.operators raised assignable e)) s₀)
    (h : t.derive (depth + 1) lower s ≠ .halt .outOfFuel) :
    (t.derive (depth + 1) higher >>= fun e =>
      t.derive (depth + 1) (.operators least assignable e)) s = t.derive (depth + 1) lower s := by
  calc (t.derive (depth + 1) higher >>= fun e =>
        t.derive (depth + 1) (.operators least assignable e)) s
    _ = ((p >>= fun e => t.derive depth (.operators raised assignable e)) >>= fun e =>
          t.derive (depth + 1) (.operators least assignable e)) s₀ := by
        rw [bind_apply, hhigher]
        rfl
    _ = (p >>= fun e => t.derive depth (.operators raised assignable e) >>= fun e =>
          t.derive (depth + 1) (.operators least assignable e)) s₀ := bind_bind _ _ _
    _ = (p >>= fun e => t.derive depth (.operators least assignable e)) s₀ := by
        refine bind_eq_of_eq rfl fun e s₁ hp => ?_
        have hleast : t.derive depth (.operators least assignable e) s₁ ≠ .halt .outOfFuel := by
          rwa [hlower, bind_apply, hp] at h
        have hresume := hloop e s₁ hleast
        rw [← hresume] at hleast ⊢
        refine bind_eq_of_eq rfl fun e' s₂ hraised => ?_
        -- the loop that goes on has had depth enough one rule further down
        apply t.derive_mono (Nat.le_succ depth)
        rwa [bind_apply, hraised] at hleast
    _ = t.derive (depth + 1) lower s := hlower.symm

/-- **The loop at a higher power is the start of the loop at a lower one**, by induction on the
    depth: it stops first, or both of them go on behind the same postfix form or operator. -/
theorem derive_resumes (t : Table) (hle : least ≤ raised) (assignable : Bool) (depth : Nat) :
    t.Resumes depth least raised assignable := by
  induction depth with
  | zero => exact fun left s h => absurd rfl h
  | succ depth ih =>
      intro left s h
      rcases t.stopsAt_or raised s.peek.kind with
        hstops | ⟨power, form, hform, hraised⟩ | ⟨hp, powers, hi, hraised⟩
      · have hstop : t.derive (depth + 1) (.operators raised assignable left) s = .ok left s :=
          Rule.operators_of_stopsAt hstops
        rw [bind_apply, hstop]
      · exact ih.step (Rule.operators_of_postfixForm hform (Nat.le_trans hle hraised))
          (Rule.operators_of_postfixForm hform hraised) h
      · have hround (power : Nat) (hpower : power ≤ powers.left) :
            t.derive (depth + 1) (.operators power assignable left) s =
              ((t.derive depth (.expr powers.right assignable) >>= fun right =>
                Rule.combine t assignable s.peek left right) >>= fun e =>
                  t.derive depth (.operators power assignable e)) s.advance := by
          rw [bind_bind]
          exact Rule.operators_of_infixPowers hp hi hpower
        exact ih.step (hround least (Nat.le_trans hle hraised)) (hround raised hraised) h

/-- **Reading at a power is reading at a higher one and then going on**, whether it succeeds or
    fails. -/
theorem derive_expr_raised (t : Table) (hle : least ≤ raised) (assignable : Bool)
    {s : TokenStream} (h : t.derive depth (.expr least assignable) s ≠ .halt .outOfFuel) :
    (t.derive depth (.expr raised assignable) >>= fun e =>
      t.derive depth (.operators least assignable e)) s =
    t.derive depth (.expr least assignable) s := by
  cases depth with
  | zero => exact absurd rfl h
  | succ depth => exact (t.derive_resumes hle assignable depth).step rfl rfl h

end Table

/-! ## What an expression starts with -/

/-- What the operator or the postfix form at the root of an expression goes on with. -/
def Expr.leftPart? : Expr → Option Expr
  | .binary _ left _ => some left
  | .assign _ subject _ | .member subject _ | .index subject _ | .call subject _ => some subject
  | _ => none

/-- The expression `l` is `e` itself, or is reached from it through left parts alone. -/
inductive Expr.Starts (l : Expr) : Expr → Prop where
  | self : Starts l l
  | part {k e} (hk : e.leftPart? = some k) (h : Starts l k) : Starts l e

theorem Expr.Starts.trans {l k e : Expr} (h : l.Starts k) (h' : k.Starts e) : l.Starts e := by
  induction h' with
  | self => exact h
  | part hk _ ih => exact .part hk ih

section

variable {t : Table} {read : {α : Type} → Phrase α → Parse α} {s s' : TokenStream} {e left : Expr}
  {assignable : Bool}

theorem Rule.postfixForm_leftPart? {form : PostfixForm}
    (h : Rule.postfixForm read form left s = .ok e s') : e.leftPart? = some left := by
  cases form with
  | member =>
      obtain ⟨-, rfl, -⟩ := Rule.member_eq_ok.mp h
      rfl
  | index =>
      obtain ⟨_, _, -, -, rfl, -⟩ := Rule.index_eq_ok.mp h
      rfl
  | call =>
      obtain ⟨_, _, -, -, rfl, -⟩ := Rule.call_eq_ok.mp h
      rfl

theorem Rule.combine_leftPart? {operator : Token} {right : Expr}
    (h : Rule.combine t assignable operator left right s = .ok e s') : e.leftPart? = some left := by
  obtain ⟨-, ⟨_, -, -, rfl⟩ | ⟨-, _, -, rfl⟩⟩ := Rule.combine_eq_ok.mp h
  · rfl
  · rfl

/-- **The operator loop builds on the expression it is given**, by induction on the depth: each round
    makes it the left part of another one. -/
theorem Table.derive_operators_starts {depth least : Nat}
    (h : t.derive depth (.operators least assignable left) s = .ok e s') : left.Starts e := by
  induction depth generalizing left s with
  | zero => cases h
  | succ depth ih =>
      rcases Rule.operators_eq_ok.mp h with ⟨-, rfl, -⟩ | ⟨_, form, e₁, s₁, -, -, hform, hloop⟩ |
        ⟨_, _, e₁, s₁, -, -, -, -, hcombine, hloop⟩
      · exact .self
      · have hpart : e₁.leftPart? = some left := by
          cases depth with
          | zero => cases hform
          | succ depth => exact Rule.postfixForm_leftPart? hform
        exact .trans (.part hpart .self) (ih hloop)
      · exact .trans (.part (Rule.combine_leftPart? hcombine) .self) (ih hloop)

end

/-! ## What a reading leaves -/

/-- Every stream that `s` has been advanced to is coupled with itself. -/
def Coupling.reached (s : TokenStream) : Coupling :=
  { Coupling.same with
    streams := fun x x' => x = x' ∧ ∃ w, s = x.behind w
    kind_eq := by rintro x _ ⟨rfl, -⟩; rfl
    value_eq := by rintro x _ ⟨rfl, -⟩ _; rfl
    position := by rintro x _ ⟨rfl, -⟩; rfl
    advance := by
      rintro x _ ⟨rfl, w, hw⟩
      obtain ⟨v, hv⟩ := x.exists_behind_advance
      refine .inl ⟨rfl, w ++ v, ?_⟩
      rw [TokenStream.behind_append, ← hv]
      exact hw }

/-- **What a reading leaves stands behind what it takes**: it moves on in the stream by advancing,
    and in no other way. -/
theorem Table.derive_leaves (t : Table) {depth : Nat} {α : Type} {phrase : Phrase α}
    {s s' : TokenStream} {v : α} (h : t.derive depth phrase s = .ok v s') :
    ∃ w, s = s'.behind w := by
  have hfollows : Parse.Follows (.reached s) Eq (t.derive depth phrase) (t.derive depth phrase) :=
    t.derive_follows (.reached s) (Nat.le_refl depth) phrase
  have hreply := hfollows.reply_of_never (fun _ => id) ⟨rfl, [], rfl⟩
  rw [h] at hreply
  cases hreply with
  | ok _ hs => exact hs.2

/-! ## Two readings of a stream -/

/-- **Raising the power only shortens the reading**, whatever is registered. Where an expression is
    read at a power, one is read at every higher power too. It takes some of the same tokens, from
    the first one on, and is the other expression itself or stands at the end of a path of left parts
    in it; and the operator loop at the lower power goes on from it, takes the other tokens, and
    gives the other expression again. -/
theorem raising_shortens (t : Table) {least raised : Nat} (hle : least ≤ raised) (assignable : Bool)
    {depth : Nat} {s rest : TokenStream} {e : Expr}
    (h : t.derive depth (.expr least assignable) s = .ok e rest) :
    ∃ e' taken more, s = rest.behind (taken ++ more) ∧
      t.derive depth (.expr raised assignable) s = .ok e' (rest.behind more) ∧ e'.Starts e ∧
      t.derive depth (.operators least assignable e') (rest.behind more) = .ok e rest := by
  have hresume : (t.derive depth (.expr raised assignable) >>= fun e' =>
      t.derive depth (.operators least assignable e')) s = .ok e rest := by
    rw [t.derive_expr_raised hle assignable (by simp [h]), h]
  obtain ⟨e', s₁, hraised, hloop⟩ := Parse.bind_eq_ok.mp hresume
  obtain ⟨taken, htaken⟩ := t.derive_leaves hraised
  obtain ⟨more, rfl⟩ := t.derive_leaves hloop
  refine ⟨e', taken, more, ?_, hraised, Table.derive_operators_starts hloop, hloop⟩
  rw [TokenStream.behind_append]
  exact htaken

/-- `a * b.c + d`, where members bind more loosely than products and a sum is an assignment. Read at
    5, it is the product `a * b`, and this is the subject of the member that is assigned to when it is
    read at 0. -/
theorem raising_shortens_product :
    let t := standard.registerAll [.postfixForm .dot 2 .member, .assignOperator .plus .add]
    let s : TokenStream := .ofKinds [(.identifier, "a"), (.star, "*"), (.identifier, "b"), (.dot, "."),
      (.identifier, "c"), (.plus, "+"), (.identifier, "d")]
    let rest : TokenStream := ⟨[], ⟨1, 7⟩⟩
    let product : Expr := .binary .multiply (.name "a") (.name "b")
    let e : Expr := .assign .add (.member product "c") (.name "d")
    (0 ≤ 5 ∧ t.derive 10 (.expr 0 true) s = .ok e rest) ∧
      t.derive 10 (.expr 5 true) s = .ok product (s.skip 3) ∧ product.Starts e ∧
      t.derive 10 (.operators 0 true product) (s.skip 3) = .ok e rest := by
  intro t s rest product e
  have h : t.derive 10 (.expr 0 true) s = .ok e rest := by rfl
  have hraised : t.derive 10 (.expr 5 true) s = .ok product (s.skip 3) := by rfl
  obtain ⟨e', taken, more, -, hread, hstarts, hloop⟩ :=
    raising_shortens t (Nat.zero_le 5) true h
  rw [hraised] at hread
  obtain ⟨rfl, hskip⟩ := Reply.ok.inj hread
  exact ⟨⟨Nat.zero_le 5, h⟩, hraised, hstarts, hskip ▸ hloop⟩

end ExprLang
