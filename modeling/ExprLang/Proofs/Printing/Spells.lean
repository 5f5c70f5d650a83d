import ExprLang.Proofs.Printing.Canonical
import ExprLang.Proofs.Grammar.Derivation
import ExprLang.Proofs.Scanning.Scans

/-!
# `Proofs.Printing.Spells` — texts that are scanned on their own

A text that is put together from pieces is scanned piece by piece, as long as no piece goes on with
the one before it. `Spells text follow P` says that of a single piece: wherever something that
satisfies `follow` stands behind `text`, tokens that satisfy `P` are scanned from `text`, and
scanning goes on with what follows. Pieces are put together by `Spells.append`, which asks of the
first one that it can be followed by the second.

## Contents
- `Spells`, `Both`, `Single`: what is scanned from a text.
- `Spells.mono`, `Spells.append`: pieces put together.
- `Free`, `Unworded`, `Detached`: what may follow.
- `Spells.lexeme` and the pieces that a printer writes: blanks, words, symbols, operators.
-/

namespace ExprLang

/-! ## Pieces of a text -/

/-- From `text`, in front of whatever satisfies `follow`, tokens that satisfy `P` are scanned. -/
def Spells (text : String) (follow : List Char → Prop) (P : List Token → Prop) : Prop :=
  ∀ p rest ts stop, follow rest → Scans (p.after text.toList) rest ts stop →
    ∃ w, P w ∧ Scans p (text.toList ++ rest) (w ++ ts) stop

/-- Tokens that satisfy `P`, and behind them tokens that satisfy `Q`. -/
def Both (P Q : List Token → Prop) (w : List Token) : Prop := ∃ u v, P u ∧ Q v ∧ w = u ++ v

/-- A single token of kind `k`, whose value is `text`. -/
def Single (k : Kind) (text : String) (w : List Token) : Prop :=
  ∃ t, t.kind = k ∧ t.value = text ∧ w = [t]

/-- Anything may follow. -/
def Free : List Char → Prop := fun _ => True

namespace Spells

variable {u v text : String} {F G : List Char → Prop} {P Q : List Token → Prop}

theorem mono (h : Spells text F P) (hfollow : ∀ rest, G rest → F rest) (himp : ∀ w, P w → Q w) :
    Spells text G Q := by
  intro p rest ts stop hrest hscans
  obtain ⟨w, hw, hscans'⟩ := h p rest ts stop (hfollow rest hrest) hscans
  exact ⟨w, himp w hw, hscans'⟩

theorem imp (h : Spells text F P) (himp : ∀ w, P w → Q w) : Spells text F Q :=
  h.mono (fun _ hrest => hrest) himp

/-- **Two pieces** are scanned one after the other if the first can be followed by the second. -/
theorem append (h : Spells u F P) (h' : Spells v G Q)
    (hjoin : ∀ rest, G rest → F (v.toList ++ rest)) : Spells (u ++ v) G (Both P Q) := by
  intro p rest ts stop hrest hscans
  rw [String.toList_append, Position.after_append] at hscans
  -- from the back: the second piece is scanned in front of `rest`, and the first in front of both
  obtain ⟨w', hw', hscans'⟩ := h' (p.after u.toList) rest ts stop hrest hscans
  obtain ⟨w, hw, hscans''⟩ := h p (v.toList ++ rest) (w' ++ ts) stop (hjoin rest hrest) hscans'
  refine ⟨w ++ w', ⟨w, w', hw, hw', rfl⟩, ?_⟩
  rwa [String.toList_append, List.append_assoc, List.append_assoc]

/-- Two pieces, where anything may stand behind the first one. -/
theorem join (h : Spells u Free P) (h' : Spells v G Q) : Spells (u ++ v) G (Both P Q) :=
  h.append h' fun _ _ => trivial

/-- Nothing is scanned from an empty text. -/
theorem empty (h : P []) : Spells "" F P := by
  intro p rest ts stop _ hscans
  exact ⟨[], h, hscans⟩

/-- Nothing is scanned from a blank character. -/
theorem blank (c : Char) (hc : isBlank c = true) : Spells (String.singleton c) Free (· = []) := by
  intro p rest ts stop _ hscans
  rw [String.toList_singleton] at hscans ⊢
  exact ⟨[], rfl, .blank hc hscans⟩

/-- A blank in front of a piece. -/
theorem indent (h : Spells text F P) : Spells (" " ++ text) F P := by
  refine ((blank ' ' rfl).join h).imp ?_
  rintro w ⟨_, v, rfl, hv, rfl⟩
  exact hv

/-- A blank behind a piece. -/
theorem space (h : Spells text F P) (hjoin : ∀ rest, F (' ' :: rest)) :
    Spells (text ++ " ") Free P := by
  refine (h.append (blank ' ' rfl) fun rest _ => hjoin rest).imp ?_
  rintro w ⟨u, _, hu, rfl, rfl⟩
  rwa [List.append_nil]

/-- A piece that is written as one token. -/
theorem lexeme {k : Kind} (h : ∀ rest, F rest → Lexeme k text.toList rest) :
    Spells text F (Single k text) := by
  intro p rest ts stop hrest hscans
  refine ⟨[⟨k, text, p⟩], ⟨_, rfl, rfl, rfl⟩, ?_⟩
  have htoken := Scans.token (h rest hrest) hscans
  rwa [String.ofList_toList] at htoken

/-- A text that spells tokens is scanned as these tokens, and nothing else. -/
theorem tokensBeforeEnd (h : Spells text F P) (hend : F []) : P (tokensBeforeEnd text) := by
  obtain ⟨w, hw, hscans⟩ := h .start [] [] _ hend .done
  rw [List.append_nil, List.append_nil, scans_iff] at hscans
  rw [tokensBeforeEnd_eq, Scan.ofSource, hscans]
  exact hw

end Spells

/-! ## What may follow -/

/-- No word goes on with what follows. -/
def Unworded (rest : List Char) : Prop := ¬HeadIs isNamePart rest

/-- Neither a word nor a number goes on with what follows. -/
def Detached (rest : List Char) : Prop := Unworded rest ∧ rest.head? ≠ some '.'

theorem unworded_nil : Unworded [] := by
  rintro ⟨c, hc, -⟩
  cases hc

theorem unworded_cons {c : Char} (hc : isNamePart c = false) (rest : List Char) :
    Unworded (c :: rest) := by
  rintro ⟨d, hd, hpart⟩
  cases hd
  rw [hc] at hpart
  cases hpart

theorem detached_nil : Detached [] := by
  refine ⟨unworded_nil, ?_⟩
  intro hhead
  cases hhead

theorem detached_cons {c : Char} (hc : isNamePart c = false) (hpoint : c ≠ '.') (rest : List Char) :
    Detached (c :: rest) := by
  refine ⟨unworded_cons hc rest, ?_⟩
  rintro hhead
  exact hpoint (Option.some.inj hhead)

/-! ## Words and symbols -/

theorem Lexeme.ofWord {text : String} (h : IsWord text) {rest : List Char} (hrest : Unworded rest) :
    Lexeme (Kind.ofWord text) text.toList rest := by
  obtain ⟨c, u, htext, hc, hu⟩ := h
  have hword := Lexeme.word hc hu hrest
  rwa [← htext, String.ofList_toList] at hword

theorem spells_name {name : String} (h : IsName name) :
    Spells name Unworded (Single .identifier name) := by
  have hkind : Kind.ofWord name = .identifier := by rw [Kind.ofWord, h.free]; rfl
  refine .lexeme ?_
  intro rest hrest
  rw [← hkind]
  exact .ofWord h.word hrest

/-- A reserved word is a word. -/
theorem Kind.isWord_of_ofWord? {word : String} {k : Kind} (h : Kind.ofWord? word = some k) :
    IsWord word := by
  unfold Kind.ofWord? at h
  split at h <;> first | exact ⟨_, _, rfl, rfl, rfl⟩ | cases h

theorem Lexeme.keyword {word : String} {k : Kind} (h : Kind.ofWord? word = some k)
    {rest : List Char} (hrest : Unworded rest) : Lexeme k word.toList rest := by
  have hkind : Kind.ofWord word = k := by rw [Kind.ofWord, h]; rfl
  rw [← hkind]
  exact .ofWord (Kind.isWord_of_ofWord? h) hrest

theorem spells_keyword (word : String) {k : Kind} (h : Kind.ofWord? word = some k) :
    Spells word Unworded (Single k word) :=
  .lexeme fun _ hrest => .keyword h hrest

/-- A reserved word and the blank behind it. -/
theorem spells_keyword_space (word : String) {k : Kind} (h : Kind.ofWord? word = some k) :
    Spells (word ++ " ") Free (Single k word) :=
  (spells_keyword word h).space (unworded_cons rfl)

/-- A symbol of one character that is the first of no symbol of two. -/
theorem spells_mark (c : Char) {k : Kind} (hk : Kind.ofChar? c = some k)
    (hpair : ∀ d, Kind.ofPair? c d = none) :
    Spells (String.singleton c) Free (Single k (String.singleton c)) := by
  refine .lexeme ?_
  intro rest _
  rw [String.toList_singleton]
  refine .single hk (fun d _ => hpair d) ?_
  rintro rfl
  cases hpair '='

/-- A symbol of one character in front of a blank. -/
theorem Lexeme.symbol {c : Char} {k : Kind} (hk : Kind.ofChar? c = some k) (rest : List Char) :
    Lexeme k [c] (' ' :: rest) := by
  refine .single hk ?_ fun _ => ?_
  · intro d hd
    cases hd
    exact Kind.ofPair?_of_isBlank (by decide)
  · constructor <;> intro hhead <;> cases hhead

/-! ## Operators -/

/-- A blank follows. -/
def BeforeBlank (rest : List Char) : Prop := ∃ more, rest = ' ' :: more

theorem spells_operator (symbol : String) {k : Kind}
    (h : ∀ rest, Lexeme k symbol.toList (' ' :: rest)) :
    Spells symbol BeforeBlank (Single k symbol) := by
  refine .lexeme ?_
  rintro _ ⟨more, rfl⟩
  exact h more

theorem beforeBlank_cons (rest : List Char) : BeforeBlank (' ' :: rest) := ⟨rest, rfl⟩

namespace BinaryOperator

/-- The layer of an operator. -/
def layer : BinaryOperator → Layer
  | or => .disjunction
  | and => .conjunction
  | equal | notEqual => .equality
  | less | lessEqual | greater | greaterEqual | isIn => .comparison
  | add | subtract => .sum
  | multiply | divide | modulus => .product
  | power => .power

/-- The kind of token that an operator is written as. -/
def kind : BinaryOperator → Kind
  | power => .starStar
  | multiply => .star
  | divide => .slash
  | modulus => .percent
  | add => .plus
  | subtract => .dash
  | less => .less
  | lessEqual => .lessEquals
  | greater => .greater
  | greaterEqual => .greaterEquals
  | isIn => .kwIn
  | equal => .equals
  | notEqual => .notEquals
  | and => .kwAnd
  | or => .kwOr

theorem binary?_kind (o : BinaryOperator) : o.kind.binary? = some (o.layer, o) := by
  cases o <;> rfl

theorem lexeme (o : BinaryOperator) (rest : List Char) :
    Lexeme o.kind o.symbol.toList (' ' :: rest) := by
  cases o with
  | isIn | and | or => exact .keyword rfl (unworded_cons rfl rest)
  | power | lessEqual | greaterEqual | equal | notEqual => exact .pair rfl
  | multiply | divide | modulus | add | subtract | less | greater => exact .symbol rfl rest

end BinaryOperator

namespace UnaryOperator

/-- The kind of token that an operator is written as. -/
def kind : UnaryOperator → Kind
  | not => .kwNot
  | negate => .dash

theorem unary?_kind (o : UnaryOperator) : o.kind.unary? = some o := by
  cases o <;> rfl

theorem lexeme (o : UnaryOperator) (rest : List Char) :
    Lexeme o.kind o.symbol.toList (' ' :: rest) := by
  cases o with
  | not => exact .keyword rfl (unworded_cons rfl rest)
  | negate => exact .symbol rfl rest

end UnaryOperator

end ExprLang
