import ExprLang.Proofs.Grammar.Parsing
import ExprLang.Proofs.Scanning.Unit

/-!
# `Proofs.Grammar.Literals` — literals from their text to their tree

The scanner cuts a literal out of the source text and hands on nothing but that text; what it stands
for is worked out much later, when the token becomes a tree. The two agree: every text that is made
of units between quotes is scanned as one token and read as what its units stand for, and the
scanner makes no other literals, so that the decoder never meets a text that it has no value for.
Integers are the exception, since a tree holds them in 64 bits.

## Contents
- `Lexeme.tokenize`, `Lexeme.parseExpression`: texts that are a single token.
- `parse_string`, `parse_char`: units between quotes.
- `Token.decimal`, `Rule.atom_of_int`: integers.
- `Rule.atom_of_literal`: the other literals.
- `literals_decoded`: all literals.
-/

namespace ExprLang

open LiteralUnit Parse

/-! ## Texts that are a single token -/

section

variable {source : String} {k : Kind}

theorem Lexeme.scans (h : Lexeme k source.toList []) :
    Scans .start source.toList [⟨k, source, .start⟩] ⟨Position.start.after source.toList, []⟩ := by
  have hscans := Scans.token (p := .start) h .done
  rwa [List.append_nil, String.ofList_toList] at hscans

/-- A text that is one lexeme has one token. -/
theorem Lexeme.tokenize (h : Lexeme k source.toList []) :
    tokenize source =
      [⟨k, source, .start⟩, .endOfInput (Position.start.after source.toList)] :=
  h.scans.tokenize

/-- A text whose only token is an expression is read as this expression. -/
theorem Lexeme.parseExpression {e : Expr} (h : Lexeme k source.toList [])
    (he : Atom ⟨k, source, .start⟩ e) (assignable : Bool) :
    parseExpression source assignable = .ok e := by
  apply parseExpression_of_derives
  rw [h.scans.tokensBeforeEnd]
  exact .plain ((Derives.atom he).loosen (by decide))

end

/-- **Units between double quotes** are read as the string of what they stand for. -/
theorem parse_string {units : List LiteralUnit} (h : ∀ u ∈ units, u.InString)
    (assignable : Bool) :
    parseExpression (quoted '"' (spelled units)) assignable =
      .ok (.string (String.ofList (units.map value))) := by
  have hatom : Atom ⟨.string, quoted '"' (spelled units), .start⟩ _ := .string rfl
  rw [stringValue_quoted, decode_spelled h] at hatom
  exact (Lexeme.of_string h []).parseExpression hatom assignable

/-- **A unit between single quotes** is read as the character that it stands for. -/
theorem parse_char {u : LiteralUnit} (h : u.InChar) (assignable : Bool) :
    parseExpression (quoted '\'' u.text) assignable = .ok (.char u.value) :=
  (Lexeme.of_char h []).parseExpression (.char rfl (charValue?_quoted h)) assignable

/-! ## Literals among the tokens of a text -/

/-- The number that the digits of an integer stand for. -/
def Token.decimal (t : Token) : Nat := Nat.ofDigitChars 10 t.value.toList 0

/-- The token is a literal. -/
def Token.IsLiteral (t : Token) : Prop :=
  t.kind ∈ [Kind.int, .float, .char, .string, .kwTrue, .kwFalse, .kwNull]

instance (t : Token) : Decidable t.IsLiteral := inferInstanceAs (Decidable (t.kind ∈ _))

theorem Rule.atom_apply (s : TokenStream) :
    Rule.atom s = match s.peek.atom with
      | .ok e => .ok e s.advance
      | .error problem => .error (s.diagnose problem) s := by
  unfold Rule.atom
  rw [bind_apply, current_apply]
  show (match s.peek.atom with
    | .ok e => Parse.advance >>= fun _ => pure e
    | .error problem => Parse.reject problem : Parse Expr) s = _
  cases s.peek.atom <;> rfl

/-- A token that is an expression is read as this expression. -/
theorem Rule.atom_of_atom {s : TokenStream} {e : Expr} (h : Atom s.peek e) :
    Rule.atom s = .ok e s.advance := by
  rw [atom_apply, Token.atom_eq_ok_iff.mpr h]

section

variable {source : String} {t : Token} (ht : t ∈ tokenize source)

include ht

/-- The text of a token that is neither the end of the input nor malformed is a lexeme. -/
theorem exists_lexeme (hend : t.kind ≠ .eof) (herror : t.kind ≠ .error) :
    ∃ rest, Lexeme t.kind t.value.toList rest := by
  have hmem : t ∈ tokensBeforeEnd source := mem_tokensBeforeEnd ht hend
  rw [tokensBeforeEnd_eq] at hmem
  exact (scans_scan .start source.toList).lexeme t hmem herror

theorem exists_string_units (hk : t.kind = .string) :
    ∃ units : List LiteralUnit, (∀ u ∈ units, u.InString) ∧
      t.value = quoted '"' (spelled units) := by
  obtain ⟨rest, hlexeme⟩ := exists_lexeme ht (by simp [hk]) (by simp [hk])
  obtain ⟨units, hunits, htext⟩ := hlexeme.string_units hk
  rw [String.ofList_toList] at htext
  exact ⟨units, hunits, htext⟩

theorem exists_char_unit (hk : t.kind = .char) :
    ∃ u : LiteralUnit, u.InChar ∧ t.value = quoted '\'' u.text := by
  obtain ⟨rest, hlexeme⟩ := exists_lexeme ht (by simp [hk]) (by simp [hk])
  obtain ⟨u, hu, htext⟩ := hlexeme.char_unit hk
  rw [String.ofList_toList] at htext
  exact ⟨u, hu, htext⟩

/-- Integers are written in decimal digits. -/
theorem isDigit_of_int (hk : t.kind = .int) : ∀ c ∈ t.value.toList, c.isDigit = true := by
  obtain ⟨rest, hlexeme⟩ := exists_lexeme ht (by simp [hk]) (by simp [hk])
  obtain ⟨c, u, htext, hc, hu⟩ := hlexeme.int_text hk
  rw [htext]
  exact List.forall_mem_cons.mpr ⟨hc, List.all_eq_true.mp hu⟩

/-- **An integer** becomes a tree if 64 bits can hold it, and else a problem with its token. -/
theorem Rule.atom_of_int (hk : t.kind = .int) {s : TokenStream} (hs : s.peek = t) :
    Rule.atom s =
      if t.decimal < 9223372036854775808 then .ok (.int t.decimal) s.advance
      else .error ⟨.badNumber t.value, t.position⟩ s := by
  subst hs
  obtain ⟨rest, hlexeme⟩ := exists_lexeme ht (by simp [hk]) (by simp [hk])
  have hinteger := hlexeme.integer? hk
  rw [String.ofList_toList, Numeral.natural, ← Nat.ofDigitChars_eq_foldl] at hinteger
  by_cases hlt : s.peek.decimal < 9223372036854775808
  · rw [if_pos hlt]
    exact atom_of_atom (.int hk ((hinteger _).mpr ⟨rfl, Nat.le_of_lt_succ hlt⟩))
  · rw [if_neg hlt]
    have hnone : Numeral.integer? s.peek.value = none := by
      rw [Option.eq_none_iff_forall_ne_some]
      intro n hn
      exact hlt (Nat.lt_succ_of_le ((hinteger n).mp hn).2)
    have hatom : s.peek.atom = .error (.badNumber s.peek.value) := by
      simp only [Token.atom, hk, hnone]
    rw [atom_apply, hatom]
    simp [TokenStream.diagnose, Token.is, hk]

/-- **Every other literal** becomes a tree. -/
theorem Rule.atom_of_literal (hliteral : t.IsLiteral) (hint : t.kind ≠ .int) {s : TokenStream}
    (hs : s.peek = t) : ∃ e, Rule.atom s = .ok e s.advance := by
  subst hs
  have hmem : s.peek ∈ tokensBeforeEnd source := by
    refine mem_tokensBeforeEnd ht fun heof => ?_
    simp [Token.IsLiteral, heof] at hliteral
  have hatom : ∃ e, Atom s.peek e := by
    simp only [Token.IsLiteral, List.mem_cons, List.not_mem_nil, or_false] at hliteral
    rcases hliteral with hk | hk | hk | hk | hk | hk | hk
    · exact absurd hk hint
    · exact (literal_atom hmem).1 (Or.inl hk)
    · exact (literal_atom hmem).1 (Or.inr hk)
    · exact ⟨_, .string hk⟩
    · exact ⟨_, .true hk⟩
    · exact ⟨_, .false hk⟩
    · exact ⟨_, .null hk⟩
  obtain ⟨e, he⟩ := hatom
  exact ⟨e, atom_of_atom he⟩

end

/-- **Scanner and decoder agree on literals.** Units between double quotes are scanned as one string
    and read as the string of what they stand for, and a unit between single quotes is scanned as
    one character and read as what it stands for. There are no other tokens of these kinds in any
    text: the decoder always finds the quotes, leaves no backslash over and has a value for every
    character. An integer is read as its decimal value if that is less than `2 ^ 63`, and otherwise
    reported with its text where it stands; no other literal is ever without a value. -/
theorem literals_decoded :
    (∀ (units : List LiteralUnit) (assignable : Bool), (∀ u ∈ units, u.InString) →
      let source := quoted '"' (spelled units)
      tokenize source =
          [⟨.string, source, .start⟩, .endOfInput (Position.start.after source.toList)] ∧
        parseExpression source assignable = .ok (.string (String.ofList (units.map value)))) ∧
    (∀ (u : LiteralUnit) (assignable : Bool), u.InChar →
      let source := quoted '\'' u.text
      tokenize source =
          [⟨.char, source, .start⟩, .endOfInput (Position.start.after source.toList)] ∧
        parseExpression source assignable = .ok (.char u.value)) ∧
    (∀ (source : String) (t : Token), t ∈ tokenize source →
      (t.kind = .string →
        ∃ units : List LiteralUnit, (∀ u ∈ units, u.InString) ∧
          t.value = quoted '"' (spelled units) ∧
          Literal.between? '"' t.value.toList = some (spelled units) ∧
          ¬EndsEscaping (spelled units) ∧
          ∀ s : TokenStream, s.peek = t →
            Rule.atom s = .ok (.string (String.ofList (units.map value))) s.advance) ∧
      (t.kind = .char →
        ∃ u : LiteralUnit, u.InChar ∧ t.value = quoted '\'' u.text ∧
          Literal.charValue? t.value = some u.value ∧
          ∀ s : TokenStream, s.peek = t → Rule.atom s = .ok (.char u.value) s.advance) ∧
      (t.kind = .int →
        (∀ c ∈ t.value.toList, c.isDigit = true) ∧
          ∀ s : TokenStream, s.peek = t →
            Rule.atom s =
              if t.decimal < 9223372036854775808 then .ok (.int t.decimal) s.advance
              else .error ⟨.badNumber t.value, t.position⟩ s) ∧
      (t.IsLiteral → ∀ s : TokenStream, s.peek = t →
        ((∃ e, Rule.atom s = .ok e s.advance) ↔
          ¬(t.kind = .int ∧ 9223372036854775808 ≤ t.decimal)))) := by
  refine ⟨fun units assignable h => ?_, fun u assignable h => ?_, fun source t ht => ?_⟩
  · exact ⟨(Lexeme.of_string h []).tokenize, parse_string h assignable⟩
  · exact ⟨(Lexeme.of_char h []).tokenize, parse_char h assignable⟩
  refine ⟨fun hk => ?_, fun hk => ?_, fun hk => ?_, fun hliteral s hs => ?_⟩
  · obtain ⟨units, hunits, htext⟩ := exists_string_units ht hk
    refine ⟨units, hunits, htext, ?_, not_endsEscaping_spelled hunits, ?_⟩
    · rw [htext, between?_quoted]
    · rintro s rfl
      have hatom := Atom.string hk
      rw [htext, stringValue_quoted, decode_spelled hunits] at hatom
      exact Rule.atom_of_atom hatom
  · obtain ⟨u, hu, htext⟩ := exists_char_unit ht hk
    have hvalue : Literal.charValue? t.value = some u.value := by rw [htext, charValue?_quoted hu]
    refine ⟨u, hu, htext, hvalue, ?_⟩
    rintro s rfl
    exact Rule.atom_of_atom (.char hk hvalue)
  · exact ⟨isDigit_of_int ht hk, fun s hs => Rule.atom_of_int ht hk hs⟩
  · by_cases hint : t.kind = .int
    · rw [Rule.atom_of_int ht hint hs]
      by_cases hlt : t.decimal < 9223372036854775808
      · rw [if_pos hlt]
        exact iff_of_true ⟨_, rfl⟩ fun h => Nat.not_le_of_lt hlt h.2
      · rw [if_neg hlt]
        exact iff_of_false nofun fun h => h ⟨hint, Nat.le_of_not_lt hlt⟩
    · exact iff_of_true (Rule.atom_of_literal ht hliteral hint hs) fun h => hint h.1

/-- A string that holds a line feed, an escaped quote, a tabulator and at its end a backslash; a
    quote as a character; and the least integer that is too large. -/
theorem literals_decoded_escapes :
    let units := [plain '\n', escaped '"', escaped 't', escaped '\\']
    let digits : Token := ⟨.int, "9223372036854775808", .start⟩
    let s : TokenStream := ⟨[digits], .start⟩
    ((∀ u ∈ units, u.InString) ∧
      parseExpression "\"\n\\\"\\t\\\\\"" true = .ok (.string "\n\"\t\\")) ∧
    (InChar (plain '\'') ∧ parseExpression "'''" true = .ok (.char '\'')) ∧
    (digits ∈ tokenize "9223372036854775808" ∧ digits.kind = .int ∧ digits.IsLiteral ∧
      s.peek = digits ∧ Rule.atom s = .error ⟨.badNumber "9223372036854775808", .start⟩ s ∧
      ¬∃ e, Rule.atom s = .ok e s.advance) := by
  intro units digits s
  have hunits : ∀ u ∈ units, u.InString := by
    simp only [units, List.forall_mem_cons]
    exact ⟨by simp [InString], trivial, trivial, trivial, by simp⟩
  have hchar : InChar (plain '\'') := by simp [InChar]
  have hlexeme : Lexeme .int "9223372036854775808".toList [] := by
    refine .int (c := '9') (u := "223372036854775808".toList) (by decide) (by decide) ?_ nofun
    rintro ⟨c, hc, -⟩
    cases hc
  have hmem : digits ∈ tokenize "9223372036854775808" := by
    rw [hlexeme.tokenize]
    exact List.mem_cons_self
  have hlarge : ¬digits.decimal < 9223372036854775808 := by decide
  have hliteral : digits.IsLiteral := by decide
  obtain ⟨-, -, hint, hfails⟩ := literals_decoded.2.2 _ digits hmem
  refine ⟨⟨hunits, (literals_decoded.1 units true hunits).2⟩,
    ⟨hchar, (literals_decoded.2.1 (plain '\'') true hchar).2⟩,
    hmem, rfl, hliteral, rfl, ?_, fun hread => ?_⟩
  · rw [(hint rfl).2 s rfl, if_neg hlarge]
  · exact (hfails hliteral s rfl).mp hread ⟨rfl, Nat.le_of_not_lt hlarge⟩

end ExprLang
