import ExprLang.Proofs.Grammar.Parsing
import ExprLang.Proofs.Reading.Coupling
import ExprLang.Proofs.Scanning.Joining

/-!
# `Proofs.Grammar.Joining` — programs joined by a line feed

No statement looks behind its own last token, so the statements of a program can be read off in
front of whatever follows it. What follows, the second program, is read as it is on its own, except
that its tokens stand further down: this is a coupling of the two streams, under which a diagnostic
moves down as well.

## Contents
- `TokenStream.down`, `Coupling.down`: a stream some lines further down.
- `read_down`: reading a stream further down.
- `read_program_behind`: reading on behind the statements of a program.
- `parse_join`: joined programs.
-/

namespace ExprLang

open Parse Rule TokenStream

/-! ## Streams further down -/

/-- The same tokens `k` lines further down. -/
def TokenStream.down (k : Nat) (s : TokenStream) : TokenStream :=
  ⟨s.pending.map (Token.down k), s.finish.down k⟩

theorem TokenStream.peek_down (k : Nat) (s : TokenStream) : (s.down k).peek = s.peek.down k := by
  obtain ⟨pending, finish⟩ := s
  cases pending with
  | nil => rfl
  | cons t ts => rfl

theorem TokenStream.advance_down (k : Nat) (s : TokenStream) :
    (s.down k).advance = s.advance.down k := by
  obtain ⟨pending, finish⟩ := s
  cases pending with
  | nil => rfl
  | cons t ts => rfl

/-- A stream and the same stream further down. -/
def Coupling.down (k : Nat) : Coupling where
  streams s s' := s' = s.down k
  positions p p' := p' = p.down k
  past _ := False
  kind_eq := by
    rintro s _ rfl
    rw [peek_down]
    rfl
  value_eq := by
    rintro s _ rfl _
    rw [peek_down]
    rfl
  position := by
    rintro s _ rfl
    rw [peek_down]
    rfl
  advance := by
    rintro s _ rfl
    exact .inl (advance_down k s)
  past_advance := id
  exists_position p := ⟨p.down k, rfl⟩

/-- **Reading further down** gives the same tree, or the same problem further down. -/
theorem read_down (k : Nat) {α : Type} (phrase : Phrase α) (s : TokenStream) :
    Reply.Follows (.down k) Eq (standard.read phrase s) (standard.read phrase (s.down k)) :=
  (standard_read_follows (.down k) phrase).reply_of_never (fun _ => id) rfl

/-- **The statements of a program are read off**, and what follows them is read as a program. -/
theorem read_program_behind {w : List Token} {ss : List Statement} (h : Derives .program w ss)
    (rest : TokenStream) :
    standard.read .program (rest.behind w) =
      (standard.read .program >>= fun more => pure (ss ++ more)) rest := by
  induction ss generalizing w with
  | nil =>
      cases h
      rw [behind_nil, bind_apply]
      cases standard.read .program rest <;> rfl
  | cons st ss ih =>
      cases h with
      | @programCons u v _ _ hfirst hmore =>
          have hst := hfirst.readAs (rest.behind v)
          obtain ⟨t, u', rfl, ht⟩ := hfirst.starts
          have hne : ((rest.behind v).behind (t :: u')).peek.kind ≠ .eof :=
            (ne_of_opensStatement ht).1
          rw [behind_append, standard_read_eq]
          show Rule.program standard.read _ = _
          rw [Rule.program, kind_bind, if_neg hne, bind_apply, hst]
          show (standard.read .program >>= fun more => pure (st :: more)) (rest.behind v) = _
          rw [bind_apply, ih hmore, bind_apply, bind_apply]
          cases standard.read .program rest <;> rfl

/-! ## Source texts -/

/-- The stream of a joined text: the tokens of the first text, and the stream of the second one
    further down. -/
theorem ofSource_join {source : String} (hnoError : ∀ t ∈ tokensBeforeEnd source, t.kind ≠ .error)
    (source' : String) :
    TokenStream.ofSource (source ++ "\n" ++ source') =
      ((TokenStream.ofSource source').down (source.toList.count '\n' + 1)).behind
        (tokensBeforeEnd source) := by
  rw [TokenStream.ofSource, scan_join hnoError, ofSource_eq_behind]
  simp [Scan.stream, TokenStream.down, behind, ended, Cursor.down, Token.down, Token.endOfInput]

/-- A single diagnostic comes from a problem with the text. -/
theorem read_program_eq_error {source : String} {d : Diagnostic}
    (h : parseProgram source = .ok [.error d]) :
    ∃ s', standard.read .program (.ofSource source) = .error d s' := by
  have hne : ∀ s', standard.read .program (.ofSource source) ≠ .ok [.error d] s' := by
    intro s' hread
    have hnoError := (read_program_ofSource_iff.mp ⟨s', hread⟩).noError
    cases hnoError _ (List.mem_singleton_self _)
  obtain ⟨d', s', hread, heq⟩ := exists_of_result_eq_ok h hne
  cases heq
  exact ⟨s', hread⟩

/-- **Joined programs.** If the first program is read without an error, then what is read from the
    two of them, joined by a line feed, are the statements of both; and if the second one has an
    error, it is the only one of both, as many lines further down as the first one has. -/
theorem parse_join {source : String} {ss : List Statement} (h : parseProgram source = .ok ss)
    (hnoError : ∀ s ∈ ss, s.isError = false) (source' : String) :
    (∀ ss', parseProgram source' = .ok ss' → (∀ s ∈ ss', s.isError = false) →
      parseProgram (source ++ "\n" ++ source') = .ok (ss ++ ss')) ∧
    (∀ problem line column,
      parseProgram source' = .ok [.error ⟨problem, ⟨line, column⟩⟩] →
      parseProgram (source ++ "\n" ++ source') =
        .ok [.error ⟨problem, ⟨line + source.toList.count '\n' + 1, column⟩⟩]) := by
  have hderives := derives_of_parseProgram h hnoError
  have hjoin := ofSource_join (fun t ht => (hderives.proper t ht).2) source'
  have hfollows := read_down (source.toList.count '\n' + 1) .program (.ofSource source')
  have hread := read_program_behind hderives
    ((TokenStream.ofSource source').down (source.toList.count '\n' + 1))
  rw [← hjoin, bind_apply] at hread
  generalize standard.read .program
    ((TokenStream.ofSource source').down (source.toList.count '\n' + 1)) = r at hread hfollows
  refine ⟨fun ss' h' hnoError' => ?_, fun problem line column h' => ?_⟩
  · have hderives' := derives_of_parseProgram h' hnoError'
    obtain ⟨s', hread'⟩ := read_program_ofSource_iff.mpr hderives'
    rw [hread'] at hfollows
    cases hfollows with
    | ok hv hs =>
        obtain rfl : ss' = _ := hv
        rw [parseProgram, hread]
        rfl
  · obtain ⟨s', hread'⟩ := read_program_eq_error h'
    rw [hread'] at hfollows
    cases hfollows with
    | error hp hs =>
        obtain rfl : _ = Position.down _ _ := hp
        rw [parseProgram, hread]
        rfl

/-- A name twice, and a name with a stray parenthesis on the line below it. -/
theorem parse_join_names :
    (parseProgram "x;" = .ok [.expr (.name "x")] ∧
      ∀ s ∈ [Statement.expr (.name "x")], s.isError = false) ∧
    parseProgram ("x;" ++ "\n" ++ "x;") = .ok [.expr (.name "x"), .expr (.name "x")] ∧
    parseProgram ("x;" ++ "\n" ++ ")") = .ok [.error ⟨.expectedValue, ⟨2, 1⟩⟩] := by
  have hend : ∀ {c k}, Kind.ofChar? c = some k → c ≠ '/' → Lexeme k [c] [] := by
    intro c k hk hslash
    refine .single hk ?_ fun h => absurd h hslash
    intro d hd
    cases hd
  have hword : Lexeme .identifier ['x'] [';'] := by
    refine .word (c := 'x') (u := []) rfl rfl ?_
    rintro ⟨d, hd, hpart⟩
    cases hd
    cases hpart
  have hscan : scan .start "x;".toList =
      ⟨[⟨.identifier, "x", ⟨1, 1⟩⟩, ⟨.semicolon, ";", ⟨1, 2⟩⟩], ⟨⟨1, 3⟩, []⟩⟩ :=
    scans_iff.mp (.token hword (.token (hend rfl (by decide)) .done))
  have hscan' : scan .start ")".toList = ⟨[⟨.closeParen, ")", ⟨1, 1⟩⟩], ⟨⟨1, 2⟩, []⟩⟩ :=
    scans_iff.mp (.token (hend rfl (by decide)) .done)
  have hname : parseProgram "x;" = .ok [.expr (.name "x")] := by
    rw [parseProgram, TokenStream.ofSource, Scan.ofSource, hscan]
    rfl
  have hstray : parseProgram ")" = .ok [.error ⟨.expectedValue, ⟨1, 1⟩⟩] := by
    rw [parseProgram, TokenStream.ofSource, Scan.ofSource, hscan']
    rfl
  have hnoError : ∀ s ∈ [Statement.expr (.name "x")], s.isError = false := by
    intro s hs
    obtain rfl := List.mem_singleton.mp hs
    rfl
  refine ⟨⟨hname, hnoError⟩, ?_, ?_⟩
  · exact (parse_join hname hnoError "x;").1 _ hname hnoError
  · exact (parse_join hname hnoError ")").2 _ 1 1 hstray

end ExprLang
