import Lexis.CommandLine.Run
import Lexis.Proofs.Lexing.Comments
import Lexis.Proofs.Report.Rows
import Lexis.Proofs.Text.Returns

/-! A carriage return before every line feed changes nothing that is found in a text, nor what is
shown of it. -/

namespace Lexis

open CharClass

section

variable {g : Glyph} {gs rest : List Glyph} {q : Segment} {p : Position} {cs : List Char}

theorem Cuts.eq_newline (h : Cuts Kind.ofSpelling? g gs q rest) (role : q.role ≠ .comment)
    (newline : '\n' ∈ q.chars) : q.role = .blank ∧ q.chars = ['\n'] := by
  cases hrole : q.role with
  | blank =>
      obtain ⟨rfl, -⟩ := h.of_blank hrole
      exact ⟨rfl, congrArg (fun c => [c]) (List.mem_singleton.mp newline).symm⟩
  | comment => exact absurd hrole role
  | lexeme kind => cases h.not_blank hrole newline
  | problem problem =>
      obtain ⟨rfl, -⟩ := h.problem hrole
      have feed : '\n' = g.char := List.mem_singleton.mp newline
      exact absurd (.inl ⟨g.char, rfl, feed ▸ rfl⟩) (h.not_skips (by simp) (by simp))

theorem Cuts.audible_returned (h : Cuts Kind.ofSpelling? g gs q rest) (role : q.role = .comment)
    (hcs : Text.placed p cs = g :: gs) :
    audible (segmentsFrom p (Text.returned cs)) =
      audible (segmentsFrom (p.past q.chars) (Text.returned (rest.map Glyph.char))) := by
  obtain ⟨-, -, hchars, -⟩ := h.placed hcs
  obtain ⟨⟨body, hbody⟩, line⟩ := h.comment_line role hcs
  have opens : Text.returned q.chars = '/' :: '/' :: Text.returned body := by
    rw [← hbody]
    rfl
  have longer : (Text.cutAfter (· == '\n') (Text.returned q.chars ++
      Text.returned (rest.map Glyph.char))).head? = some (Text.returned q.chars) := by
    rw [← Text.returned_append, Text.cutAfter_returned, List.head?_map, line, Option.map_some]
  rw [opens] at longer
  obtain ⟨q', role', cut⟩ := segmentsFrom_comment p longer
  have silent : q'.isSilent = true := by rw [Segment.isSilent, role']
  rw [hchars, Text.returned_append, opens, cut, audible_of_isSilent silent, ← opens,
    Text.past_returned]

end

/-- The segments of a text that gets carriage returns are those of the text that come to
something. -/
theorem audible_returned (p : Position) (cs : List Char) :
    audible (segmentsFrom p (Text.returned cs)) = audible (segmentsFrom p cs) := by
  induction p, cs using segmentsFrom_induction with
  | nil p => rfl
  | @step p cs g gs q rest hcs h later =>
      obtain ⟨-, -, hchars, -⟩ := h.placed hcs
      rw [h.segmentsFrom_eq hcs]
      by_cases role : q.role = .comment
      · have silent : q.isSilent = true := by rw [Segment.isSilent, role]
        rw [h.audible_returned role hcs, later, audible_of_isSilent silent]
      by_cases newline : '\n' ∈ q.chars
      · -- The carriage return is one more blank, and the next line begins where it did.
        obtain ⟨blank, chars⟩ := h.eq_newline role newline
        have silent : q.isSilent = true := by rw [Segment.isSilent, blank]
        rw [audible_of_isSilent silent, ← later, hchars, chars, List.singleton_append,
          Text.returned_newline, audible_blank p (by decide), audible_blank _ (by decide)]
        rfl
      · have begins : ∀ c ∈ (Text.returned (rest.map Glyph.char)).head?,
            c ∈ (rest.map Glyph.char).head? ∨ isBlank c = true := by
          intro c hc
          refine (Text.head?_returned hc).imp_right ?_
          rintro rfl
          decide
        rw [hchars, Text.returned_append, Text.returned_of_newline_notMem newline,
          h.segmentsFrom_append role hcs begins, audible_cons, later, ← audible_cons]

theorem listing_withReturns {text : String} (h : '\r' ∉ text.toList) :
    listing (Text.withReturns text) = listing text := by
  rw [listing, Text.lines_withReturns h, listing]

theorem Files.text_of_encode {files : Files} {path : String} {cs : List Char}
    (opened : files path = .ok (.file (Text.encode cs))) :
    files.text path = .ok (String.ofList cs) := by
  rw [Files.text, opened]
  simp only [Entry.text, Text.decode?_encode]

/-- Line feeds with and without a carriage return before them come to the same. Without other
carriage returns, so do the listing and the lines below diagnostics. -/
theorem tokenize_withReturns {table : SymbolTable} (scanned : table.Scanned) (text : String) :
    tokenize (Text.withReturns text) table = tokenize text table ∧
      (text.length < wordLimit → ∃ t, tokenize text table = .ok t) ∧
      ('\r' ∉ text.toList → listing (Text.withReturns text) = listing text ∧
        ∀ (files files' : Files) (path : String),
          files path = .ok (.file (Text.encode text.toList)) →
          files' path = .ok (.file (Text.encode (Text.withReturns text).toList)) →
          (∀ n, files'.lineAt path n = files.lineAt path n) ∧
          ∀ d, CommandLine.renderWith path ((files'.text path).toOption.map Text.lines) d =
            CommandLine.renderWith path ((files.text path).toOption.map Text.lines) d) := by
  refine ⟨?_, tokenize_returns scanned.follows, ?_⟩
  · apply tokenize_of_audible scanned
    rw [Text.withReturns, String.toList_ofList]
    exact audible_returned .first text.toList
  · intro none
    refine ⟨listing_withReturns none, ?_⟩
    intro files files' path opened opened'
    have same := Text.lines_withReturns none
    have whole := Files.text_of_encode opened
    have whole' := Files.text_of_encode opened'
    rw [String.ofList_toList] at whole whole'
    constructor
    · intro n
      rw [Files.lineAt, Files.lineAt, whole, whole']
      simp only [Except.map, Text.lineAt?, same]
    · intro d
      rw [whole, whole']
      simp only [Except.toOption, Option.map_some, same]

/-- An operator, a point and a malformed dot at the end of their lines, a comment, and a last line
that nothing ends. -/
theorem tokenize_withReturns_points :
    let text := "a=\n3.\n.\n// @\n\t#"
    let ended := "a=\r\n3.\r\n.\r\n// @\r\n\t#"
    let holding (cs : List Char) : Files := fun _ => .ok (.file (Text.encode cs))
    SymbolTable.standard.Scanned ∧ Text.withReturns text = ended ∧ '\r' ∉ text.toList ∧
      (∃ t, tokenize text .standard = .ok t ∧ tokenize ended .standard = .ok t ∧
        t.tokens.map Token.sighting = [⟨"a", .identifier, 1, 0, 0⟩, ⟨"=", .assignment, 1, 1, 1⟩,
          ⟨"3.", .floatLiteral, 2, 0, 1⟩] ∧
        t.diagnostics = [⟨.malformedLeadingDotLiteral ".", 3, 0⟩, ⟨.illegalCharacter "#", 5, 1⟩]) ∧
      listing ended = listing text ∧
      (holding ended.toList).lineAt "abc" 3 = (holding text.toList).lineAt "abc" 3 ∧
      CommandLine.renderWith "abc" (((holding ended.toList).text "abc").toOption.map Text.lines)
          ⟨.illegalCharacter "#", 5, 1⟩ =
        CommandLine.renderWith "abc" (((holding text.toList).text "abc").toOption.map Text.lines)
          ⟨.illegalCharacter "#", 5, 1⟩ := by
  intro text ended holding
  have put : Text.withReturns text = ended := by decide
  have none : '\r' ∉ text.toList := by decide
  obtain ⟨same, returns, shown⟩ := tokenize_withReturns .standard text
  obtain ⟨t, done⟩ := returns (by decide)
  rw [put] at same shown
  have found : (tokenize text .standard).map
        (fun t => (t.tokens.map Token.sighting, t.diagnostics)) =
      .ok ([⟨"a", .identifier, 1, 0, 0⟩, ⟨"=", .assignment, 1, 1, 1⟩,
        ⟨"3.", .floatLiteral, 2, 0, 1⟩],
        [⟨.malformedLeadingDotLiteral ".", 3, 0⟩, ⟨.illegalCharacter "#", 5, 1⟩]) := by
    decide +kernel
  rw [done] at found
  obtain ⟨tokens, diagnostics⟩ := Prod.mk.inj (Except.ok.inj found)
  obtain ⟨listed, files⟩ := shown none
  obtain ⟨lines, renders⟩ := files (holding text.toList) (holding ended.toList) "abc" rfl rfl
  exact ⟨.standard, put, none, ⟨t, done, same.trans done, tokens, diagnostics⟩, listed, lines 3,
    renders _⟩

end Lexis
