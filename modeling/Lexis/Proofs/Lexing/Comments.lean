import Lexis.Proofs.Lexing.Boundary
import Lexis.Proofs.Lexing.Extent
import Lexis.Proofs.Lexing.LongestMatch
import Lexis.Proofs.Text.Comments
import Mathlib.Data.List.Basic

/-! Comments are invisible: a text without them comes to the same tokens and diagnostics. -/

namespace Lexis

open CharClass

/-- Blanks and comments come to nothing. -/
def Segment.isSilent (q : Segment) : Bool :=
  match q.role with
  | .blank | .comment => true
  | .lexeme _ | .problem _ => false

def audible (ps : List Segment) : List Segment := ps.filter fun q => !q.isSilent

section

variable {q : Segment}

theorem Segment.kind?_of_isSilent (h : q.isSilent = true) : q.kind? = none := by
  unfold isSilent at h
  unfold kind?
  cases role : q.role with
  | blank => rfl
  | comment => rfl
  | lexeme kind => simp [role] at h
  | problem problem => rfl

theorem Segment.diagnostic?_of_isSilent (h : q.isSilent = true) : q.diagnostic? = none := by
  unfold isSilent at h
  unfold diagnostic?
  cases role : q.role with
  | blank => rfl
  | comment => rfl
  | lexeme kind => rfl
  | problem problem => simp [role] at h

theorem audible_cons (q : Segment) (ps : List Segment) :
    audible (q :: ps) = audible [q] ++ audible ps :=
  List.filter_append [q] ps

theorem audible_of_isSilent (h : q.isSilent = true) (ps : List Segment) :
    audible (q :: ps) = audible ps := List.filter_cons_of_neg (by simp [h])

theorem audible_blank (p : Position) {c : Char} (blank : isBlank c = true) (cs : List Char) :
    audible (segmentsFrom p (c :: cs)) = audible (segmentsFrom (p.after c) cs) := by
  rw [segmentsFrom_blank p blank, audible_of_isSilent rfl]

theorem collect_audible (table : SymbolTable) (ps : List Segment) :
    collect table (audible ps) = collect table ps := by
  induction ps generalizing table with
  | nil => rfl
  | cons q ps ih =>
      cases silent : q.isSilent with
      | true =>
          rw [audible_of_isSilent silent, collect_of_other (Segment.kind?_of_isSilent silent), ih]
      | false =>
          have kept : audible (q :: ps) = q :: audible ps :=
            List.filter_cons_of_pos (by simp [silent])
          rw [kept]
          cases kind : q.kind? with
          | none => rw [collect_of_other kind, collect_of_other kind, ih]
          | some k => rw [collect_of_lexeme kind, collect_of_lexeme kind, ih]

theorem filterMap_diagnostic?_audible (ps : List Segment) :
    (audible ps).filterMap Segment.diagnostic? = ps.filterMap Segment.diagnostic? := by
  rw [audible, List.filterMap_filter]
  apply List.filterMap_congr
  intro q _
  cases silent : q.isSilent with
  | true => simp [Segment.diagnostic?_of_isSilent silent]
  | false => simp

end

theorem tokenize_of_audible {table : SymbolTable} (scanned : table.Scanned) {a b : String}
    (same : audible (segmentsFrom .first a.toList) = audible (segmentsFrom .first b.toList)) :
    tokenize a table = tokenize b table := by
  have silence (text : String) : tokenize text table =
      (collect table (audible (segmentsFrom .first text.toList))).map fun found =>
        ⟨found.1, (audible (segmentsFrom .first text.toList)).filterMap Segment.diagnostic?,
          found.2⟩ := by
    rw [collect_audible, filterMap_diagnostic?_audible]
    exact tokenize_eq scanned.follows text
  rw [silence, silence, same]

section

variable {g : Glyph} {gs rest : List Glyph} {q : Segment}

theorem Cuts.strip_append (h : Cuts Kind.ofSpelling? g gs q rest) (role : q.role ≠ .comment) :
    Text.strip (q.chars ++ rest.map Glyph.char) =
      q.chars ++ Text.strip (rest.map Glyph.char) := by
  have opens : ¬ ['/', '/'] <+: q.chars ++ rest.map Glyph.char := by
    rw [← h.chars_append]
    intro slashes
    rcases h.role_of_skips (.inr slashes) with blank | comment
    · have isBlank := (h.of_blank blank).2
      rw [← (List.cons_prefix_cons.mp slashes).1] at isBlank
      cases isBlank
    · exact role comment
  have more : '/' ∉ q.more.map Glyph.char := by
    intro slash
    obtain ⟨x, hx, same⟩ := List.mem_map.mp slash
    exact h.ne_slash role hx same
  have later := Text.strip_append more (rest.map Glyph.char)
  exact (Text.strip_cons opens).trans (congrArg (q.first.char :: ·) later)

theorem Segment.brokenBy_of_isBlank (role : q.role ≠ .comment) {x : Glyph}
    (blank : isBlank x.char = true) : q.BrokenBy Kind.ofSpelling? x := by
  refine ⟨fun comment => absurd comment role, fun _ => ⟨?_, ?_⟩, ?_⟩
  · exact isIdentifierPart_of_isBlank blank
  · rintro dot
    rw [dot] at blank
    cases blank
  · intro _ bare y hy
    cases hy
    constructor
    · rintro ⟨-, slash⟩
      rw [slash] at blank
      cases blank
    · cases known : Kind.ofSpelling? (String.ofList [q.first.char, x.char]) with
      | none => rfl
      | some kind =>
          rcases (Kind.signs_of_ofSpelling? known bare.2).2 with nil | ⟨d, single, sign, -⟩
          · cases nil
          · cases single
            cases blank.symm.trans (not_blank_of_isSign sign)

/-- Where the rest of a text is replaced by another one that begins as it does, or with a blank, the
segment before it stays as it is. -/
theorem Cuts.segmentsFrom_append (h : Cuts Kind.ofSpelling? g gs q rest) (role : q.role ≠ .comment)
    {p : Position} {cs later : List Char} (hcs : Text.placed p cs = g :: gs)
    (begins : ∀ c ∈ later.head?, c ∈ (rest.map Glyph.char).head? ∨ isBlank c = true) :
    segmentsFrom p (q.chars ++ later) = q :: segmentsFrom (p.past q.chars) later := by
  obtain ⟨-, hglyphs, -, hrest⟩ := h.placed hcs
  have cuts : Cuts Kind.ofSpelling? g (q.more ++ Text.placed (p.past q.chars) later) q
      (Text.placed (p.past q.chars) later) := by
    apply h.followed
    intro x hx
    cases later with
    | nil => cases hx
    | cons c later =>
        cases hx
        rcases begins c rfl with same | blank
        · obtain ⟨more, hmore⟩ := List.head?_eq_some_iff.mp same
          rw [hrest, hmore]
          exact .inl rfl
        · exact .inr (Segment.brokenBy_of_isBlank role blank)
  have first : g = q.first := (List.cons.inj h.glyphs_append).1.symm
  have placed : Text.placed p (q.chars ++ later) =
      g :: (q.more ++ Text.placed (p.past q.chars) later) := by
    rw [Text.placed_append, ← hglyphs, first]
    rfl
  rw [cuts.segmentsFrom_eq placed, Text.map_char_placed]

end

/-- The segments of a text without its comments are those of the text that come to something. -/
theorem audible_strip (p : Position) (cs : List Char) :
    audible (segmentsFrom p (Text.strip cs)) = audible (segmentsFrom p cs) := by
  induction p, cs using segmentsFrom_induction with
  | nil p => rfl
  | @step p cs g gs q rest hgs h later =>
      obtain ⟨-, -, hchars, -⟩ := h.placed hgs
      rw [h.segmentsFrom_eq hgs]
      by_cases role : q.role = .comment
      · obtain ⟨slashes, line⟩ := h.comment_line role hgs
        have silent : q.isSilent = true := by rw [Segment.isSilent, role]
        rw [audible_of_isSilent silent, ← later, hchars]
        rcases Text.strip_comment slashes line with
          ⟨body, ended, whole, stripped⟩ | ⟨stripped, nil⟩
        · -- The line feed is a blank now, at the place where the comment began.
          have next : p.past q.chars = p.after '\n' := by
            rw [ended, Position.past_line_end whole]
          rw [stripped, audible_blank p (by decide), next]
        · rw [stripped, nil]
          rfl
      · have begins : ∀ c ∈ (Text.strip (rest.map Glyph.char)).head?,
            c ∈ (rest.map Glyph.char).head? ∨ isBlank c = true := by
          intro c hc
          refine (Text.head?_strip hc).imp_right ?_
          rintro rfl
          decide
        rw [hchars, h.strip_append role, h.segmentsFrom_append role hgs begins, audible_cons, later,
          ← audible_cons]

/-- Taking the comments out of a text changes nothing that scanning finds in it. -/
theorem tokenize_withoutComments {table : SymbolTable} (scanned : table.Scanned) (text : String) :
    tokenize (Text.withoutComments text) table = tokenize text table ∧
      (text.length < wordLimit → ∃ t, tokenize text table = .ok t) := by
  constructor
  · apply tokenize_of_audible scanned
    rw [Text.withoutComments, String.toList_ofList]
    exact audible_strip .first text.toList
  · exact tokenize_returns scanned.follows

/-- A comment opens right behind an operator, a point and a malformed dot, and ends with its
line. -/
theorem tokenize_withoutComments_points :
    let text := "a=//=\r\n3.//5\n.// @\n/ /\n//"
    let stripped := "a=\n3.\n.\n/ /\n"
    SymbolTable.standard.Scanned ∧ Text.withoutComments text = stripped ∧
      ∃ t, tokenize text .standard = .ok t ∧ tokenize stripped .standard = .ok t ∧
        t.tokens.map Token.sighting = [⟨"a", .identifier, 1, 0, 0⟩, ⟨"=", .assignment, 1, 1, 1⟩,
          ⟨"3.", .floatLiteral, 2, 0, 1⟩, ⟨"/", .slash, 4, 0, 0⟩, ⟨"/", .slash, 4, 2, 2⟩] ∧
        t.diagnostics = [⟨.malformedLeadingDotLiteral ".", 3, 0⟩] := by
  intro text stripped
  have strips : Text.withoutComments text = stripped := by decide
  obtain ⟨same, returns⟩ := tokenize_withoutComments .standard text
  obtain ⟨t, done⟩ := returns (by decide)
  rw [strips] at same
  have found : (tokenize stripped .standard).map
        (fun t => (t.tokens.map Token.sighting, t.diagnostics)) =
      .ok ([⟨"a", .identifier, 1, 0, 0⟩, ⟨"=", .assignment, 1, 1, 1⟩,
        ⟨"3.", .floatLiteral, 2, 0, 1⟩, ⟨"/", .slash, 4, 0, 0⟩, ⟨"/", .slash, 4, 2, 2⟩],
        [⟨.malformedLeadingDotLiteral ".", 3, 0⟩]) := by
    decide +kernel
  rw [same, done] at found
  obtain ⟨tokens, diagnostics⟩ := Prod.mk.inj (Except.ok.inj found)
  exact ⟨.standard, strips, t, done, same.trans done, tokens, diagnostics⟩

end Lexis
