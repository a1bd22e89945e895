import Lexis.Proofs.Lexing.Lexemes
import Lexis.Proofs.Lexing.Tokenize

/-! Scanning takes the longest lexeme wherever one begins. -/

namespace Lexis

open CharClass

namespace Text

theorem stretch_line (p : Position) {line rest : List Char}
    (h : (cutAfter (· == '\n') (line ++ rest)).head? = some line) :
    Stretch (onLine p.line) (placed p line) (placed (p.past line) rest) := by
  obtain ⟨more, cut⟩ := List.head?_eq_some_iff.mp h
  have whole := placedLines_cutAfter p (line ++ rest)
  rw [cut, placedLines, placed_append, List.append_cancel_left_eq] at whole
  rw [← whole]
  have pieces : ∀ piece ∈ line :: more, IsPiece (· == '\n') piece := by
    rw [← cut]
    exact fun piece hpiece => isPiece_of_mem_cutAfter hpiece
  constructor
  · rw [placed_eq_mapIdx (pieces line List.mem_cons_self)]
    intro g hg
    obtain ⟨i, hi, rfl⟩ := List.mem_mapIdx.mp hg
    simp [onLine]
  · intro g hg
    cases more with
    | nil => cases hg
    | cons next more =>
        obtain ⟨c, cs, rfl⟩ := List.exists_cons_of_ne_nil
          (pieces next (List.mem_cons_of_mem _ List.mem_cons_self)).ne_nil
        cases hg
        simp [onLine]

theorem line_of_stretch {p : Position} {line rest : List Char} (ne : line ≠ [])
    (h : Stretch (onLine p.line) (placed p line) (placed (p.past line) rest)) :
    (cutAfter (· == '\n') (line ++ rest)).head? = some line := by
  obtain ⟨c, cs, rfl⟩ := List.exists_cons_of_ne_nil ne
  have ne : cutAfter (· == '\n') (c :: (cs ++ rest)) ≠ [] := cutAfter_ne_nil c (cs ++ rest)
  obtain ⟨first, more, cut⟩ := List.exists_cons_of_ne_nil ne
  have same := flatten_cutAfter (· == '\n') (c :: (cs ++ rest))
  rw [cut, List.flatten_cons] at same
  have begins : (cutAfter (· == '\n') (first ++ more.flatten)).head? = some first := by
    rw [same, cut]
    rfl
  have taken := (stretch_line p begins).takeWhile_eq
  rw [← placed_append, same, ← List.cons_append, placed_append, h.takeWhile_eq] at taken
  have chars := congrArg (List.map Glyph.char) taken
  rw [map_char_placed, map_char_placed] at chars
  rw [List.cons_append, cut, List.head?_cons, chars]

end Text

/-- What a text from a place on is read as: the lexemes, and the characters that begin none. At each
place blanks and comments come first, then the longest lexeme. -/
inductive Reads : Position → List Char → List Sighting → List Diagnostic → Prop
  | done {p : Position} : Reads p [] [] []
  | blank {p : Position} {c : Char} {rest : List Char} {ts : List Sighting} {ds : List Diagnostic} :
      isBlank c = true → Reads (p.after c) rest ts ds → Reads p (c :: rest) ts ds
  | comment {p : Position} {line rest : List Char} {ts : List Sighting} {ds : List Diagnostic} :
      ['/', '/'] <+: line → (Text.cutAfter (· == '\n') (line ++ rest)).head? = some line →
      Reads (p.past line) rest ts ds → Reads p (line ++ rest) ts ds
  | lexeme {p : Position} {lexeme rest : List Char} {kind : Kind} {ts : List Sighting}
      {ds : List Diagnostic} : ¬ Skips (lexeme ++ rest) → Longest (lexeme ++ rest) lexeme kind →
      Reads (p.past lexeme) rest ts ds →
      Reads p (lexeme ++ rest)
        (⟨String.ofList lexeme, kind, p.line, p.column, p.column + lexeme.length - 1⟩ :: ts) ds
  | problem {p : Position} {c : Char} {rest : List Char} {ts : List Sighting}
      {ds : List Diagnostic} : ¬ Skips (c :: rest) →
      (∀ {lexeme : List Char} {kind : Kind}, lexeme <+: c :: rest → ¬ Lexeme lexeme kind) →
      Reads (p.after c) rest ts ds → Reads p (c :: rest) ts (⟨problemAt c, p⟩ :: ds)

def segmentsFrom (p : Position) (cs : List Char) : List Segment :=
  segments Kind.ofSpelling? (Text.placed p cs)

theorem Cuts.placed {known : String → Option Kind} {g : Glyph} {gs rest : List Glyph} {q : Segment}
    (h : Cuts known g gs q rest) {p : Position} {cs : List Char}
    (hcs : Text.placed p cs = g :: gs) :
    q.place = p ∧ q.glyphs = Text.placed p q.chars ∧ cs = q.chars ++ rest.map Glyph.char ∧
      rest = Text.placed (p.past q.chars) (rest.map Glyph.char) := by
  have split := hcs.trans h.glyphs_append.symm
  obtain ⟨hglyphs, hrest⟩ := Text.placed_eq_append split
  refine ⟨?_, hglyphs, ?_, hrest⟩
  · rw [Segment.glyphs, List.map_cons, Text.placed_cons] at hglyphs
    exact congrArg Glyph.position (List.cons.inj hglyphs).1
  · rw [← Text.map_char_placed p cs, split, List.map_append]
    rfl

section

variable {g : Glyph} {gs rest : List Glyph} {q : Segment} {p : Position} {cs : List Char}

theorem Cuts.segmentsFrom_eq (h : Cuts Kind.ofSpelling? g gs q rest)
    (hcs : Text.placed p cs = g :: gs) :
    segmentsFrom p cs = q :: segmentsFrom (p.past q.chars) (rest.map Glyph.char) := by
  unfold segmentsFrom
  rw [hcs, h.segments_eq, ← (h.placed hcs).2.2.2]

/-- Facts about a text from a place on follow its segments to its end. -/
theorem segmentsFrom_induction {motive : Position → List Char → Prop} (nil : ∀ p, motive p [])
    (step : ∀ {p cs g gs q rest}, Text.placed p cs = g :: gs → Cuts Kind.ofSpelling? g gs q rest →
      motive (p.past q.chars) (rest.map Glyph.char) → motive p cs)
    (p : Position) (cs : List Char) : motive p cs := by
  generalize hgs : Text.placed p cs = gs
  induction gs using segments_induction Kind.ofSpelling? generalizing p cs with
  | nil =>
      have empty : cs = [] := by
        rw [← Text.map_char_placed p cs, hgs]
        rfl
      rw [empty]
      exact nil p
  | step h ih => exact step hgs h (ih _ _ (h.placed hgs).2.2.2.symm)

theorem segmentsFrom_blank (p : Position) {c : Char} (blank : isBlank c = true) (cs : List Char) :
    segmentsFrom p (c :: cs) = ⟨.blank, ⟨c, p⟩, []⟩ :: segmentsFrom (p.after c) cs := by
  have cuts : Cuts Kind.ofSpelling? ⟨c, p⟩ (Text.placed (p.after c) cs) ⟨.blank, ⟨c, p⟩, []⟩
      (Text.placed (p.after c) cs) := .blank blank
  rw [cuts.segmentsFrom_eq rfl, Text.map_char_placed]
  rfl

theorem Cuts.comment_line (h : Cuts Kind.ofSpelling? g gs q rest) (role : q.role = .comment)
    (hcs : Text.placed p cs = g :: gs) :
    ['/', '/'] <+: q.chars ∧ (Text.cutAfter (· == '\n')
      (q.chars ++ rest.map Glyph.char)).head? = some q.chars := by
  obtain ⟨hplace, hglyphs, -, hrest⟩ := h.placed hcs
  obtain ⟨second, body, rfl, hg, hh, hbody⟩ := h.of_comment role
  constructor
  · rw [Segment.chars, Segment.glyphs, List.map_cons, List.map_cons, hg, hh]
    exact ⟨_, rfl⟩
  · apply Text.line_of_stretch (p := p) (by simp [Segment.chars, Segment.glyphs])
    have first : g.position = p := hplace
    have line : second.position.line = p.line := by
      rw [Segment.chars, Segment.glyphs, List.map_cons, List.map_cons, Text.placed_cons,
        Text.placed_cons, hg] at hglyphs
      rw [(List.cons.inj (List.cons.inj hglyphs).2).1]
      rfl
    rw [← hglyphs, ← hrest]
    refine ⟨?_, first ▸ hbody.2⟩
    intro x hx
    rcases List.mem_cons.mp hx with rfl | hx
    · simp [onLine, first]
    · rcases List.mem_cons.mp hx with rfl | hx
      · simp [onLine, line]
      · exact first ▸ hbody.1 x hx

end

theorem reads_segments (p : Position) (cs : List Char) :
    Reads p cs ((segmentsFrom p cs).filterMap Segment.sighting?)
      ((segmentsFrom p cs).filterMap Segment.diagnostic?) := by
  induction p, cs using segmentsFrom_induction with
  | nil p =>
      simp only [segmentsFrom, Text.placed_nil, segments_nil, List.filterMap_nil]
      exact .done
  | @step p cs g gs q rest hgs h later =>
      obtain ⟨hplace, -, hchars, -⟩ := h.placed hgs
      have begins : (g :: gs).map Glyph.char = cs := by rw [← hgs, Text.map_char_placed]
      rw [h.segmentsFrom_eq hgs]
      cases role : q.role with
      | blank =>
          obtain ⟨rfl, blank⟩ := h.of_blank role
          rw [hchars]
          exact .blank blank later
      | comment =>
          obtain ⟨slashes, line⟩ := h.comment_line role hgs
          have sighting := Segment.sighting?_of_other (p := q) (by rw [Segment.kind?, role])
          have diagnostic : q.diagnostic? = none := by rw [Segment.diagnostic?, role]
          rw [List.filterMap_cons_none sighting, List.filterMap_cons_none diagnostic, hchars]
          exact .comment slashes line later
      | lexeme kind =>
          have longest := h.longest role
          have diagnostic : q.diagnostic? = none := by rw [Segment.diagnostic?, role]
          rw [List.filterMap_cons_some (Segment.sighting?_of_lexeme role),
            List.filterMap_cons_none diagnostic, hplace]
          have opens : ¬ Skips cs := begins ▸ h.not_skips (by simp [role]) (by simp [role])
          rw [begins, hchars] at longest
          rw [hchars] at opens ⊢
          exact .lexeme opens longest later
      | problem problem =>
          obtain ⟨rfl, absent⟩ := h.problem role
          have diagnostic : Segment.diagnostic? ⟨.problem (problemAt g.char), g, []⟩ =
              some ⟨problemAt g.char, p⟩ := by
            rw [← hplace]
            rfl
          have opens : ¬ Skips cs := begins ▸ h.not_skips (by simp) (by simp)
          rw [List.filterMap_cons_none rfl, List.filterMap_cons_some diagnostic]
          rw [begins] at absent
          rw [hchars] at opens absent ⊢
          exact .problem opens absent later

/-- Where a text goes on with neither a blank nor a comment, its first segment is the longest lexeme
there, or a character that begins none. -/
theorem first_segment (p : Position) {text : List Char} (ne : text ≠ []) (opens : ¬ Skips text) :
    ∃ q rest, text = q.chars ++ rest ∧ q.place = p ∧
      segmentsFrom p text = q :: segmentsFrom (p.past q.chars) rest ∧
      ((∃ kind, q.role = .lexeme kind ∧ Longest text q.chars kind) ∨
        (∃ c, q = ⟨.problem (problemAt c), ⟨c, p⟩, []⟩ ∧
          ∀ {lexeme : List Char} {kind : Kind}, lexeme <+: text → ¬ Lexeme lexeme kind)) := by
  obtain ⟨c, cs, rfl⟩ := List.exists_cons_of_ne_nil ne
  have cuts := cut_cuts Kind.ofSpelling? ⟨c, p⟩ (Text.placed (p.after c) cs)
  generalize (cut Kind.ofSpelling? ⟨c, p⟩ (Text.placed (p.after c) cs)).1 = q at cuts
  generalize (cut Kind.ofSpelling? ⟨c, p⟩ (Text.placed (p.after c) cs)).2 = rest at cuts
  have hcs : Text.placed p (c :: cs) = ⟨c, p⟩ :: Text.placed (p.after c) cs := rfl
  obtain ⟨hplace, -, hchars, -⟩ := cuts.placed hcs
  have begins : ((⟨c, p⟩ : Glyph) :: Text.placed (p.after c) cs).map Glyph.char = c :: cs := by
    rw [← hcs, Text.map_char_placed]
  refine ⟨q, rest.map Glyph.char, hchars, hplace, cuts.segmentsFrom_eq hcs, ?_⟩
  cases role : q.role with
  | blank => exact absurd (begins ▸ cuts.skips (.inl role)) opens
  | comment => exact absurd (begins ▸ cuts.skips (.inr role)) opens
  | lexeme kind => exact .inl ⟨kind, rfl, begins ▸ cuts.longest role⟩
  | problem problem =>
      obtain ⟨same, absent⟩ := cuts.problem role
      rw [begins] at absent
      exact .inr ⟨c, same, absent⟩

theorem segmentsFrom_comment (p : Position) {body rest : List Char}
    (line : (Text.cutAfter (· == '\n') ('/' :: '/' :: body ++ rest)).head? =
      some ('/' :: '/' :: body)) :
    ∃ q, q.role = .comment ∧ segmentsFrom p ('/' :: '/' :: body ++ rest) =
      q :: segmentsFrom (p.past ('/' :: '/' :: body)) rest := by
  have stretch := Text.stretch_line p line
  let second : Glyph := ⟨'/', p.after '/'⟩
  let more := Text.placed ((p.after '/').after '/') body
  let later := Text.placed (p.past ('/' :: '/' :: body)) rest
  have cuts : Cuts Kind.ofSpelling? ⟨'/', p⟩ (second :: (more ++ later))
      ⟨.comment, ⟨'/', p⟩, second :: more⟩ later := by
    refine .comment rfl rfl ⟨?_, stretch.2⟩
    intro g hg
    exact stretch.1 g (List.mem_cons_of_mem _ (List.mem_cons_of_mem _ hg))
  have begun := cuts.segmentsFrom_eq (Text.placed_append p ('/' :: '/' :: body) rest)
  have chars : Segment.chars ⟨.comment, ⟨'/', p⟩, second :: more⟩ = '/' :: '/' :: body := by
    simp [Segment.chars, Segment.glyphs, second, more]
  rw [chars, Text.map_char_placed] at begun
  exact ⟨_, rfl, begun⟩

/-- A text has no other reading. -/
theorem Reads.eq_segments {p : Position} {cs : List Char} {ts : List Sighting}
    {ds : List Diagnostic} (h : Reads p cs ts ds) :
    ts = (segmentsFrom p cs).filterMap Segment.sighting? ∧
      ds = (segmentsFrom p cs).filterMap Segment.diagnostic? := by
  -- A reading is compared piece by piece with the segments, which are longest as well.
  induction h with
  | done => simp [segmentsFrom]
  | @blank p c rest ts ds blank _ ih =>
      rw [segmentsFrom_blank p blank]
      exact ih
  | @comment p line rest ts ds slashes line_eq _ ih =>
      obtain ⟨body, rfl⟩ := slashes
      rw [List.cons_append, List.singleton_append] at line_eq ih ⊢
      obtain ⟨q, role, hsegments⟩ := segmentsFrom_comment p line_eq
      have diagnostic : q.diagnostic? = none := by rw [Segment.diagnostic?, role]
      have other : q.kind? = none := by rw [Segment.kind?, role]
      rw [hsegments, List.filterMap_cons_none (Segment.sighting?_of_other other),
        List.filterMap_cons_none diagnostic]
      exact ih
  | @lexeme p lexeme rest kind ts ds opens longest _ ih =>
      have ne := longest.holds.ne_nil
      obtain ⟨q, rest', hchars, rfl, hsegments, ⟨kind', role, longest'⟩ | ⟨c, -, absent⟩⟩ :=
        first_segment p (by simp [ne]) opens
      · obtain ⟨rfl, rfl⟩ := longest.unique longest'
        obtain rfl := List.append_cancel_left hchars
        have diagnostic : q.diagnostic? = none := by rw [Segment.diagnostic?, role]
        rw [hsegments, List.filterMap_cons_some (Segment.sighting?_of_lexeme role),
          List.filterMap_cons_none diagnostic, ← ih.1, ← ih.2]
        exact ⟨rfl, rfl⟩
      · exact absurd longest.holds (absent longest.starts)
  | @problem p c rest ts ds opens absent _ ih =>
      obtain ⟨q, rest', hchars, -, hsegments, ⟨kind', role, longest⟩ | ⟨c', rfl, -⟩⟩ :=
        first_segment p (by simp) opens
      · exact absurd longest.holds (absent longest.starts)
      · obtain ⟨rfl, rfl⟩ := List.cons.inj hchars
        rw [hsegments]
        exact ⟨ih.1, congrArg (⟨problemAt c, p⟩ :: ·) ih.2⟩

theorem reads_iff {p : Position} {cs : List Char} {ts : List Sighting} {ds : List Diagnostic} :
    Reads p cs ts ds ↔ ts = (segmentsFrom p cs).filterMap Segment.sighting? ∧
      ds = (segmentsFrom p cs).filterMap Segment.diagnostic? := by
  constructor
  · exact Reads.eq_segments
  · rintro ⟨rfl, rfl⟩
    exact reads_segments p cs

/-- Scanning a text finds its lexemes, each the longest one where it begins, and reports the
characters that begin none. Nothing else is a reading of the text. -/
theorem tokenize_reads {table : SymbolTable} (scanned : table.Scanned) (text : String) :
    (∀ t, tokenize text table = .ok t → ∀ sightings diagnostics,
      Reads .first text.toList sightings diagnostics ↔
        sightings = t.tokens.map Token.sighting ∧ diagnostics = t.diagnostics) ∧
      (text.length < wordLimit → ∃ t, tokenize text table = .ok t) := by
  constructor
  · intro t ht sightings diagnostics
    obtain ⟨htokens, hdiagnostics⟩ := sightings_of_tokenize scanned.follows ht
    rw [reads_iff, htokens, hdiagnostics]
    rfl
  · exact tokenize_returns scanned.follows

/-- A second dot begins another number. -/
theorem tokenize_reads_fractions :
    SymbolTable.standard.Scanned ∧ ∃ t, tokenize "3.4.5" .standard = .ok t ∧
      t.tokens.map Token.sighting =
        [⟨"3.4", .floatLiteral, 1, 0, 2⟩, ⟨".5", .floatLiteral, 1, 3, 4⟩] ∧ t.diagnostics = [] := by
  obtain ⟨reads, returns⟩ := tokenize_reads .standard "3.4.5"
  obtain ⟨t, ht⟩ := returns (by decide)
  obtain ⟨tokens, diagnostics⟩ := (reads t ht _ _).mp (reads_segments .first _)
  refine ⟨.standard, t, ht, ?_, ?_⟩
  · rw [← tokens]
    decide +kernel
  · rw [← diagnostics]
    decide +kernel

end Lexis
