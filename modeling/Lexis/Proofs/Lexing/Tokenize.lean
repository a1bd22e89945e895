import Lexis.Proofs.Source.Delivery
import Lexis.Proofs.SymbolTable.Scanned

/-! Turning a whole source or text into tokens, as a function of its characters. -/

namespace Lexis

namespace TokenStream

variable {σ : Type} [CharSource σ]

theorem symbols_ofSource (source : σ) (table : SymbolTable) :
    (ofSource source table).symbols = table := symbols_advance _

/-- A stream opens before the first character. A source without one is met with its end. -/
theorem opened {s : TokenStream σ} (held : s.released = false) (unread : s.lookahead = none)
    (silent : s.diagnostics = #[]) :
    s.advance.pending = CharSource.glyphs s.source ∧
      (CharSource.glyphs s.source ≠ [] → s.advance.ending = CharSource.stop s.source) ∧
      s.advance.diagnostics.toList =
        if CharSource.glyphs s.source = [] then endDiagnostics (CharSource.stop s.source) .start
        else [] := by
  cases given : CharSource.read s.source with
  | mk outcome after =>
      cases outcome with
      | char g =>
          rw [CharSource.glyphs_of_char given, CharSource.stop_of_char given]
          simp [advance, held, silent, given, receive, pending, ending]
      | endOfInput =>
          rw [CharSource.glyphs_of_stop (by simp) given, CharSource.stop_of_stop (by simp) given]
          simp [advance, held, silent, given, receive, pending, endDiagnostics]
      | failure cause =>
          rw [CharSource.glyphs_of_stop (by simp) given, CharSource.stop_of_stop (by simp) given]
          simp [advance, held, unread, silent, given, receive, reportFailure, position, pending,
            endDiagnostics]

theorem opened_ofSource (source : σ) (table : SymbolTable) :
    (ofSource source table).pending = CharSource.glyphs source ∧
      (CharSource.glyphs source ≠ [] →
        (ofSource source table).ending = CharSource.stop source) ∧
      (ofSource source table).diagnostics.toList =
        if CharSource.glyphs source = [] then endDiagnostics (CharSource.stop source) .start
        else [] :=
  opened rfl rfl rfl

end TokenStream

/-- The diagnostics of a whole source, which begins where nothing was read yet. -/
def reports (ending : Outcome) (ps : List Segment) : List Diagnostic :=
  (if ps = [] then endDiagnostics ending .start else []) ++ recorded ending ps

theorem recorded_endOfInput (ps : List Segment) :
    recorded .endOfInput ps = ps.filterMap Segment.diagnostic? := by
  induction ps with
  | nil => rfl
  | cons p ps ih =>
      rw [recorded, ih]
      cases h : p.diagnostic? <;> simp [endDiagnostics, h]

theorem reports_endOfInput (ps : List Segment) :
    reports .endOfInput ps = ps.filterMap Segment.diagnostic? := by
  rw [reports, recorded_endOfInput]
  split <;> rfl

/-- What a source comes to does not depend on what was logged before it was opened. -/
theorem TokenStream.drained_opened {σ : Type} [CharSource σ] {known : String → Option Kind}
    {table : SymbolTable} (follows : table.Follows known) (source : σ) (log : Array LogEvent) :
    (advance { source, symbols := table, log }).drained #[] =
      (collect table (segments known (CharSource.glyphs source))).map fun found =>
        (found.1, reports (CharSource.stop source) (segments known (CharSource.glyphs source)),
          found.2) := by
  obtain ⟨hpending, hending, hdiagnostics⟩ :=
    opened (s := ⟨source, table, none, false, #[], log⟩) rfl rfl rfl
  have same := symbols_advance (⟨source, table, none, false, #[], log⟩ : TokenStream σ)
  rw [drained_eq (by rwa [same]), hpending, same, hdiagnostics]
  by_cases empty : CharSource.glyphs source = []
  · simp [empty, segments_nil, reports, Lexis.recorded]
  · rw [hending empty, reports]
    simp only [segments_eq_nil, List.nil_append]

namespace Tokenization

theorem ofSource_eq_drained {σ : Type} [CharSource σ] (source : σ) (table : SymbolTable) :
    ofSource source table = ((TokenStream.ofSource source table).drained #[]).map fun found =>
      ⟨found.1, found.2.1, found.2.2⟩ := by
  rw [ofSource, TokenStream.rest, TokenStream.drained]
  cases (TokenStream.ofSource source table).pullAll #[] <;> rfl

/-- A source comes to the lexemes and the problems among its segments. -/
theorem ofSource_eq {σ : Type} [CharSource σ] {known : String → Option Kind} {table : SymbolTable}
    (follows : table.Follows known) (source : σ) :
    ofSource source table =
      (collect table (segments known (CharSource.glyphs source))).map fun found =>
        ⟨found.1, reports (CharSource.stop source) (segments known (CharSource.glyphs source)),
          found.2⟩ := by
  rw [ofSource_eq_drained, TokenStream.ofSource, TokenStream.drained_opened follows]
  cases collect table (segments known (CharSource.glyphs source)) <;> rfl

end Tokenization

def Text.segments (known : String → Option Kind) (text : List Char) : List Segment :=
  Lexis.segments known (Text.placed .first text)

theorem Text.mem_segments {known : String → Option Kind} {p : Position} {cs : List Char}
    {q : Segment} (h : q ∈ Lexis.segments known (placed p cs)) :
    ∃ before rest, cs = before ++ q.chars ++ rest ∧ q.place = p.past before ∧
      q.glyphs = placed q.place q.chars := by
  obtain ⟨before, later, split⟩ := List.append_of_mem h
  have whole := flatMap_glyphs_segments known (placed p cs)
  rw [split, List.flatMap_append, List.flatMap_cons] at whole
  obtain ⟨hbefore, hrest⟩ := placed_eq_append whole.symm
  obtain ⟨hglyphs, -⟩ := placed_eq_append hrest.symm
  have place : q.place = p.past ((before.flatMap Segment.glyphs).map Glyph.char) := by
    rw [Segment.glyphs, List.map_cons, placed_cons] at hglyphs
    exact congrArg Glyph.position (List.cons.inj hglyphs).1
  refine ⟨_, (later.flatMap Segment.glyphs).map Glyph.char, ?_, place, ?_⟩
  · rw [← map_char_placed p cs, ← whole]
    simp only [List.map_append, List.append_assoc, Segment.chars]
  · rw [place]
    exact hglyphs

theorem Text.fits_segments {known : String → Option Kind} {text : List Char}
    (h : text.length < wordLimit) : ∀ q ∈ Text.segments known text, q.Fits := by
  intro q hq
  obtain ⟨before, rest, rfl, place, -⟩ := mem_segments hq
  have column := Position.past_column_le .first before
  have length : q.glyphs.length = q.chars.length := by rw [Segment.chars, List.length_map]
  have start : Position.first.column = 0 := rfl
  simp only [List.length_append] at h
  rw [Segment.Fits, place, length]
  omega

theorem tokenize_eq {known : String → Option Kind} {table : SymbolTable}
    (follows : table.Follows known) (text : String) :
    tokenize text table = (collect table (Text.segments known text.toList)).map fun found =>
      ⟨found.1, (Text.segments known text.toList).filterMap Segment.diagnostic?, found.2⟩ := by
  obtain ⟨hglyphs, hstop⟩ := LineReader.glyphs_ofString text
  rw [tokenize, Tokenization.ofSource_eq follows, hglyphs, hstop, reports_endOfInput, Text.segments]

theorem tokenize_returns {known : String → Option Kind} {table : SymbolTable}
    (follows : table.Follows known) {text : String} (h : text.length < wordLimit) :
    ∃ t, tokenize text table = .ok t := by
  have fits : ∀ q ∈ Text.segments known text.toList, q.Fits := Text.fits_segments h
  obtain ⟨found, hfound⟩ := collect_returns fits table
  rw [tokenize_eq follows, hfound]
  exact ⟨_, rfl⟩

theorem sightings_of_tokenize {known : String → Option Kind} {table : SymbolTable}
    (follows : table.Follows known) {text : String} {t : Tokenization}
    (h : tokenize text table = .ok t) :
    t.tokens.map Token.sighting =
        (Text.segments known text.toList).filterMap Segment.sighting? ∧
      t.diagnostics = (Text.segments known text.toList).filterMap Segment.diagnostic? := by
  rw [tokenize_eq follows] at h
  obtain ⟨found, hfound, rfl⟩ := ok_of_map h
  exact ⟨collect_sightings follows hfound, rfl⟩

end Lexis
