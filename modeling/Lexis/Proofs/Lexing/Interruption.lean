import Lexis.Proofs.Lexing.Truncation
import Lexis.Source.Script

/-! A source that fails comes to what it would come to if it ended there, and one diagnostic
more. -/

namespace Lexis

namespace Script

/-- The reads give these characters, and then another outcome. -/
def stopping (gs : List Glyph) (stop : Outcome) (more : List Outcome) : Script :=
  ⟨gs.map .char ++ stop :: more⟩

theorem glyphs_stopping (stop : Outcome) (h : ∀ g, stop ≠ .char g) (gs : List Glyph)
    (more : List Outcome) :
    CharSource.glyphs (stopping gs stop more) = gs ∧
      CharSource.stop (stopping gs stop more) = stop := by
  induction gs with
  | nil =>
      have given : CharSource.read (stopping [] stop more) = (stop, ⟨more⟩) := rfl
      exact ⟨CharSource.glyphs_of_stop h given, CharSource.stop_of_stop h given⟩
  | cons g gs ih =>
      have given : CharSource.read (stopping (g :: gs) stop more) =
          (.char g, stopping gs stop more) := rfl
      rw [CharSource.glyphs_of_char given, CharSource.stop_of_char given]
      exact ⟨congrArg (g :: ·) ih.1, ih.2⟩

end Script

section

variable {known : String → Option Kind} {gs : List Glyph} {ps : List Segment} {p : Segment}

def lastReport? (known : String → Option Kind) (gs : List Glyph) : Option Diagnostic :=
  (segments known gs).getLast?.bind Segment.diagnostic?

def lastSighting? (known : String → Option Kind) (gs : List Glyph) : Option Sighting :=
  (segments known gs).getLast?.bind Segment.sighting?

theorem Segment.last_of_diagnostic? (concat : segments known gs = ps ++ [p]) {d : Diagnostic}
    (h : p.diagnostic? = some d) : d = ⟨problemAt p.last.char, p.last.position⟩ := by
  obtain ⟨_, _, _, cuts⟩ := cuts_of_concat concat
  obtain ⟨rfl, rfl⟩ := cuts.reported h
  rfl

theorem sublist_of_reported (ps : List Segment) :
    ((ps.filterMap Segment.diagnostic?).map Diagnostic.position).Sublist
      ((ps.flatMap Segment.glyphs).map Glyph.position) := by
  induction ps with
  | nil => exact .slnil
  | cons p ps ih =>
      rw [List.flatMap_cons, List.map_append]
      cases h : p.diagnostic? with
      | none =>
          rw [List.filterMap_cons_none h]
          exact ih.trans (List.sublist_append_right _ _)
      | some d =>
          obtain ⟨problem, -, rfl⟩ := Segment.diagnostic_eq h
          rw [List.filterMap_cons_some h, List.map_cons, Segment.glyphs, List.map_cons,
            List.cons_append]
          exact (ih.trans (List.sublist_append_right _ _)).cons_cons _

def InOrder (places : List Position) : Prop := places.Pairwise fun p q => ¬ q.Before p

/-- A failure is in order behind all reports but one about the character that it is met with. -/
theorem inOrder_reports (concat : segments known gs = ps ++ [p]) {d : Diagnostic}
    (met : d.position = p.last.position) (ordered : InOrder (gs.map Glyph.position)) :
    InOrder ((ps.filterMap Segment.diagnostic? ++ d :: p.diagnostic?.toList).map
      Diagnostic.position) := by
  have among : ((ps.filterMap Segment.diagnostic?).map Diagnostic.position ++
      [d.position]).Sublist (gs.map Glyph.position) := by
    rw [eq_of_concat concat, List.map_append, met]
    refine (sublist_of_reported ps).append (List.singleton_sublist.mpr ?_)
    exact List.mem_map_of_mem p.last_mem
  have front : InOrder ((ps.filterMap Segment.diagnostic?).map Diagnostic.position ++
      [d.position]) := ordered.sublist among
  cases reported : p.diagnostic? with
  | none => simpa using front
  | some e =>
      have same : e.position = d.position := by
        rw [met, Segment.last_of_diagnostic? concat reported]
      obtain ⟨-, -, before⟩ := List.pairwise_append.mp front
      rw [Option.toList_some, List.append_cons, List.map_append, List.map_append, List.map_singleton,
        List.map_singleton]
      refine List.pairwise_append.mpr ⟨front, List.pairwise_singleton _ _, ?_⟩
      intro place hplace last hlast
      rw [List.mem_singleton.mp hlast, same]
      rcases List.mem_append.mp hplace with earlier | here
      · exact before place earlier _ (List.mem_singleton_self _)
      · rw [List.mem_singleton.mp here]
        exact Position.Before.irrefl _

/-- The diagnostic that a failure behind some characters leaves. -/
def failureBehind (gs : List Glyph) (cause : Failure) : Diagnostic :=
  ⟨.sourceUnreadable cause.message, gs.getLast?.elim ⟨0, 0⟩ Glyph.position⟩

/-- A failure is reported last, or else before the report of the character that it is met with. -/
theorem reports_failing (known : String → Option Kind) (gs : List Glyph) (cause : Failure) :
    ∃ earlier, (segments known gs).filterMap Segment.diagnostic? =
        earlier ++ (lastReport? known gs).toList ∧
      reports (.failure cause) (segments known gs) =
        earlier ++ failureBehind gs cause :: (lastReport? known gs).toList ∧
      (InOrder (gs.map Glyph.position) →
        InOrder ((reports (.failure cause) (segments known gs)).map Diagnostic.position)) := by
  -- The failure is met with the last character, so it comes before the report of the last segment.
  rcases List.eq_nil_or_concat (segments known gs) with none | ⟨ps, p, concat⟩
  · obtain rfl := segments_eq_nil.mp none
    have single : reports (.failure cause) (segments known []) = [failureBehind [] cause] := by
      rw [none]
      rfl
    refine ⟨[], by rw [lastReport?, none]; rfl, by rw [single, lastReport?, none]; rfl, ?_⟩
    intro _
    rw [single]
    exact List.pairwise_singleton _ _
  · rw [List.concat_eq_append] at concat
    have last : lastReport? known gs = p.diagnostic? := by
      rw [lastReport?, concat, List.getLast?_concat]
      rfl
    have met : (failureBehind gs cause).position = p.last.position := by
      rw [failureBehind, getLast?_of_concat concat]
      rfl
    have reported : reports (.failure cause) (segments known gs) =
        ps.filterMap Segment.diagnostic? ++ failureBehind gs cause :: p.diagnostic?.toList := by
      rw [reports_of_concat _ concat, failureBehind, getLast?_of_concat concat]
      rfl
    refine ⟨ps.filterMap Segment.diagnostic?, ?_, by rw [reported, last], ?_⟩
    · rw [concat, last, filterMap_diagnostic?_concat]
    · rw [reported]
      exact inOrder_reports concat met

theorem getLast?_of_lastSighting? {table : SymbolTable} {found : List Token × SymbolTable}
    (h : collect table (segments table.kind? gs) = .ok found) {s : Sighting}
    (hs : lastSighting? table.kind? gs = some s) :
    found.1.getLast?.map Token.sighting = some s ∧ s.spelling.toList <:+ gs.map Glyph.char := by
  obtain ⟨p, last, sighted⟩ := Option.bind_eq_some_iff.mp hs
  obtain ⟨ps, concat⟩ := List.getLast?_eq_some_iff.mp last
  constructor
  · rw [← List.getLast?_map, collect_sightings (.refl table) h, concat, List.filterMap_append,
      List.filterMap_cons_some sighted, List.filterMap_nil, List.getLast?_concat]
  · obtain ⟨_, -, rfl⟩ := Segment.sighting_eq sighted
    rw [eq_of_concat concat, List.map_append, String.toList_ofList]
    exact List.suffix_append _ _

end

open Script

/-- A source that fails comes to what it would come to if it ended there, and to one diagnostic
more, at the last character that was read. -/
theorem ofSource_failing (gs : List Glyph) (cause : Failure) (more : List Outcome)
    (table : SymbolTable) :
    let last? := lastReport? table.kind? gs
    Agree
      (fun ended failed =>
        failed.tokens = ended.tokens ∧ failed.symbols = ended.symbols ∧
          (∃ earlier, ended.diagnostics = earlier ++ last?.toList ∧
            failed.diagnostics = earlier ++ failureBehind gs cause :: last?.toList) ∧
          (∀ sighting, lastSighting? table.kind? gs = some sighting →
            failed.tokens.getLast?.map Token.sighting = some sighting ∧
              sighting.spelling.toList <:+ gs.map Glyph.char) ∧
          (InOrder (gs.map Glyph.position) →
            InOrder (failed.diagnostics.map Diagnostic.position)))
      (Tokenization.ofSource (stopping gs .endOfInput more) table)
      (Tokenization.ofSource (stopping gs (.failure cause) more) table) ∧
    ∀ d, last? = some d → ∃ g, gs.getLast? = some g ∧ d = ⟨problemAt g.char, g.position⟩ := by
  intro last?
  obtain ⟨glyphs, stop⟩ := glyphs_stopping .endOfInput (by simp) gs more
  obtain ⟨glyphs', stop'⟩ := glyphs_stopping (.failure cause) (by simp) gs more
  rw [Tokenization.ofSource_eq (.refl table), Tokenization.ofSource_eq (.refl table), glyphs, glyphs',
    stop, stop', reports_endOfInput]
  obtain ⟨earlier, ended, failed, ordered⟩ := reports_failing table.kind? gs cause
  constructor
  · cases collected : collect table (segments table.kind? gs) with
    | error fault => exact .fault fault
    | ok found =>
        exact .ok ⟨rfl, rfl, ⟨earlier, ended, failed⟩,
          fun _ => getLast?_of_lastSighting? collected, ordered⟩
  · intro d reported
    obtain ⟨p, last, hp⟩ := Option.bind_eq_some_iff.mp reported
    obtain ⟨ps, concat⟩ := List.getLast?_eq_some_iff.mp last
    exact ⟨p.last, getLast?_of_concat concat, Segment.last_of_diagnostic? concat hp⟩

/-- A number that is not finished, and a character that is reported after the failure it is met
with. -/
theorem ofSource_failing_dot :
    (∃ failed, Tokenization.ofSource
        (stopping [⟨'3', ⟨1, 0⟩⟩, ⟨'.', ⟨1, 1⟩⟩] (.failure .notUtf8) []) .standard = .ok failed ∧
      failed.tokens.map Token.sighting = [⟨"3.", .floatLiteral, 1, 0, 1⟩] ∧
      failed.diagnostics = [⟨.sourceUnreadable "stream did not contain valid UTF-8", ⟨1, 1⟩⟩]) ∧
    ∃ failed, Tokenization.ofSource
        (stopping [⟨'#', ⟨1, 0⟩⟩, ⟨'.', ⟨1, 1⟩⟩] (.failure .notUtf8) []) .standard = .ok failed ∧
      failed.diagnostics = [⟨.illegalCharacter "#", ⟨1, 0⟩⟩,
        ⟨.sourceUnreadable "stream did not contain valid UTF-8", ⟨1, 1⟩⟩,
        ⟨.malformedLeadingDotLiteral ".", ⟨1, 1⟩⟩] := by
  constructor
  · obtain ⟨agree, -⟩ :=
      ofSource_failing [⟨'3', ⟨1, 0⟩⟩, ⟨'.', ⟨1, 1⟩⟩] .notUtf8 [] .standard
    have told : (Tokenization.ofSource (stopping [⟨'3', ⟨1, 0⟩⟩, ⟨'.', ⟨1, 1⟩⟩] .endOfInput [])
        .standard).map (fun ended => (ended.tokens.map Token.sighting, ended.diagnostics)) =
        .ok ([⟨"3.", .floatLiteral, 1, 0, 1⟩], []) := by decide +kernel
    obtain ⟨ended, first, tells⟩ := ok_of_map told
    obtain ⟨tokens, silent⟩ := Prod.mk.inj tells
    rw [first] at agree
    obtain ⟨failed, second, same, -, ⟨earlier, before, after⟩, -⟩ := agree.of_ok
    rw [silent, List.nil_eq, List.append_eq_nil_iff] at before
    obtain ⟨rfl, none⟩ := before
    rw [none] at after
    exact ⟨failed, second, by rw [same, tokens], after⟩
  · obtain ⟨agree, -⟩ :=
      ofSource_failing [⟨'#', ⟨1, 0⟩⟩, ⟨'.', ⟨1, 1⟩⟩] .notUtf8 [] .standard
    have told : (Tokenization.ofSource (stopping [⟨'#', ⟨1, 0⟩⟩, ⟨'.', ⟨1, 1⟩⟩] .endOfInput [])
        .standard).map (·.diagnostics) = .ok [⟨.illegalCharacter "#", ⟨1, 0⟩⟩,
          ⟨.malformedLeadingDotLiteral ".", ⟨1, 1⟩⟩] := by decide +kernel
    have last : lastReport? SymbolTable.standard.kind? [⟨'#', ⟨1, 0⟩⟩, ⟨'.', ⟨1, 1⟩⟩] =
        some ⟨.malformedLeadingDotLiteral ".", ⟨1, 1⟩⟩ := by decide +kernel
    obtain ⟨ended, first, tells⟩ := ok_of_map told
    rw [first] at agree
    obtain ⟨failed, second, -, -, ⟨earlier, before, after⟩, -⟩ := agree.of_ok
    rw [last] at before after
    obtain rfl : earlier = [⟨.illegalCharacter "#", ⟨1, 0⟩⟩] :=
      List.append_cancel_right (before.symm.trans tells)
    exact ⟨failed, second, after⟩

end Lexis
