import Lexis.Proofs.Lexing.Coverage
import Lexis.Proofs.Lexing.Printing
import Lexis.Proofs.Report.Rendering

/-! Which diagnostics of a text can be shown with their lines. -/

namespace Lexis

open CharClass TabStops

/-- A tab that a line begins with is indentation, so four columns for each character would be one
character too far. -/
theorem TabStops.caretAt_lt {line : List Char} {column : Nat} (inside : column < line.length)
    (near : column ≤ 16384) : caretAt line column < 65535 := by
  -- Four columns for each character would be one too many, but a tab at the start is indentation.
  by_cases later : 2 ≤ column
  · have bound := caretAt_le inside later
    unfold tabWidth at bound
    omega
  · have bound := shownAt_le inside
    unfold caretAt tabWidth at *
    omega

namespace Diagnostic

variable {d : Diagnostic} {line : List Char}

theorem not_overflows (short : tabWidth * line.length < wordLimit)
    (inside : d.position.column < line.length) : ¬ d.Overflows line := by
  have width := length_spread_le 0 line
  have column := shownAt_le inside
  unfold Overflows caretAt tabWidth wordLimit at *
  omega

theorem render_of_inside {line : String} (short : tabWidth * line.toList.length < wordLimit)
    (inside : d.position.column < line.toList.length) (file : String) :
    d.render file (some line) =
      if caretAt line.toList d.position.column < 65535 then .ok (d.picture file line.toList)
      else .error .widthTooLarge := by
  have limit : widthLimit < caretAt line.toList d.position.column + 1 ↔
      ¬ caretAt line.toList d.position.column < 65535 := by
    rw [Nat.not_lt]
    exact Nat.lt_succ_iff
  rw [render_eq, if_neg (not_overflows short inside), if_congr limit rfl rfl, ite_not]

end Diagnostic

/-- The diagnostics of a text can be shown, as long as the caret stands behind fewer than 65535
dashes. That is so for all in the first 16385 columns of a line. -/
theorem tokenize_shows {table : SymbolTable} (scanned : table.Scanned) {text : String}
    (short : tabWidth * text.length < wordLimit) :
    ∃ t, tokenize text table = .ok t ∧ ∀ d ∈ t.diagnostics, ∃ line,
      Text.lineAt? text d.position.line = some line ∧ ∀ file,
        (d.render file (some line) =
          if caretAt line.toList d.position.column < 65535 then .ok (d.picture file line.toList)
          else .error .widthTooLarge) ∧
        (d.position.column ≤ 16384 → ∃ out, d.render file (some line) = .ok out) := by
  obtain ⟨t, ht⟩ := tokenize_returns scanned.follows
    (Nat.lt_of_le_of_lt (Nat.le_mul_of_pos_left _ (by decide)) short)
  refine ⟨t, ht, ?_⟩
  intro d hd
  obtain ⟨line, c, found, here⟩ := exists_char_of_tokenize scanned ht hd
  obtain ⟨inside, -⟩ := List.getElem?_eq_some_iff.mp here
  have narrow : tabWidth * line.toList.length < wordLimit := by
    rw [String.length_toList]
    exact Nat.lt_of_le_of_lt (Nat.mul_le_mul_left tabWidth (Text.length_line_le found)) short
  refine ⟨line, found, ?_⟩
  intro file
  have shown := Diagnostic.render_of_inside narrow inside file
  refine ⟨shown, ?_⟩
  intro near
  exact ⟨_, shown.trans (if_pos (caretAt_lt inside near))⟩

/-- A tab before the character that is reported. -/
theorem tokenize_shows_tab :
    let text := "a\t@"
    let d : Diagnostic := ⟨.illegalCharacter "@", 1, 2⟩
    SymbolTable.standard.Scanned ∧ tabWidth * text.length < wordLimit ∧
      ∃ t, tokenize text .standard = .ok t ∧ t.diagnostics = [d] ∧
        Text.lineAt? text d.position.line = some text ∧ d.render "abc" (some text) =
          .ok "Error: IllegalCharacter\n-> abc\n  |\n1 | a   @\n  | ----^\n" := by
  intro text d
  have short : tabWidth * text.length < wordLimit := by decide
  obtain ⟨t, ht, shows⟩ := tokenize_shows .standard short
  have told : (tokenize text .standard).map (·.diagnostics) = .ok [d] := by decide +kernel
  obtain ⟨_, same, diagnostics⟩ := ok_of_map told
  cases ht.symm.trans same
  obtain ⟨line, found, shown⟩ := shows d (diagnostics ▸ List.mem_singleton_self d)
  have whole : Text.lineAt? text d.position.line = some text := by decide
  cases found.symm.trans whole
  refine ⟨.standard, short, t, ht, diagnostics, found, ?_⟩
  rw [(shown "abc").1]
  decide +kernel

/-! The last column for which that is so: behind it there is a text with a diagnostic that cannot be
shown. -/

def hashes (n : Nat) : List Char := '#' :: (List.replicate n '\t' ++ ['#'])

theorem length_hashes (n : Nat) : (hashes n).length = n + 2 := by
  rw [hashes, List.length_cons, List.length_append, List.length_replicate, List.length_singleton]

theorem newline_notMem_hashes (n : Nat) : '\n' ∉ hashes n := by
  simp [hashes, List.mem_replicate]

theorem Lexeme.ne_hash {cs : List Char} {kind : Kind} : ¬ Lexeme ('#' :: cs) kind := by
  intro h
  have all : (Kind.fixed.all fun entry => entry.1.toList.head? != some '#') = true := by
    decide +kernel
  have other := List.all_eq_true.mp all _ (Kind.mem_fixed (h.bare (by decide)))
  simp at other

theorem reads_hash {p : Position} {rest : List Char} {ts : List Sighting} {ds : List Diagnostic}
    (h : Reads (p.after '#') rest ts ds) :
    Reads p ('#' :: rest) ts (⟨.illegalCharacter "#", p⟩ :: ds) := by
  refine .problem ?_ ?_ h
  · rintro (⟨c, hc, blank⟩ | ⟨more, slashes⟩)
    · cases hc
      cases blank
    · cases slashes
  · intro lexeme kind starts holds
    obtain ⟨c, cs, rfl⟩ := List.exists_cons_of_ne_nil holds.ne_nil
    obtain ⟨rfl, -⟩ := List.cons_prefix_cons.mp starts
    exact Lexeme.ne_hash holds

theorem reads_hashes (n : Nat) : Reads .first (hashes n) []
    [⟨.illegalCharacter "#", 1, 0⟩, ⟨.illegalCharacter "#", 1, n + 1⟩] := by
  have feed : '\n' ∉ List.replicate n '\t' := by simp [List.mem_replicate]
  have blanks : ∀ c ∈ List.replicate n '\t', isBlank c = true := by
    intro c hc
    rw [List.eq_of_mem_replicate hc]
    decide
  have place : (Position.first.after '#').past (List.replicate n '\t') = ⟨1, n + 1⟩ := by
    rw [Position.past_of_newline_notMem feed, List.length_replicate, Nat.add_comm n]
    rfl
  exact reads_hash (reads_blanks blanks (place ▸ reads_hash .done))

theorem caretAt_hashes (n : Nat) : caretAt (hashes (n + 1)) (n + 2) = tabWidth * (n + 1) := by
  have inside : n + 2 < (hashes (n + 1)).length := length_hashes (n + 1) ▸ Nat.lt_succ_self _
  have front : (hashes (n + 1)).take (n + 2) = '#' :: List.replicate (n + 1) '\t' := by
    rw [hashes, List.take_succ_cons, List.take_left' List.length_replicate]
  have before := mod_add_length_spread_tabs (0 + 1) n
  have text : '#' ≠ '\t' := by decide
  have indent : indent (hashes (n + 1)) = 0 := by
    rw [TabStops.indent, hashes, spread_cons_of_ne text]
    rfl
  rw [caretAt, indent, shownAt_of_lt inside, front, spread_cons_of_ne text, List.length_cons]
  unfold tabWidth at *
  omega

theorem tokenize_hashes {table : SymbolTable} (scanned : table.Scanned) {n : Nat}
    (short : n + 2 < wordLimit) :
    let text := String.ofList (hashes n)
    let d : Diagnostic := ⟨.illegalCharacter "#", 1, n + 1⟩
    ∃ t, tokenize text table = .ok t ∧ d ∈ t.diagnostics ∧
      Text.lineAt? text d.position.line = some text := by
  intro text d
  have length : text.length < wordLimit := by
    rwa [String.length_ofList, length_hashes]
  obtain ⟨t, ht⟩ := tokenize_returns scanned.follows length
  refine ⟨t, ht, ?_, ?_⟩
  · have reads := reads_hashes n
    rw [← String.toList_ofList (l := hashes n)] at reads
    rw [(sightings_of_tokenize scanned.follows ht).2]
    change d ∈ (segmentsFrom .first text.toList).filterMap Segment.diagnostic?
    rw [← reads.eq_segments.2]
    exact List.mem_cons_of_mem _ List.mem_cons_self
  · apply Text.lineAt?_one
    · rw [String.toList_ofList]
      exact List.cons_ne_nil _ _
    · rw [String.toList_ofList]
      exact newline_notMem_hashes n

/-- Two characters that begin nothing and the tabs between them. From 16384 tabs on, the second
cannot be shown. -/
theorem render_hashes {n : Nat} (far : 16384 ≤ n) (short : tabWidth * (n + 2) < wordLimit)
    (file : String) :
    Diagnostic.render ⟨.illegalCharacter "#", 1, n + 1⟩ file (some (String.ofList (hashes n))) =
      .error .widthTooLarge := by
  obtain ⟨k, rfl⟩ := Nat.exists_eq_add_of_le' (Nat.le_trans (by decide : 1 ≤ 16384) far)
  have narrow : tabWidth * (String.ofList (hashes (k + 1))).toList.length < wordLimit := by
    rwa [String.toList_ofList, length_hashes]
  have caret : ¬ tabWidth * (k + 1) < 65535 := by
    unfold tabWidth
    omega
  have inside : k + 2 < (String.ofList (hashes (k + 1))).toList.length := by
    rw [String.toList_ofList, length_hashes]
    exact Nat.lt_succ_self _
  rw [Diagnostic.render_of_inside narrow inside, String.toList_ofList]
  exact if_neg (caretAt_hashes k ▸ caret)

/-- The shortest such text. -/
theorem hashes_not_shown :
    let text := String.ofList ('#' :: (List.replicate 16384 '\t' ++ ['#']))
    let d : Diagnostic := ⟨.illegalCharacter "#", 1, 16385⟩
    ∃ t, tokenize text .standard = .ok t ∧ d ∈ t.diagnostics ∧
      Text.lineAt? text d.position.line = some text ∧
      ∀ file, d.render file (some text) = .error .widthTooLarge := by
  obtain ⟨t, ht, hd, line⟩ := tokenize_hashes .standard (n := 16384) (by decide)
  exact ⟨t, ht, hd, line, render_hashes (Nat.le_refl _) (by decide)⟩

end Lexis
