import Lexis.Proofs.Lexing.Boundary
import Lexis.Proofs.Lexing.Tokenize
import Mathlib.Data.List.Basic
import Mathlib.Data.Option.Basic

/-! Scanning goes line by line: what follows the end of a line is cut, placed and reported as if it
stood by itself, only further down. -/

namespace Lexis

open CharClass

variable {known : String → Option Kind} {g : Glyph} {gs rest : List Glyph} {p : Segment}

theorem Shape.newline_notMem {cs : List Char} {kind : Kind} (h : Shape cs kind) : '\n' ∉ cs := by
  intro newline
  rcases h.part_or_dot _ newline with part | dot
  · rw [isIdentifierPart_of_isBlank (by decide)] at part
    cases part
  · cases dot

theorem Segment.last_char_mem (p : Segment) : p.last.char ∈ p.chars :=
  List.mem_map_of_mem p.last_mem

theorem Cuts.newline_notMem (h : Cuts known g gs p rest) (opens : opensShape p.first.char = true) :
    '\n' ∉ p.chars := by
  cases h with
  | blank hg => exact absurd hg (not_blank_of_opensShape opens)
  | word hg run => exact (shape_word hg run.1).newline_notMem
  | integer hg run => exact (shape_integer hg run.1).newline_notMem
  | decimal hg hrun hdot part => exact (shape_decimal hg hrun hdot part.1).newline_notMem
  | fraction hg hne part => exact (shape_fraction hg hne part.1).newline_notMem
  | malformed hg =>
      intro newline
      cases List.mem_singleton.mp (hg ▸ newline : '\n' ∈ ['.'])
  | comment hg =>
      rw [show g.char = '/' from hg] at opens
      cases opens
  | pair bare => cases bare.2.symm.trans opens
  | single bare => cases bare.2.symm.trans opens
  | illegal bare => cases bare.2.symm.trans opens

theorem Cuts.brokenBy_of_newline (h : Cuts known g gs p rest) (newline : p.last.char = '\n')
    {x : Glyph} (below : x.position.line ≠ p.place.line) : p.BrokenBy known x := by
  refine ⟨fun _ => below, ?_, ?_⟩
  · intro opens
    exact absurd (newline ▸ p.last_char_mem) (h.newline_notMem opens)
  · intro alone bare
    rw [Segment.last, alone, List.getLastD_nil] at newline
    have blank := bare.1
    rw [newline] at blank
    cases blank

theorem Cuts.append (h : Cuts known g gs p rest) {hs : List Glyph}
    (ended : rest = [] → p.last.char = '\n' ∧ ∀ h ∈ hs.head?, h.position.line ≠ g.position.line) :
    Cuts known g (gs ++ hs) p (rest ++ hs) := by
  obtain ⟨first, more⟩ : p.first = g ∧ p.more ++ rest = gs := List.cons.inj h.glyphs_append
  have whole : Cuts known g (p.more ++ (rest ++ hs)) p (rest ++ hs) := by
    apply h.followed
    intro x hx
    cases rest with
    | cons y rest => exact .inl hx
    | nil =>
        obtain ⟨newline, below⟩ := ended rfl
        right
        apply h.brokenBy_of_newline newline
        rw [Segment.place, first]
        exact below x hx
  rwa [← List.append_assoc, more] at whole

/-- No segment reaches beyond the end of a line. -/
theorem segments_append {hs : List Glyph} (ended : ∀ g ∈ gs.getLast?, g.char = '\n')
    (below : ∀ g ∈ gs, ∀ h ∈ hs.head?, h.position.line ≠ g.position.line) :
    segments known (gs ++ hs) = segments known gs ++ segments known hs := by
  induction gs using segments_induction known with
  | nil => rw [segments_nil, List.nil_append, List.nil_append]
  | @step g gs p rest h ih =>
      have same := h.glyphs_append
      have cut : Cuts known g (gs ++ hs) p (rest ++ hs) := by
        refine h.append fun nil => ⟨?_, fun h hh => below g List.mem_cons_self h hh⟩
        apply ended
        rw [← same, nil, List.append_nil, p.getLast?_glyphs]
        rfl
      rw [List.cons_append, cut.segments_eq, h.segments_eq, List.cons_append]
      rw [← same] at ended below
      rw [ih]
      · intro g' hg'
        apply ended
        rw [List.getLast?_append, hg']
        rfl
      · exact fun g' hg' => below g' (List.mem_append_right _ hg')

/-! The same things elsewhere in a text. -/

namespace Glyph

def moveTo (place : Glyph → Position) (g : Glyph) : Glyph := ⟨g.char, place g⟩

@[simp] theorem map_char_moveTo (place : Glyph → Position) (gs : List Glyph) :
    (gs.map (moveTo place)).map Glyph.char = gs.map Glyph.char := by
  rw [List.map_map]
  rfl

/-- Characters share a line just when they did so before. -/
def KeepsLines (place : Glyph → Position) : Prop :=
  ∀ g h : Glyph, (place h).line = (place g).line ↔ h.position.line = g.position.line

end Glyph

def Segment.moveTo (place : Glyph → Position) (p : Segment) : Segment :=
  ⟨p.role, p.first.moveTo place, p.more.map (Glyph.moveTo place)⟩

section

variable {place : Glyph → Position}

theorem Stretch.moveTo {q q' : Glyph → Bool} {run : List Glyph}
    (same : ∀ g, q' (g.moveTo place) = q g) (h : Stretch q run rest) :
    Stretch q' (run.map (Glyph.moveTo place)) (rest.map (Glyph.moveTo place)) := by
  rw [Stretch, List.forall_mem_map, List.head?_map, Option.forall_mem_map]
  simp only [same]
  exact h

theorem Alone.moveTo (place : Glyph → Position) (h : Alone known g rest) :
    Alone known (g.moveTo place) (rest.map (Glyph.moveTo place)) := by
  rw [Alone, List.head?_map, Option.forall_mem_map]
  exact h

theorem Segment.shaped_moveTo (place : Glyph → Position) (kind : Kind) (first : Glyph)
    (more : List Glyph) : (shaped known kind first more).moveTo place =
      shaped known kind (first.moveTo place) (more.map (Glyph.moveTo place)) := by
  rw [shaped, shaped, ← List.map_cons, Glyph.map_char_moveTo]
  rfl

theorem Segment.glyphs_moveTo (place : Glyph → Position) (p : Segment) :
    (p.moveTo place).glyphs = p.glyphs.map (Glyph.moveTo place) := rfl

theorem Segment.spelling_moveTo (place : Glyph → Position) (p : Segment) :
    (p.moveTo place).spelling = p.spelling := by
  rw [spelling, spelling, chars, chars, glyphs_moveTo, Glyph.map_char_moveTo]

/-- Where characters stand decides nothing but places, as long as the same ones share a line. -/
theorem Cuts.moveTo (lines : Glyph.KeepsLines place) (h : Cuts known g gs p rest) :
    Cuts known (g.moveTo place) (gs.map (Glyph.moveTo place)) (p.moveTo place)
      (rest.map (Glyph.moveTo place)) := by
  have classes (q : Char → Bool) (g : Glyph) : ofClass q (g.moveTo place) = ofClass q g := rfl
  cases h with
  | blank hg => exact .blank hg
  | word hg run =>
      rw [List.map_append, Segment.shaped_moveTo]
      exact .word hg (run.moveTo (classes _))
  | integer hg run hdot =>
      rw [List.map_append, Segment.shaped_moveTo]
      refine .integer hg (run.moveTo (classes _)) ?_
      rw [List.head?_map, Option.forall_mem_map]
      exact hdot
  | decimal hg hrun hdot part =>
      rw [List.map_append, List.map_cons, List.map_append, Segment.shaped_moveTo, List.map_append,
        List.map_cons]
      refine .decimal hg ?_ hdot (part.moveTo (classes _))
      rw [List.forall_mem_map]
      exact hrun
  | fraction hg hne part =>
      rw [List.map_append, Segment.shaped_moveTo]
      exact .fraction hg (by simpa using hne) (part.moveTo (classes _))
  | malformed hg part => exact .malformed hg (part.moveTo (classes _))
  | comment hg hh body =>
      rw [List.map_cons, List.map_append]
      refine .comment hg hh (body.moveTo fun h => ?_)
      rw [onLine, onLine, Bool.beq_eq_decide_eq, Bool.beq_eq_decide_eq]
      exact decide_eq_decide.mpr (lines g h)
  | pair bare slashes hk => exact .pair bare slashes hk
  | single bare alone hk => exact .single bare (alone.moveTo place) hk
  | illegal bare alone hk => exact .illegal bare (alone.moveTo place) hk

theorem segments_moveTo (lines : Glyph.KeepsLines place) (gs : List Glyph) :
    segments known (gs.map (Glyph.moveTo place)) =
      (segments known gs).map (Segment.moveTo place) := by
  induction gs using segments_induction known with
  | nil => simp
  | step h ih => rw [List.map_cons, (h.moveTo lines).segments_eq, h.segments_eq, ih, List.map_cons]

end

/-! The same things further down in a text. -/

namespace Position

def down (n : Nat) (p : Position) : Position := ⟨p.line + n, p.column⟩

theorem down_after (n : Nat) (p : Position) (c : Char) :
    (p.down n).after c = (p.after c).down n := by
  by_cases h : c = '\n'
  · subst h
    simp only [after_newline, down, Nat.add_right_comm]
  · simp only [after_of_ne h, down]

end Position

def Glyph.down (n : Nat) (g : Glyph) : Glyph := ⟨g.char, g.position.down n⟩

def Segment.down (n : Nat) (p : Segment) : Segment :=
  ⟨p.role, p.first.down n, p.more.map (Glyph.down n)⟩

def Token.down (n : Nat) (t : Token) : Token := ⟨t.symbol, t.line + n, t.left, t.right⟩

def Diagnostic.down (n : Nat) (d : Diagnostic) : Diagnostic := ⟨d.problem, d.position.down n⟩

theorem Text.placed_down (n : Nat) (p : Position) (cs : List Char) :
    placed (p.down n) cs = (placed p cs).map (Glyph.down n) := by
  induction cs generalizing p with
  | nil => rfl
  | cons c cs ih => rw [placed_cons, placed_cons, Position.down_after, ih, List.map_cons]; rfl

theorem segments_down (n : Nat) (gs : List Glyph) :
    segments known (gs.map (Glyph.down n)) = (segments known gs).map (Segment.down n) :=
  segments_moveTo (fun _ _ => Nat.add_right_cancel_iff) gs

section

variable {a : List Char}

theorem Position.past_of_ended (ended : ∀ c ∈ a.getLast?, c = '\n') {p : Position}
    (start : p.column = 0) : p.past a = p.down (a.count '\n') := by
  cases a with
  | nil => rfl
  | cons c cs =>
      have line := past_line p (c :: cs)
      have column := past_column ended (by simp) p
      rw [down, start, ← line, ← column]

theorem Text.line_lt_past (ended : ∀ c ∈ a.getLast?, c = '\n') {p : Position} {g : Glyph}
    (h : g ∈ placed p a) : g.position.line < (p.past a).line := by
  obtain ⟨before, rest, rfl, hg⟩ := mem_placed h
  have last : '\n' ∈ g.char :: rest := by
    have final := ended ((g.char :: rest).getLast (by simp)) (by
      rw [List.getLast?_append, List.getLast?_eq_some_getLast (by simp)]
      rfl)
    rw [← final]
    exact List.getLast_mem _
  have counted := List.count_pos_iff.mpr last
  rw [hg, Position.past_line, Position.past_line, List.count_append]
  omega

theorem Text.segments_append (ended : ∀ c ∈ a.getLast?, c = '\n') (b : List Char) :
    Text.segments known (a ++ b) =
      Text.segments known a ++ (Text.segments known b).map (Segment.down (a.count '\n')) := by
  have next := Position.past_of_ended ended (p := .first) rfl
  rw [Text.segments, placed_append, Lexis.segments_append, next, placed_down, segments_down]
  · rfl
  · intro g hg
    apply ended
    rw [← map_char_placed .first a, List.getLast?_map, hg]
    rfl
  · intro g hg h hh
    have above := line_lt_past ended hg
    cases b with
    | nil => cases hh
    | cons c b =>
        cases hh
        exact above.ne'

end

theorem collect_append (table : SymbolTable) (ps qs : List Segment) :
    collect table (ps ++ qs) = (collect table ps).bind fun found =>
      (collect found.2 qs).map fun more => (found.1 ++ more.1, more.2) := by
  induction ps generalizing table with
  | nil =>
      simp only [List.nil_append, collect, Except.bind]
      cases collect table qs <;> rfl
  | cons p ps ih =>
      rw [List.cons_append]
      cases hp : p.kind? with
      | none => rw [collect_of_other hp, collect_of_other hp, ih]
      | some kind =>
          rw [collect_of_lexeme hp, collect_of_lexeme hp, ih]
          cases p.token (table.intern p.spelling kind).1 with
          | error fault => rfl
          | ok token =>
              simp only [Except.bind]
              cases collect (table.intern p.spelling kind).2 ps with
              | error fault => rfl
              | ok found =>
                  simp only [Except.map]
                  cases collect found.2 qs <;> rfl

theorem Segment.glyphs_down (n : Nat) (p : Segment) :
    (p.down n).glyphs = p.glyphs.map (Glyph.down n) := rfl

theorem Segment.spelling_down (n : Nat) (p : Segment) : (p.down n).spelling = p.spelling :=
  p.spelling_moveTo _

theorem Segment.token_down (n : Nat) (p : Segment) (symbol : Symbol) :
    (p.down n).token symbol = (p.token symbol).map (Token.down n) := by
  rw [token, token, glyphs_down, List.length_map]
  change (addWords p.place.column p.glyphs.length).map _ = _
  cases addWords p.place.column p.glyphs.length <;> rfl

theorem collect_down (n : Nat) (table : SymbolTable) (ps : List Segment) :
    collect table (ps.map (Segment.down n)) =
      (collect table ps).map fun found => (found.1.map (Token.down n), found.2) := by
  induction ps generalizing table with
  | nil => rfl
  | cons p ps ih =>
      rw [List.map_cons]
      have same : (p.down n).kind? = p.kind? := rfl
      cases hp : p.kind? with
      | none => rw [collect_of_other (same.trans hp), collect_of_other hp, ih]
      | some kind =>
          rw [collect_of_lexeme (same.trans hp), collect_of_lexeme hp, Segment.spelling_down,
            Segment.token_down, ih]
          cases p.token (table.intern p.spelling kind).1 with
          | error fault => rfl
          | ok token =>
              simp only [Except.bind, Except.map]
              cases collect (table.intern p.spelling kind).2 ps <;> rfl

theorem filterMap_diagnostic?_down (n : Nat) (ps : List Segment) :
    (ps.map (Segment.down n)).filterMap Segment.diagnostic? =
      (ps.filterMap Segment.diagnostic?).map (Diagnostic.down n) := by
  have one (p : Segment) : (p.down n).diagnostic? = p.diagnostic?.map (Diagnostic.down n) := by
    obtain ⟨role, first, more⟩ := p
    cases role <;> rfl
  rw [List.filterMap_map, List.map_filterMap]
  exact List.filterMap_congr fun p _ => one p

/-- What a text comes to when it follows so many lines. -/
def Tokenization.after (before : Tokenization) (n : Nat) (t : Tokenization) : Tokenization :=
  ⟨before.tokens ++ t.tokens.map (Token.down n),
    before.diagnostics ++ t.diagnostics.map (Diagnostic.down n), t.symbols⟩

/-- Scanning a text that goes on after the end of a line is scanning its two parts one after
another, with the second one further down. -/
theorem tokenize_append {table : SymbolTable} (scanned : table.Scanned) {a : String}
    (ended : ∀ c ∈ a.toList.getLast?, c = '\n') (b : String) :
    tokenize (a ++ b) table = (tokenize a table).bind (fun first =>
        (tokenize b first.symbols).map (first.after (a.toList.count '\n'))) ∧
      ((a ++ b).length < wordLimit → ∃ t, tokenize (a ++ b) table = .ok t) := by
  refine ⟨?_, tokenize_returns scanned.follows⟩
  have whole := tokenize_eq scanned.follows (a ++ b)
  have first := tokenize_eq scanned.follows a
  rw [String.toList_append, Text.segments_append ended, collect_append, List.filterMap_append,
    filterMap_diagnostic?_down] at whole
  rw [whole]
  cases found : collect table (Text.segments Kind.ofSpelling? a.toList) with
  | error fault =>
      rw [first, found]
      rfl
  | ok pair =>
      rw [found] at first
      have later := (scanned.ofSource first).follows
      rw [first]
      simp only [Except.map, Except.bind]
      rw [tokenize_eq later, collect_down]
      cases collect pair.2 (Text.segments Kind.ofSpelling? b.toList) <;> rfl

/-- Slashes that end one line and begin the next open no comment. The words are not ASCII. -/
theorem tokenize_append_slashes :
    SymbolTable.standard.Scanned ∧ (∀ c ∈ "größe /\n".toList.getLast?, c = '\n') ∧
      ∃ t, tokenize ("größe /\n" ++ "/ x²") .standard = .ok t ∧
        t.tokens = [⟨⟨51, "größe", .identifier⟩, 1, 0, 4⟩, ⟨⟨37, "/", .slash⟩, 1, 6, 6⟩,
          ⟨⟨37, "/", .slash⟩, 2, 0, 0⟩, ⟨⟨52, "x²", .identifier⟩, 2, 2, 3⟩] ∧
        t.diagnostics = [] := by
  have ended : ∀ c ∈ "größe /\n".toList.getLast?, c = '\n' := by simp
  have lines : "größe /\n".toList.count '\n' = 1 := by decide +kernel
  obtain ⟨composed, returns⟩ := tokenize_append .standard ended "/ x²"
  obtain ⟨t, done⟩ := returns (by decide +kernel)
  have parts : ((tokenize "größe /\n" .standard).bind fun first =>
        (tokenize "/ x²" first.symbols).map (first.after 1)).map
          (fun t => (t.tokens, t.diagnostics)) =
      .ok ([⟨⟨51, "größe", .identifier⟩, 1, 0, 4⟩, ⟨⟨37, "/", .slash⟩, 1, 6, 6⟩,
        ⟨⟨37, "/", .slash⟩, 2, 0, 0⟩, ⟨⟨52, "x²", .identifier⟩, 2, 2, 3⟩], []) := by
    decide +kernel
  rw [lines] at composed
  rw [← composed, done] at parts
  obtain ⟨tokens, diagnostics⟩ := Prod.mk.inj (Except.ok.inj parts)
  exact ⟨.standard, ended, t, done, tokens, diagnostics⟩

end Lexis
