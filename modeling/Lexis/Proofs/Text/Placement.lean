import Lexis.Position
import Lexis.Proofs.Text.Lines

/-! Where the characters of a text stand. -/

namespace Lexis

/-- The place after a character: the next column, or the start of the next line. -/
def Position.after (p : Position) (c : Char) : Position :=
  if c = '\n' then ⟨p.line + 1, 0⟩ else ⟨p.line, p.column + 1⟩

def Position.past (p : Position) (cs : List Char) : Position := cs.foldl Position.after p

def Position.first : Position := ⟨1, 0⟩

namespace Text

/-- The characters of a text with their places, from a place on. -/
def placed : Position → List Char → List Glyph
  | _, [] => []
  | p, c :: cs => ⟨c, p⟩ :: placed (p.after c) cs

end Text

namespace Position

theorem after_newline (p : Position) : p.after '\n' = ⟨p.line + 1, 0⟩ := rfl

theorem after_of_ne {c : Char} (h : c ≠ '\n') (p : Position) :
    p.after c = ⟨p.line, p.column + 1⟩ := if_neg h

@[simp] theorem past_nil (p : Position) : p.past [] = p := rfl

@[simp] theorem past_cons (p : Position) (c : Char) (cs : List Char) :
    p.past (c :: cs) = (p.after c).past cs := rfl

theorem past_append (p : Position) (cs ds : List Char) :
    p.past (cs ++ ds) = (p.past cs).past ds := List.foldl_append

theorem past_line (p : Position) (cs : List Char) :
    (p.past cs).line = p.line + cs.count '\n' := by
  induction cs generalizing p with
  | nil => rfl
  | cons c cs ih =>
      rw [past_cons, ih]
      by_cases h : c = '\n'
      · subst h
        rw [after_newline, List.count_cons_self, Nat.add_right_comm]
        rfl
      · rw [after_of_ne h, List.count_cons_of_ne h]

theorem past_of_newline_notMem {cs : List Char} (h : '\n' ∉ cs) (p : Position) :
    p.past cs = ⟨p.line, p.column + cs.length⟩ := by
  induction cs generalizing p with
  | nil => rfl
  | cons c cs ih =>
      have first : c ≠ '\n' := fun newline => h (newline ▸ List.mem_cons_self)
      rw [past_cons, after_of_ne first, ih fun later => h (List.mem_cons_of_mem c later),
        List.length_cons, Nat.add_assoc, Nat.add_comm 1]

theorem past_column_le (p : Position) (cs : List Char) :
    (p.past cs).column ≤ p.column + cs.length := by
  induction cs generalizing p with
  | nil => exact Nat.le_refl _
  | cons c cs ih =>
      apply Nat.le_trans (ih (p.after c))
      rw [List.length_cons]
      unfold after
      split <;> simp only <;> omega

theorem past_line_end {body : List Char} (h : '\n' ∉ body) (p : Position) :
    p.past (body ++ ['\n']) = p.after '\n' := by
  have line := past_line p body
  rw [List.count_eq_zero_of_not_mem h] at line
  rw [past_append, past_cons, past_nil, after_newline, after_newline, line, Nat.add_zero]

theorem past_column {cs : List Char} (h : ∀ c ∈ cs.getLast?, c = '\n') (ne : cs ≠ [])
    (p : Position) : (p.past cs).column = 0 := by
  obtain ⟨body, last, rfl⟩ := (List.eq_nil_or_concat cs).resolve_left ne
  rw [List.concat_eq_append] at h ⊢
  obtain rfl := h last (by simp)
  rw [past_append, past_cons, past_nil, after_newline]

end Position

namespace Text

@[simp] theorem placed_nil (p : Position) : placed p [] = [] := rfl

@[simp] theorem placed_cons (p : Position) (c : Char) (cs : List Char) :
    placed p (c :: cs) = ⟨c, p⟩ :: placed (p.after c) cs := rfl

@[simp] theorem map_char_placed (p : Position) (cs : List Char) :
    (placed p cs).map Glyph.char = cs := by
  induction cs generalizing p with
  | nil => rfl
  | cons c cs ih => rw [placed_cons, List.map_cons, ih]

@[simp] theorem length_placed (p : Position) (cs : List Char) :
    (placed p cs).length = cs.length := by
  rw [← List.length_map Glyph.char, map_char_placed]

theorem placed_append (p : Position) (cs ds : List Char) :
    placed p (cs ++ ds) = placed p cs ++ placed (p.past cs) ds := by
  induction cs generalizing p with
  | nil => rfl
  | cons c cs ih =>
      rw [List.cons_append, placed_cons, ih, placed_cons, Position.past_cons, List.cons_append]

/-- The glyphs of a part of a text are that part, placed where the text before it ends. -/
theorem placed_eq_append {p : Position} {cs : List Char} {gs hs : List Glyph}
    (h : placed p cs = gs ++ hs) :
    gs = placed p (gs.map Glyph.char) ∧
      hs = placed (p.past (gs.map Glyph.char)) (hs.map Glyph.char) := by
  have chars : cs = gs.map Glyph.char ++ hs.map Glyph.char := by
    rw [← List.map_append, ← h, map_char_placed]
  rw [chars, placed_append] at h
  exact ⟨(List.append_inj_left h (by simp)).symm, (List.append_inj_right h (by simp)).symm⟩

theorem mem_placed {p : Position} {cs : List Char} {g : Glyph} (h : g ∈ placed p cs) :
    ∃ before rest, cs = before ++ g.char :: rest ∧ g.position = p.past before := by
  obtain ⟨before, rest, split⟩ := List.append_of_mem h
  obtain ⟨hbefore, hrest⟩ := placed_eq_append split
  refine ⟨before.map Glyph.char, rest.map Glyph.char, ?_, ?_⟩
  · rw [← map_char_placed p cs, split, List.map_append, List.map_cons]
  · rw [List.map_cons, placed_cons] at hrest
    exact congrArg Glyph.position (List.cons.inj hrest).1

theorem placed_eq_mapIdx {piece : List Char} (h : IsPiece (· == '\n') piece) (p : Position) :
    placed p piece = piece.mapIdx fun i c => ⟨c, p.line, p.column + i⟩ := by
  obtain ⟨body, last, rfl, hbody⟩ := h
  induction body generalizing p with
  | nil => rfl
  | cons c body ih =>
      obtain ⟨hc, hbody⟩ := List.forall_mem_cons.mp hbody
      have hne : c ≠ '\n' := by simpa using hc
      rw [List.cons_append, placed_cons, ih _ hbody, Position.after_of_ne hne, List.mapIdx_cons]
      simp only [Nat.add_assoc, Nat.add_comm 1, Nat.add_zero]

/-- Lines one below another; the first of them may start anywhere. -/
def placedLines : Position → List (List Char) → List Glyph
  | _, [] => []
  | p, line :: lines => placed p line ++ placedLines ⟨p.line + 1, 0⟩ lines

theorem placedLines_glue {c : Char} (h : c ≠ '\n') (p : Position) (lines : List (List Char)) :
    placedLines p (glue [c] lines) = ⟨c, p⟩ :: placedLines (p.after c) lines := by
  rw [Position.after_of_ne h]
  cases lines with
  | nil => rfl
  | cons line lines =>
      rw [glue, List.singleton_append, placedLines, placed_cons, Position.after_of_ne h]
      rfl

/-- Placing a text line by line is placing it as a whole. -/
theorem placedLines_cutAfter (p : Position) (cs : List Char) :
    placedLines p (cutAfter (· == '\n') cs) = placed p cs := by
  induction cs generalizing p with
  | nil => rfl
  | cons c cs ih =>
      by_cases h : c = '\n'
      · subst h
        rw [cutAfter_cons_of_ends (by decide), placedLines, ih]
        rfl
      · rw [cutAfter_cons_of_not_ends (by simpa using h), placedLines_glue h, ih, placed_cons]

end Text
end Lexis
