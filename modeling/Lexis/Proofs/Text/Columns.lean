import Lexis.Proofs.Text.Placement
import Lexis.CharClass

/-! The places of a text, and what its lines show there. -/

namespace Lexis

/-- One place stands before another in the order of reading. -/
def Position.Before (p q : Position) : Prop :=
  p.line < q.line ∨ p.line = q.line ∧ p.column < q.column

theorem Position.Before.irrefl (p : Position) : ¬ p.Before p := by
  intro h
  rcases h with h | h <;> omega

theorem Position.Before.trans {p q r : Position} (h : p.Before q) (h' : q.Before r) :
    p.Before r := by
  unfold Before at *
  omega

theorem Position.before_after (p : Position) (c : Char) : p.Before (p.after c) := by
  unfold after
  split
  · exact .inl (Nat.lt_succ_self p.line)
  · exact .inr ⟨rfl, Nat.lt_succ_self p.column⟩

namespace Text

/-- The character that the lines of a text show at a place. -/
def charAt? (text : String) (place : Position) : Option Char :=
  (lineAt? text place.line).bind fun row => row.toList[place.column]?

theorem before_of_mem_placed {p : Position} {c : Char} {cs : List Char} {g : Glyph}
    (h : g ∈ placed (p.after c) cs) : p.Before g.position := by
  induction cs generalizing p c with
  | nil => cases h
  | cons d cs ih =>
      rcases List.mem_cons.mp h with rfl | later
      · exact p.before_after c
      · exact (p.before_after c).trans (ih later)

theorem pairwise_placed (p : Position) (cs : List Char) :
    (placed p cs).Pairwise fun g h => g.position.Before h.position := by
  induction cs generalizing p with
  | nil => exact .nil
  | cons c cs ih =>
      apply List.Pairwise.cons
      · intro g hg
        exact before_of_mem_placed hg
      · exact ih (p.after c)

theorem placed_of_newline_notMem {cs : List Char} (h : '\n' ∉ cs) (p : Position) :
    placed p cs = cs.mapIdx fun i c => ⟨c, p.line, p.column + i⟩ := by
  rcases List.eq_nil_or_concat cs with rfl | ⟨body, last, rfl⟩
  · rfl
  · apply placed_eq_mapIdx
    refine ⟨body, last, List.concat_eq_append, forall_not_ends.mpr ?_⟩
    intro inside
    exact h (by simp [inside])

theorem mem_placedLines {m n i : Nat} {c : Char} {lines : List (List Char)}
    (pieces : ∀ row ∈ lines, IsPiece (· == '\n') row) :
    ⟨c, n, i⟩ ∈ placedLines ⟨m, 0⟩ lines ↔
      ∃ k row, n = m + k ∧ lines[k]? = some row ∧ row[i]? = some c := by
  induction lines generalizing m with
  | nil => simp [placedLines]
  | cons row lines ih =>
      obtain ⟨first, later⟩ := List.forall_mem_cons.mp pieces
      have here : ⟨c, n, i⟩ ∈ placed ⟨m, 0⟩ row ↔ n = m ∧ row[i]? = some c := by
        rw [placed_eq_mapIdx first, List.mem_mapIdx]
        constructor
        · rintro ⟨j, hj, same⟩
          simp only [Glyph.mk.injEq, Position.mk.injEq, Nat.zero_add] at same
          obtain ⟨rfl, rfl, rfl⟩ := same
          exact ⟨rfl, List.getElem?_eq_getElem hj⟩
        · rintro ⟨rfl, found⟩
          obtain ⟨hi, rfl⟩ := List.getElem?_eq_some_iff.mp found
          exact ⟨i, hi, by simp⟩
      rw [placedLines, List.mem_append, here, ih later]
      constructor
      · rintro (⟨rfl, found⟩ | ⟨k, row', rfl, hline, found⟩)
        · exact ⟨0, row, rfl, rfl, found⟩
        · exact ⟨k + 1, row', Nat.add_right_comm m 1 k, hline, found⟩
      · rintro ⟨k, row', rfl, hline, found⟩
        cases k with
        | zero =>
            cases hline
            exact .inl ⟨rfl, found⟩
        | succ k => exact .inr ⟨k, row', (Nat.add_right_comm m 1 k).symm, hline, found⟩

theorem dropLineEnd_cases (row : List Char) :
    (∃ body, row = body ++ ['\r', '\n'] ∧ dropLineEnd row = body) ∨
      (∃ body, row = body ++ ['\n'] ∧ body.getLast? ≠ some '\r' ∧ dropLineEnd row = body) ∨
      row.getLast? ≠ some '\n' ∧ dropLineEnd row = row := by
  have turned := row.reverse_reverse
  unfold dropLineEnd
  split
  next rest h =>
    refine .inl ⟨rest.reverse, ?_, rfl⟩
    rw [← turned, h]
    simp
  next rest unreturned h =>
    refine .inr (.inl ⟨rest.reverse, ?_, ?_, rfl⟩)
    · rw [← turned, h, List.reverse_cons]
    · rw [List.getLast?_reverse]
      intro first
      obtain ⟨more, rfl⟩ := List.head?_eq_some_iff.mp first
      exact unreturned more rfl
  next unended =>
    refine .inr (.inr ⟨?_, rfl⟩)
    rw [← turned, List.getLast?_reverse]
    intro first
    obtain ⟨more, h⟩ := List.head?_eq_some_iff.mp first
    exact unended more h

theorem dropLineEnd_append (row : List Char) :
    ∃ ending, row = dropLineEnd row ++ ending ∧ ∀ c ∈ ending, CharClass.isBlank c = true := by
  rcases dropLineEnd_cases row with ⟨body, split, dropped⟩ | ⟨body, split, -, dropped⟩ | ⟨-, dropped⟩
  · exact ⟨['\r', '\n'], by rw [dropped, split], by simp [CharClass.isBlank]⟩
  · exact ⟨['\n'], by rw [dropped, split], by simp [CharClass.isBlank]⟩
  · exact ⟨[], by rw [dropped, List.append_nil], by simp⟩

theorem length_of_newline {row : List Char} (piece : IsPiece (· == '\n') row) {i : Nat}
    (h : row[i]? = some '\n') : i + 1 = row.length := by
  obtain ⟨body, last, rfl, hbody⟩ := piece
  obtain ⟨hi, found⟩ := List.getElem?_eq_some_iff.mp h
  rw [List.length_append, List.length_singleton] at hi ⊢
  rcases Nat.lt_or_ge i body.length with inside | beyond
  · rw [List.getElem_append_left inside] at found
    have plain := hbody _ (List.getElem_mem inside)
    rw [found] at plain
    cases plain
  · omega

/-- What a line does not show of itself is its line feed, and a carriage return right before
that. -/
theorem length_dropLineEnd_le_iff {row : List Char} (piece : IsPiece (· == '\n') row) {i : Nat}
    {c : Char} (h : row[i]? = some c) :
    (dropLineEnd row).length ≤ i ↔ c = '\n' ∨ c = '\r' ∧ row[i + 1]? = some '\n' := by
  obtain ⟨hi, -⟩ := List.getElem?_eq_some_iff.mp h
  have feed {j : Nat} (hj : row[j]? = some '\n') := length_of_newline piece hj
  rcases dropLineEnd_cases row with ⟨body, split, dropped⟩ | ⟨body, split, last, dropped⟩ |
    ⟨last, dropped⟩
  · rw [dropped]
    have length : row.length = body.length + 2 := by rw [split]; simp
    constructor
    · intro beyond
      rw [split, List.getElem?_append_right beyond] at h
      obtain rfl | rfl : i = body.length ∨ i = body.length + 1 := by omega
      · rw [Nat.sub_self] at h
        cases h
        right
        rw [split, List.getElem?_append_right (Nat.le_add_right _ 1), Nat.add_sub_cancel_left]
        exact ⟨rfl, rfl⟩
      · rw [Nat.add_sub_cancel_left] at h
        cases h
        exact .inl rfl
    · rintro (rfl | ⟨-, next⟩)
      · have := feed h
        omega
      · have := feed next
        omega
  · rw [dropped]
    have length : row.length = body.length + 1 := by rw [split]; simp
    constructor
    · intro beyond
      rw [split, List.getElem?_append_right beyond] at h
      obtain rfl : i = body.length := by omega
      rw [Nat.sub_self] at h
      cases h
      exact .inl rfl
    · rintro (rfl | ⟨rfl, next⟩)
      · have := feed h
        omega
      · have ended := feed next
        have inside : i < body.length := by omega
        rw [split, List.getElem?_append_left inside] at h
        rw [List.getLast?_eq_getElem?, show body.length - 1 = i by omega] at last
        exact absurd h last
  · rw [dropped]
    have unended {j : Nat} (hj : row[j]? = some '\n') : False := by
      have ended := feed hj
      rw [List.getLast?_eq_getElem?, show row.length - 1 = j by omega] at last
      exact last hj
    constructor
    · intro beyond
      omega
    · rintro (rfl | ⟨-, next⟩)
      · exact (unended h).elim
      · exact (unended next).elim

theorem newline_notMem_dropLineEnd {row : List Char} (piece : IsPiece (· == '\n') row) :
    '\n' ∉ dropLineEnd row := by
  intro newline
  obtain ⟨i, hi, found⟩ := List.getElem_of_mem newline
  obtain ⟨ending, split, -⟩ := dropLineEnd_append row
  have inside : row[i]? = some '\n' := by
    rw [split, List.getElem?_append_left hi, List.getElem?_eq_getElem hi, found]
  have beyond := (length_dropLineEnd_le_iff piece inside).mpr (.inl rfl)
  omega

theorem getElem?_of_dropLineEnd {row : List Char} {i : Nat} {c : Char}
    (h : (dropLineEnd row)[i]? = some c) : row[i]? = some c := by
  obtain ⟨ending, split, -⟩ := dropLineEnd_append row
  obtain ⟨hi, -⟩ := List.getElem?_eq_some_iff.mp h
  rw [split, List.getElem?_append_left hi, h]

theorem getElem?_dropLineEnd {row : List Char} {i : Nat} {c : Char} (h : row[i]? = some c)
    (hc : CharClass.isBlank c = false) : (dropLineEnd row)[i]? = some c := by
  obtain ⟨ending, split, blanks⟩ := dropLineEnd_append row
  rw [split] at h
  by_cases hi : i < (dropLineEnd row).length
  · rwa [List.getElem?_append_left hi] at h
  · rw [List.getElem?_append_right (by omega)] at h
    cases hc.symm.trans (blanks c (List.mem_of_getElem? h))

theorem lineAt?_succ (text : String) (k : Nat) :
    lineAt? text (k + 1) = ((cutAfter (· == '\n') text.toList)[k]?).map fun row =>
      String.ofList (dropLineEnd row) := by
  rw [lineAt?, numbered?, lines, List.getElem?_map]

theorem mem_placed_first {text : String} {n i : Nat} {c : Char} :
    ⟨c, n, i⟩ ∈ placed .first text.toList ↔
      ∃ k row, n = 1 + k ∧ (cutAfter (· == '\n') text.toList)[k]? = some row ∧
        row[i]? = some c := by
  rw [← placedLines_cutAfter]
  exact mem_placedLines fun row hline => isPiece_of_mem_cutAfter hline

theorem mem_placed_of_charAt? {text : String} {place : Position} {c : Char}
    (h : charAt? text place = some c) : ⟨c, place⟩ ∈ placed .first text.toList := by
  obtain ⟨n, i⟩ := place
  obtain ⟨shown, hshown, found⟩ := Option.bind_eq_some_iff.mp h
  cases n with
  | zero => cases hshown
  | succ k =>
      rw [lineAt?_succ] at hshown
      obtain ⟨row, hline, rfl⟩ := Option.map_eq_some_iff.mp hshown
      rw [String.toList_ofList] at found
      exact mem_placed_first.mpr ⟨k, row, Nat.add_comm k 1, hline, getElem?_of_dropLineEnd found⟩

/-- Every character of the text that is no blank is shown where it stands. -/
theorem charAt?_of_mem_placed {text : String} {place : Position} {c : Char}
    (h : ⟨c, place⟩ ∈ placed .first text.toList) (hc : CharClass.isBlank c = false) :
    charAt? text place = some c := by
  obtain ⟨n, i⟩ := place
  obtain ⟨k, row, rfl, hline, found⟩ := mem_placed_first.mp h
  rw [charAt?, Nat.add_comm 1 k, lineAt?_succ, hline, Option.map_some, Option.bind_some,
    String.toList_ofList]
  exact getElem?_dropLineEnd found hc

theorem dropLineEnd_of_newline_notMem {row : List Char} (h : '\n' ∉ row) :
    dropLineEnd row = row := by
  rcases dropLineEnd_cases row with ⟨body, split, -⟩ | ⟨body, split, -⟩ | ⟨-, same⟩
  · exact absurd (by simp [split]) h
  · exact absurd (by simp [split]) h
  · exact same

theorem lineAt?_one {text : String} (ne : text.toList ≠ []) (h : '\n' ∉ text.toList) :
    lineAt? text 1 = some text := by
  have row := cutAfter_append_of_none ne (forall_not_ends.mpr h) []
  rw [List.append_nil, cutAfter_nil, glue] at row
  rw [lineAt?_succ, row, List.getElem?_cons_zero, Option.map_some, dropLineEnd_of_newline_notMem h,
    String.ofList_toList]

theorem length_line_le {text row : String} {n : Nat} (h : lineAt? text n = some row) :
    row.length ≤ text.length := by
  cases n with
  | zero => cases h
  | succ k =>
      rw [lineAt?_succ] at h
      obtain ⟨piece, hpiece, rfl⟩ := Option.map_eq_some_iff.mp h
      obtain ⟨ending, split, -⟩ := dropLineEnd_append piece
      have shown := congrArg List.length split
      have whole := (List.sublist_flatten_of_mem (List.mem_of_getElem? hpiece)).length_le
      rw [flatten_cutAfter, String.length_toList] at whole
      rw [List.length_append] at shown
      rw [String.length_ofList]
      omega

theorem line_bounds {text row : String} {n : Nat} (h : lineAt? text n = some row) :
    1 ≤ n ∧ n ≤ (lines text).length := by
  cases n with
  | zero => cases h
  | succ k =>
      obtain ⟨hk, -⟩ := List.getElem?_eq_some_iff.mp h
      exact ⟨Nat.succ_pos k, hk⟩

end Text
end Lexis
