import Lexis.Proofs.Report.Rows
import Mathlib.Data.Nat.Digits.Lemmas

/-! The rows of a listing are aligned, and the lines can be read off them. -/

namespace Lexis

namespace Text

theorem length_toString {n : Nat} (pos : 0 < n) :
    (toString n).length = (Nat.digits 10 n).length := by
  rw [Nat.toString_eq_repr]
  apply Nat.le_antisymm
  · have some : 0 < (Nat.digits 10 n).length :=
      List.length_pos_iff.mpr (Nat.digits_ne_nil_iff_ne_zero.mpr (Nat.ne_of_gt pos))
    rw [Nat.length_repr_le_iff some]
    exact Nat.lt_base_pow_length_digits (by decide)
  · rw [Nat.digits_length_le_iff (by decide), ← Nat.length_repr_le_iff Nat.length_repr_pos]

end Text

namespace Listing

/-- A number in a column of some width, where it stands on the right, then a bar, and then a
line. -/
def IsRow (width number : Nat) (line : String) (row : List Char) : Prop :=
  ∃ blanks, blanks + (toString number).length = width ∧
    row = List.replicate blanks ' ' ++ (toString number).toList ++ [' ', '|', ' '] ++
      line.toList ++ ['\n']

theorem numberWidth_eq (lines : List String) :
    numberWidth lines = (Nat.digits 10 (max lines.length 1)).length :=
  Text.length_toString (Nat.lt_of_lt_of_le Nat.zero_lt_one (Nat.le_max_right _ _))

theorem length_number_le {lines : List String} {i : Nat} (h : i < lines.length) :
    (toString (i + 1)).length ≤ numberWidth lines := by
  rw [numberWidth_eq, Text.length_toString (Nat.succ_pos i)]
  exact Nat.le_length_digits_le 10 _ _ (Nat.le_trans h (Nat.le_max_left _ _))

section

variable {width number : Nat}

theorem isRow (short : (toString number).length ≤ width) (line : String) :
    IsRow width number line (row width number line).toList := by
  refine ⟨width - (toString number).length, Nat.sub_add_cancel short, ?_⟩
  simp [row, Text.toList_padLeft]

variable {line : String} {chars : List Char}

/-- What stands before the bar of a row is as long as in every row of that width, and has no bar. -/
theorem IsRow.split (h : IsRow width number line chars) : ∃ margin : List Char,
    margin.length = width ∧ '|' ∉ margin ∧
      chars = margin ++ [' ', '|', ' '] ++ line.toList ++ ['\n'] := by
  obtain ⟨blanks, length, rfl⟩ := h
  refine ⟨List.replicate blanks ' ' ++ (toString number).toList, ?_, ?_, rfl⟩
  · rw [List.length_append, List.length_replicate, String.length_toList, length]
  · rw [List.mem_append, List.mem_replicate]
    rintro (⟨-, blank⟩ | digit)
    · cases blank
    · exact Text.notMem_toString (by decide) number digit

theorem IsRow.idxOf_bar (h : IsRow width number line chars) : chars.idxOf '|' = width + 1 := by
  obtain ⟨margin, length, plain, rfl⟩ := h.split
  have front : '|' ∉ margin ++ [' '] := by simp [plain]
  have split : margin ++ [' ', '|', ' '] ++ line.toList ++ ['\n'] =
      (margin ++ [' ']) ++ '|' :: ' ' :: (line.toList ++ ['\n']) := by simp
  rw [split, Text.idxOf_of_notMem front, List.length_append, List.length_singleton, length]

theorem IsRow.line_eq (h : IsRow width number line chars) :
    String.ofList (chars.dropLast.drop (width + 3)) = line := by
  obtain ⟨margin, length, -, rfl⟩ := h.split
  have front : (margin ++ [' ', '|', ' ']).length = width + 3 := by
    rw [List.length_append, length]
    rfl
  rw [List.dropLast_concat, ← front, List.drop_left, String.ofList_toList]

end

def rows (text : String) : List (List Char) := Text.cutAfter (· == '\n') (listing text).toList

section

variable {text : String}

theorem length_rows (text : String) : (rows text).length = (Text.lines text).length := by
  rw [rows, cutAfter_listing, List.length_mapIdx]

theorem isRow_getElem {i : Nat} {line : String} (h : (Text.lines text)[i]? = some line) :
    ∃ chars, (rows text)[i]? = some chars ∧
      IsRow (numberWidth (Text.lines text)) (i + 1) line chars := by
  obtain ⟨inside, -⟩ := List.getElem?_eq_some_iff.mp h
  exact ⟨_, getElem?_listing h, isRow (length_number_le inside) line⟩

theorem isRow_of_mem {chars : List Char} (h : chars ∈ rows text) :
    ∃ number line, IsRow (numberWidth (Text.lines text)) number line chars := by
  obtain ⟨i, here⟩ := List.getElem?_of_mem h
  obtain ⟨inside, -⟩ := List.getElem?_eq_some_iff.mp here
  obtain ⟨chars', here', shape⟩ :=
    isRow_getElem (List.getElem?_eq_getElem (length_rows text ▸ inside))
  cases here.symm.trans here'
  exact ⟨_, _, shape⟩

theorem lines_of_rows (text : String) : (rows text).map (fun chars =>
    String.ofList (chars.dropLast.drop (numberWidth (Text.lines text) + 3))) = Text.lines text := by
  apply List.ext_getElem?
  intro i
  rw [List.getElem?_map]
  cases found : (Text.lines text)[i]? with
  | none =>
      have beyond : (rows text)[i]? = none := by
        rw [List.getElem?_eq_none_iff, length_rows]
        exact List.getElem?_eq_none_iff.mp found
      rw [beyond, Option.map_none]
  | some line =>
      obtain ⟨chars, here, shape⟩ := isRow_getElem found
      rw [here, Option.map_some, shape.line_eq]

end

/-- Nothing of the lines is lost, and they are all that a listing depends on. -/
theorem listing_eq_iff {text other : String} :
    listing text = listing other ↔ Text.lines text = Text.lines other := by
  constructor
  · intro same
    have sameRows : rows text = rows other := by rw [rows, same, rows]
    have count : (Text.lines text).length = (Text.lines other).length := by
      rw [← length_rows, ← length_rows, sameRows]
    have width : numberWidth (Text.lines text) = numberWidth (Text.lines other) := by
      rw [numberWidth, count, numberWidth]
    rw [← lines_of_rows text, ← lines_of_rows other, sameRows, width]
  · intro same
    rw [listing, same, listing]

/-- A listing has a row for each line, with all bars one below the other and the line behind its
bar. Only texts of the same lines share a listing. -/
theorem listing_aligned (text : String) :
    let lines := Text.lines text
    let width := (Nat.digits 10 (max lines.length 1)).length
    let rows := Text.cutAfter (· == '\n') (listing text).toList
    rows.flatten = (listing text).toList ∧
      rows.length = lines.length ∧
      (∀ i line, lines[i]? = some line → ∃ row, rows[i]? = some row ∧ '\n' ∉ row.dropLast ∧
        IsRow width (i + 1) line row) ∧
      (∀ row ∈ rows, row.idxOf '|' = width + 1) ∧
      rows.map (fun row => String.ofList (row.dropLast.drop (width + 3))) = lines ∧
      ∀ other, listing text = listing other ↔ lines = Text.lines other := by
  intro lines width rows
  have width_eq : numberWidth lines = width := numberWidth_eq lines
  rw [← width_eq]
  refine ⟨Text.flatten_cutAfter _ _, length_rows text, ?_, ?_, lines_of_rows text,
    fun other => listing_eq_iff⟩
  · intro i line found
    obtain ⟨row, here, shape⟩ := isRow_getElem found
    obtain ⟨body, last, rfl, unbroken⟩ :=
      Text.isPiece_of_mem_cutAfter (List.mem_of_getElem? here)
    refine ⟨_, here, ?_, shape⟩
    rw [List.dropLast_concat]
    exact Text.forall_not_ends.mp unbroken
  · intro row hrow
    obtain ⟨number, line, shape⟩ := isRow_of_mem hrow
    exact shape.idxOf_bar

/-- A line that is a bar, and one that looks like its row. -/
theorem listing_aligned_ten :
    let text := "|\n\n\n\n\n\n\n\n\n10 | b\r"
    let rows := Text.cutAfter (· == '\n') (listing text).toList
    (Text.lines text)[0]? = some "|" ∧ (Text.lines text)[9]? = some "10 | b\r" ∧
      ∃ first last, rows[0]? = some first ∧ rows[9]? = some last ∧ first ∈ rows ∧ last ∈ rows ∧
        IsRow 2 1 "|" first ∧ IsRow 2 10 "10 | b\r" last ∧
        first.idxOf '|' = 3 ∧ last.idxOf '|' = 3 := by
  intro text rows
  have lines : Text.lines text = ["|", "", "", "", "", "", "", "", "", "10 | b\r"] := by
    decide +kernel
  have width : (Nat.digits 10 (max (Text.lines text).length 1)).length = 2 := by
    rw [lines]
    decide
  obtain ⟨-, -, shapes, bars, -, -⟩ := listing_aligned text
  rw [width] at shapes bars
  have upper : (Text.lines text)[0]? = some "|" := by rw [lines]; rfl
  have lower : (Text.lines text)[9]? = some "10 | b\r" := by rw [lines]; rfl
  obtain ⟨first, hfirst, -, firstShape⟩ := shapes 0 "|" upper
  obtain ⟨last, hlast, -, lastShape⟩ := shapes 9 "10 | b\r" lower
  have firstMem := List.mem_of_getElem? hfirst
  have lastMem := List.mem_of_getElem? hlast
  exact ⟨upper, lower, first, last, hfirst, hlast, firstMem, lastMem, firstShape, lastShape,
    bars first firstMem, bars last lastMem⟩

end Listing
end Lexis
