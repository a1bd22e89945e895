import Lexis.Proofs.Report.Rows
import Lexis.Proofs.Report.TabStops
import Lexis.Report.Rendering

/-! A diagnostic as it is shown: when it can be shown, and what its caret points at. -/

namespace Lexis

open TabStops

namespace Text

theorem trimEnd_eq_nil {cs : List Char} :
    trimEnd cs = [] ↔ ∀ x ∈ cs, isWhiteSpace x = true := by
  rw [trimEnd, List.reverse_eq_nil_iff, List.dropWhile_eq_nil_iff]
  simp only [List.mem_reverse]

theorem trimEnd_append (xs ys : List Char) :
    trimEnd (xs ++ ys) = if trimEnd ys = [] then trimEnd xs else xs ++ trimEnd ys := by
  simp only [trimEnd, List.reverse_append, List.dropWhile_append, List.isEmpty_iff,
    List.reverse_eq_nil_iff]
  split
  · rfl
  · rw [List.reverse_append, List.reverse_reverse]

theorem trimEnd_split (cs : List Char) : ∃ trail, cs = trimEnd cs ++ trail ∧
    (∀ x ∈ trail, isWhiteSpace x = true) ∧ ∀ x ∈ (trimEnd cs).getLast?, isWhiteSpace x = false := by
  refine ⟨(cs.reverse.takeWhile isWhiteSpace).reverse, ?_, ?_, ?_⟩
  · rw [trimEnd, ← List.reverse_append, List.takeWhile_append_dropWhile, List.reverse_reverse]
  · intro x hx
    exact List.mem_takeWhile_imp (List.mem_reverse.mp hx)
  · intro x hx
    have head := List.head?_dropWhile_not isWhiteSpace cs.reverse
    rw [trimEnd, List.getLast?_reverse] at hx
    rw [Option.mem_def.mp hx] at head
    simpa using head

theorem lt_length_trimEnd_iff {xs ys : List Char} :
    xs.length < (trimEnd (xs ++ ys)).length ↔ ∃ y ∈ ys, isWhiteSpace y = false := by
  rw [trimEnd_append]
  by_cases white : trimEnd ys = []
  · obtain ⟨trail, split, -⟩ := trimEnd_split xs
    have shorter := congrArg List.length split
    rw [List.length_append] at shorter
    rw [if_pos white]
    constructor
    · intro longer
      omega
    · rintro ⟨y, hy, other⟩
      cases other.symm.trans (trimEnd_eq_nil.mp white y hy)
  · have some := List.length_pos_iff.mpr white
    rw [if_neg white, List.length_append]
    rw [trimEnd_eq_nil] at white
    push Not at white
    refine ⟨fun _ => ?_, fun _ => by omega⟩
    obtain ⟨y, hy, other⟩ := white
    exact ⟨y, hy, by simpa using other⟩

theorem toList_padLeft_singleton (fill c : Char) (width : Nat) :
    (padLeft fill width (String.singleton c)).toList = List.replicate (width - 1) fill ++ [c] := by
  rw [toList_padLeft, String.length_singleton, String.toList_singleton]

end Text

namespace Diagnostic

def number (d : Diagnostic) : List Char := (toString d.position.line).toList

def above (d : Diagnostic) (line : List Char) : List Char :=
  d.number ++ [' ', '|', ' '] ++ Text.trimEnd ((spread 0 line).dropWhile (· == ' '))

def below (d : Diagnostic) (line : List Char) : List Char :=
  List.replicate (d.number.length + 1) ' ' ++ ['|', ' '] ++
    List.replicate (caretAt line d.position.column) '-' ++ ['^']

def picture (d : Diagnostic) (file : String) (line : List Char) : String :=
  d.heading file ++ String.ofList (d.above line ++ '\n' :: (d.below line ++ ['\n']))

/-- The sum for a column past the end of the line, or that for the width of the caret, is no machine
word. -/
def Overflows (d : Diagnostic) (line : List Char) : Prop :=
  wordLimit ≤ (spread 0 line).length + (d.position.column - line.length) ∨
    wordLimit ≤ caretAt line d.position.column + 1

instance (d : Diagnostic) (line : List Char) : Decidable (d.Overflows line) :=
  inferInstanceAs (Decidable (_ ∨ _))

variable (d : Diagnostic) (file line : String)

theorem toList_margin : d.margin.toList = List.replicate (d.number.length + 1) ' ' ++ ['|'] :=
  Text.toList_padLeft_singleton ' ' '|' _

theorem pointer_eq (column : Nat) : pointer column =
    if wordLimit ≤ column + 1 then .error .sumTooLarge
    else if widthLimit < column + 1 then .error .widthTooLarge
    else .ok (Text.padLeft '-' (column + 1) "^") := by
  unfold pointer addWords
  by_cases far : wordLimit ≤ column + 1
  · rw [if_neg (Nat.not_lt.mpr far), if_pos far]
  · rw [if_pos (Nat.not_le.mp far), if_neg far]
    dsimp only
    by_cases wide : widthLimit < column + 1
    · rw [if_neg (Nat.not_le.mpr wide), if_pos wide]
    · rw [if_pos (Nat.not_lt.mp wide), if_neg wide]

/-- The rows of an excerpt, with the caret where the column is shown. -/
theorem excerpt_eq : d.excerpt line =
    (addWords (spread 0 line.toList).length (d.position.column - line.toList.length)).bind fun _ =>
      (pointer (caretAt line.toList d.position.column)).map fun caret =>
        toString d.position.line ++ " | " ++
          String.ofList (Text.trimEnd ((spread 0 line.toList).dropWhile (· == ' '))) ++ "\n" ++
          d.margin ++ " " ++ caret ++ "\n" := by
  unfold excerpt
  simp only [toList_chars_expand, displayColumn_expand]
  cases addWords (spread 0 line.toList).length (d.position.column - line.toList.length) <;> rfl

/-- A diagnostic is shown with its line, unless a number is too large. -/
theorem render_eq : d.render file (some line) =
    if d.Overflows line.toList then .error .sumTooLarge
    else if widthLimit < caretAt line.toList d.position.column + 1 then .error .widthTooLarge
    else .ok (d.picture file line.toList) := by
  change (d.excerpt line).map (d.heading file ++ ·) = _
  rw [excerpt_eq, pointer_eq]
  by_cases past : wordLimit ≤
      (spread 0 line.toList).length + (d.position.column - line.toList.length)
  · have overflows : d.Overflows line.toList := .inl past
    rw [addWords_of_le past, if_pos overflows]
    rfl
  rw [addWords_of_lt (Nat.not_le.mp past)]
  by_cases far : wordLimit ≤ caretAt line.toList d.position.column + 1
  · have overflows : d.Overflows line.toList := .inr far
    rw [if_pos far, if_pos overflows]
    rfl
  have fits : ¬ d.Overflows line.toList := not_or.mpr ⟨past, far⟩
  rw [if_neg far, if_neg fits]
  split
  · rfl
  · have caret : (Text.padLeft '-' (caretAt line.toList d.position.column + 1) "^").toList = _ :=
      Text.toList_padLeft_singleton '-' '^' _
    simp only [Except.bind, Except.map, picture, Except.ok.injEq, String.append_right_inj]
    rw [← String.toList_inj]
    simp [above, below, number, caret, toList_margin]

theorem render_eq_sumTooLarge :
    d.render file (some line) = .error .sumTooLarge ↔ d.Overflows line.toList := by
  rw [render_eq]
  split
  next large => simp [large]
  next fits => split <;> simp [fits]

theorem render_eq_widthTooLarge : d.render file (some line) = .error .widthTooLarge ↔
    ¬ d.Overflows line.toList ∧ widthLimit < caretAt line.toList d.position.column + 1 := by
  rw [render_eq]
  split
  next large => simp [large]
  next fits => split <;> simp_all

theorem render_eq_ok {out : String} : d.render file (some line) = .ok out ↔
    (¬ d.Overflows line.toList ∧ caretAt line.toList d.position.column + 1 ≤ widthLimit) ∧
      d.picture file line.toList = out := by
  rw [render_eq]
  split
  next large => simp [large]
  next fits =>
    split
    next wide => simp [Nat.not_le.mpr wide]
    next narrow => simp [fits, Nat.not_lt.mp narrow]

/-- A diagnostic cannot be shown with a line if a sum is no machine word or the caret stands behind
more than 65534 dashes. Otherwise it is shown. -/
theorem render_limits :
    let chars := line.toList
    let column := d.position.column
    let width := (spread 0 chars).length
    let blanks := ((spread 0 chars).takeWhile (· == ' ')).length
    let shown := if column < chars.length then (spread 0 (chars.take column)).length
      else width + (column - chars.length)
    let overflows := wordLimit ≤ width + (column - chars.length) ∨ wordLimit ≤ shown - blanks + 1
    ((d.render file (some line)).mapError Fault.message = .error "attempt to add with overflow" ↔
        overflows) ∧
      ((d.render file (some line)).mapError Fault.message =
          .error "Formatting argument out of range" ↔
        ¬ overflows ∧ 65535 < shown - blanks + 1) ∧
      ((∃ out, d.render file (some line) = .ok out) ↔
        ¬ overflows ∧ shown - blanks + 1 ≤ 65535) ∧
      ∃ out, d.render file none = .ok out := by
  intro chars column width blanks shown overflows
  refine ⟨?_, ?_, ?_, d.heading file, rfl⟩
  · exact (Fault.mapError_eq_iff .sumTooLarge).trans (d.render_eq_sumTooLarge file line)
  · exact (Fault.mapError_eq_iff .widthTooLarge).trans (d.render_eq_widthTooLarge file line)
  · simp only [render_eq_ok, exists_and_left, exists_eq', and_true]
    rfl

section

variable {d : Diagnostic} {line : List Char}

theorem bar_notMem_number : '|' ∉ d.number := Text.notMem_toString (by decide) _

theorem newline_notMem_above (h : '\n' ∉ line) : '\n' ∉ d.above line := by
  rw [above, List.mem_append, List.mem_append]
  rintro ((inNumber | inBar) | inText)
  · exact Text.notMem_toString (by decide) _ inNumber
  · simp at inBar
  · obtain ⟨trail, split, -⟩ := Text.trimEnd_split ((spread 0 line).dropWhile (· == ' '))
    have kept : '\n' ∈ (spread 0 line).dropWhile (· == ' ') :=
      split ▸ List.mem_append_left trail inText
    rcases mem_of_mem_spread ((List.dropWhile_sublist _).subset kept) with own | blank
    · exact h own
    · cases blank

theorem newline_notMem_below : '\n' ∉ d.below line := by
  simp [below, List.mem_replicate]

theorem cutAfter_picture (h : '\n' ∉ line) (file : String) :
    ∃ front, Text.cutAfter (· == '\n') (d.picture file line).toList =
      front ++ [d.above line ++ ['\n'], d.below line ++ ['\n']] := by
  have ended : ∀ x ∈ (d.heading file).toList.getLast?, (x == '\n') = true := by
    have feed : "\n".toList = ['\n'] := by decide
    rw [heading, String.toList_append, feed, List.getLast?_concat]
    simp
  refine ⟨Text.cutAfter (· == '\n') (d.heading file).toList, ?_⟩
  rw [picture, String.toList_append, String.toList_ofList, Text.cutAfter_append_of_ended ended,
    Text.cutAfter_append_ends (Text.forall_not_ends.mpr (newline_notMem_above h)) (by decide),
    Text.cutAfter_append_ends (Text.forall_not_ends.mpr newline_notMem_below) (by decide)]
  rfl

theorem idxOf_bar_above : (d.above line).idxOf '|' = d.number.length + 1 := by
  have front : '|' ∉ d.number ++ [' '] := by simp [bar_notMem_number]
  have split : d.above line = (d.number ++ [' ']) ++
      '|' :: ' ' :: Text.trimEnd ((spread 0 line).dropWhile (· == ' ')) := by simp [above]
  rw [split, Text.idxOf_of_notMem front, List.length_append, List.length_singleton]

theorem idxOf_bar_below : (d.below line).idxOf '|' = d.number.length + 1 := by
  have front : '|' ∉ List.replicate (d.number.length + 1) ' ' := by simp [List.mem_replicate]
  have split : d.below line = List.replicate (d.number.length + 1) ' ' ++
      '|' :: ' ' :: (List.replicate (caretAt line d.position.column) '-' ++ ['^']) := by
    simp [below]
  rw [split, Text.idxOf_of_notMem front, List.length_replicate]

end

/-- What is shown of a line: its tabs are written out, and the blanks it begins with and the white
space at its end are left out. -/
def IsExcerpt (line text : List Char) : Prop :=
  ∃ blanks trail, spread 0 line = List.replicate blanks ' ' ++ text ++ trail ∧
    (text ++ trail).head? ≠ some ' ' ∧ (∀ x ∈ trail, Text.isWhiteSpace x = true) ∧
    ∀ x ∈ text.getLast?, Text.isWhiteSpace x = false

/-- A row with a numbered line, above a row whose caret stands under a column of it, or behind the
row if only white space is left there. -/
structure PointsAt (number source : List Char) (column : Nat) (above below : List Char) : Prop where
  upper : ∃ text, IsExcerpt source text ∧ above = number ++ [' ', '|', ' '] ++ text
  lower : ∃ dashes, below = List.replicate (number.length + 1) ' ' ++ ['|', ' '] ++
    List.replicate dashes '-' ++ ['^']
  bars : above.idxOf '|' = number.length + 1 ∧ below.idxOf '|' = number.length + 1
  under : (∃ x ∈ source.drop column, Text.isWhiteSpace x = false) →
    above[below.length - 1]? = source[column]?
  behind : (∀ x ∈ source.drop column, Text.isWhiteSpace x = true) → above.length ≤ below.length - 1

theorem isExcerpt_trimEnd (line : List Char) :
    IsExcerpt line (Text.trimEnd ((spread 0 line).dropWhile (· == ' '))) := by
  obtain ⟨trail, split, white, last⟩ :=
    Text.trimEnd_split ((spread 0 line).dropWhile (· == ' '))
  refine ⟨indent line, trail, ?_, ?_, white, last⟩
  · have blanks : List.replicate (indent line) ' ' = (spread 0 line).takeWhile (· == ' ') := by
      rw [eq_comm, List.eq_replicate_iff]
      refine ⟨rfl, ?_⟩
      intro x hx
      simpa using List.mem_takeWhile_imp hx
    rw [blanks, List.append_assoc, ← split, List.takeWhile_append_dropWhile]
  · rw [← split]
    intro first
    have other := List.head?_dropWhile_not (· == ' ') (spread 0 line)
    rw [first] at other
    simp at other

theorem pointsAt {d : Diagnostic} {source : List Char} {c : Char}
    (here : source[d.position.column]? = some c) (blank : c ≠ ' ') (tab : c ≠ '\t') :
    PointsAt d.number source d.position.column (d.above source) (d.below source) := by
  obtain ⟨lead, rest, kept, column, white⟩ := dropWhile_spread here blank tab
  have caret : (d.below source).length - 1 = (d.number ++ [' ', '|', ' ']).length + lead.length := by
    simp [below, column]
    omega
  have shorter : (Text.trimEnd (lead ++ c :: rest)).length ≤ lead.length ↔
      ∀ x ∈ source.drop d.position.column, Text.isWhiteSpace x = true := by
    rw [← Nat.not_lt, Text.lt_length_trimEnd_iff, ← white]
    simp
  refine ⟨⟨_, isExcerpt_trimEnd source, rfl⟩, ⟨_, rfl⟩, ⟨idxOf_bar_above, idxOf_bar_below⟩, ?_, ?_⟩
  · rintro ⟨x, hx, other⟩
    have longer : lead.length < (Text.trimEnd (lead ++ c :: rest)).length := by
      rw [← Nat.not_le, shorter]
      intro none
      cases other.symm.trans (none x hx)
    obtain ⟨trail, split, -⟩ := Text.trimEnd_split (lead ++ c :: rest)
    rw [caret, above, List.getElem?_append_right (Nat.le_add_right _ _), Nat.add_sub_cancel_left,
      kept, here, ← List.getElem?_append_left longer, ← split,
      List.getElem?_append_right (Nat.le_refl _), Nat.sub_self]
    rfl
  · intro none
    rw [caret, above, kept, List.length_append]
    exact Nat.add_le_add_left (shorter.mpr none) _

/-- The last two rows of a diagnostic show the line, and a caret under the character that its column
means, if that is no blank. -/
theorem render_points {d : Diagnostic} {file line out : String} {c : Char}
    (unbroken : '\n' ∉ line.toList) (here : line.toList[d.position.column]? = some c)
    (blank : c ≠ ' ') (tab : c ≠ '\t') (shown : d.render file (some line) = .ok out) :
    ∃ front above below,
      Text.cutAfter (· == '\n') out.toList = front ++ [above ++ ['\n'], below ++ ['\n']] ∧
      PointsAt (toString d.position.line).toList line.toList d.position.column above below := by
  obtain ⟨-, rfl⟩ := (d.render_eq_ok file line).mp shown
  obtain ⟨front, rows⟩ := cutAfter_picture (d := d) unbroken file
  exact ⟨front, _, _, rows, pointsAt here blank tab⟩

/-- A tab as indentation, one before the character, and white space of two kinds at the end. -/
theorem render_points_tabs :
    let d : Diagnostic := ⟨.illegalCharacter "@", ⟨12, 3⟩⟩
    let line := "\tb\t@ c\t\xa0"
    let out := "Error: IllegalCharacter\n-> a.src\n   |\n12 | b   @ c\n   | ----^\n"
    '\n' ∉ line.toList ∧ line.toList[d.position.column]? = some '@' ∧ '@' ≠ ' ' ∧ '@' ≠ '\t' ∧
      d.render "a.src" (some line) = .ok out ∧ ∃ front above below,
        Text.cutAfter (· == '\n') out.toList = front ++ [above ++ ['\n'], below ++ ['\n']] ∧
        PointsAt (toString d.position.line).toList line.toList d.position.column above below := by
  intro d line out
  have unbroken : '\n' ∉ line.toList := by decide
  have shown : d.render "a.src" (some line) = .ok out := by decide +kernel
  have here : line.toList[d.position.column]? = some '@' := by decide
  have blank : '@' ≠ ' ' := by decide
  have tab : '@' ≠ '\t' := by decide
  exact ⟨unbroken, here, blank, tab, shown, render_points unbroken here blank tab shown⟩

end Diagnostic
end Lexis
