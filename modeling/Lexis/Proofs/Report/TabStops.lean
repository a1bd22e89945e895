import Lexis.Proofs.Fault
import Lexis.Report.TabStops
import Lexis.Text.WhiteSpace
import Mathlib.Data.List.Induction

/-! A line with its tabs written out: what comes to stand where. -/

namespace Lexis.TabStops

def nextStop (width : Nat) : Nat := (width / tabWidth + 1) * tabWidth

/-- The characters of a line that goes on at a width, with each tab as blanks up to the next
stop. -/
def spread : Nat → List Char → List Char
  | _, [] => []
  | width, c :: cs =>
    if c = '\t' then List.replicate (nextStop width - width) ' ' ++ spread (nextStop width) cs
    else c :: spread (width + 1) cs

/-- Where a column of a line is shown: behind the characters before it, or as far past the end as it
is in the line. -/
def shownAt (line : List Char) (column : Nat) : Nat :=
  if column < line.length then (spread 0 (line.take column)).length
  else (spread 0 line).length + (column - line.length)

def indent (line : List Char) : Nat := ((spread 0 line).takeWhile (· == ' ')).length

/-- Where the caret stands below a column of a line: the indentation is not shown. -/
def caretAt (line : List Char) (column : Nat) : Nat := shownAt line column - indent line

theorem shownAt_of_lt {line : List Char} {column : Nat} (inside : column < line.length) :
    shownAt line column = (spread 0 (line.take column)).length := if_pos inside

theorem nextStop_eq (width : Nat) : nextStop width = width + (tabWidth - width % tabWidth) := by
  unfold nextStop tabWidth
  omega

section

variable {width : Nat} {c : Char} {cs : List Char}

theorem spread_tab (width : Nat) (cs : List Char) : spread width ('\t' :: cs) =
    List.replicate (nextStop width - width) ' ' ++ spread (nextStop width) cs := if_pos rfl

theorem spread_cons_of_ne (h : c ≠ '\t') (width : Nat) (cs : List Char) :
    spread width (c :: cs) = c :: spread (width + 1) cs := if_neg h

theorem spread_append (width : Nat) (cs ds : List Char) : spread width (cs ++ ds) =
    spread width cs ++ spread (width + (spread width cs).length) ds := by
  induction cs generalizing width with
  | nil => rfl
  | cons c cs ih =>
      by_cases tab : c = '\t'
      · subst tab
        have stop : width + (nextStop width - width) = nextStop width := by
          rw [nextStop_eq, Nat.add_sub_cancel_left]
        rw [List.cons_append, spread_tab, spread_tab, ih, List.length_append,
          List.length_replicate, ← Nat.add_assoc, stop, List.append_assoc]
      · rw [List.cons_append, spread_cons_of_ne tab, spread_cons_of_ne tab, ih, List.length_cons,
          Nat.add_right_comm, Nat.add_assoc, List.cons_append]

theorem mod_add_length_spread_le (width : Nat) (ne : cs ≠ []) :
    width % tabWidth + (spread width cs).length ≤ tabWidth * cs.length := by
  induction cs generalizing width with
  | nil => exact absurd rfl ne
  | cons c cs ih =>
      by_cases tab : c = '\t'
      · have stop := nextStop_eq width
        rw [tab, spread_tab, List.length_append, List.length_replicate, List.length_cons]
        cases cs with
        | nil =>
            rw [spread, List.length_nil]
            unfold tabWidth at *
            omega
        | cons d cs =>
            have later := ih (nextStop width) (List.cons_ne_nil d cs)
            unfold tabWidth at *
            omega
      · rw [spread_cons_of_ne tab, List.length_cons, List.length_cons]
        cases cs with
        | nil =>
            rw [spread, List.length_nil]
            unfold tabWidth
            omega
        | cons d cs =>
            have later := ih (width + 1) (List.cons_ne_nil d cs)
            unfold tabWidth at *
            omega

theorem length_spread_le (width : Nat) (cs : List Char) :
    (spread width cs).length ≤ tabWidth * cs.length := by
  cases cs with
  | nil => exact Nat.zero_le _
  | cons c cs =>
      exact Nat.le_of_add_left_le (mod_add_length_spread_le width (List.cons_ne_nil c cs))

theorem mod_add_length_spread_tabs (width n : Nat) : width % tabWidth +
    (spread width (List.replicate (n + 1) '\t')).length = tabWidth * (n + 1) := by
  -- Only the first tab may begin between two stops; from there on each one is full.
  induction n generalizing width with
  | zero =>
      have stop := nextStop_eq width
      rw [List.replicate_one, spread_tab, List.length_append, List.length_replicate, spread,
        List.length_nil]
      unfold tabWidth at *
      omega
  | succ n ih =>
      have stop := nextStop_eq width
      have later := ih (nextStop width)
      rw [List.replicate_succ, spread_tab, List.length_append, List.length_replicate]
      unfold tabWidth at *
      omega

theorem mem_of_mem_spread (h : c ∈ spread width cs) : c ∈ cs ∨ c = ' ' := by
  induction cs generalizing width with
  | nil => cases h
  | cons d cs ih =>
      by_cases tab : d = '\t'
      · subst tab
        rw [spread_tab, List.mem_append, List.mem_replicate] at h
        rcases h with ⟨-, blank⟩ | later
        · exact .inr blank
        · exact (ih later).imp_left (List.mem_cons_of_mem _)
      · rw [spread_cons_of_ne tab, List.mem_cons] at h
        rcases h with rfl | later
        · exact .inl List.mem_cons_self
        · exact (ih later).imp_left (List.mem_cons_of_mem _)

theorem mem_spread_of_ne (h : c ∈ cs) (tab : c ≠ '\t') : c ∈ spread width cs := by
  induction cs generalizing width with
  | nil => cases h
  | cons d cs ih =>
      by_cases first : d = '\t'
      · subst first
        rw [spread_tab]
        exact List.mem_append_right _ (ih ((List.mem_cons.mp h).resolve_left tab))
      · rw [spread_cons_of_ne first]
        rcases List.mem_cons.mp h with rfl | later
        · exact List.mem_cons_self
        · exact List.mem_cons_of_mem _ (ih later)

theorem whiteSpace_spread : (∀ x ∈ spread width cs, Text.isWhiteSpace x = true) ↔
    ∀ x ∈ cs, Text.isWhiteSpace x = true := by
  constructor
  · intro h x hx
    by_cases tab : x = '\t'
    · rw [tab]
      decide
    · exact h x (mem_spread_of_ne hx tab)
  · intro h x hx
    rcases mem_of_mem_spread hx with own | rfl
    · exact h x own
    · decide

end

theorem spread_at {source : List Char} {column : Nat} {c : Char} (here : source[column]? = some c)
    (tab : c ≠ '\t') : spread 0 source = spread 0 (source.take column) ++
      c :: spread (shownAt source column + 1) (source.drop (column + 1)) := by
  obtain ⟨inside, found⟩ := List.getElem?_eq_some_iff.mp here
  have back : source.drop column = c :: source.drop (column + 1) := by
    rw [List.drop_eq_getElem_cons inside, found]
  conv_lhs => rw [← List.take_append_drop column source, back]
  rw [spread_append, Nat.zero_add, spread_cons_of_ne tab, shownAt_of_lt inside]

/-- A character that is no blank stands where the caret of its column does, behind the characters
before it as far as they are shown. -/
theorem dropWhile_spread {source : List Char} {column : Nat} {c : Char}
    (here : source[column]? = some c) (blank : c ≠ ' ') (tab : c ≠ '\t') :
    ∃ lead rest, (spread 0 source).dropWhile (· == ' ') = lead ++ c :: rest ∧
      lead.length = caretAt source column ∧
      ((∀ x ∈ c :: rest, Text.isWhiteSpace x = true) ↔
        ∀ x ∈ source.drop column, Text.isWhiteSpace x = true) := by
  obtain ⟨inside, found⟩ := List.getElem?_eq_some_iff.mp here
  have whole := spread_at here tab
  have dropped : (spread 0 source).dropWhile (· == ' ') =
      (spread 0 (source.take column)).dropWhile (· == ' ') ++
        c :: spread (shownAt source column + 1) (source.drop (column + 1)) := by
    rw [whole, List.dropWhile_append, List.dropWhile_cons_of_neg (by simpa using blank)]
    split
    next none => rw [List.isEmpty_iff.mp none, List.nil_append]
    next => rfl
  refine ⟨_, _, dropped, ?_, ?_⟩
  · have split := congrArg List.length
      (List.takeWhile_append_dropWhile (p := (· == ' ')) (l := spread 0 source))
    rw [List.length_append, dropped, whole, List.length_append, List.length_append] at split
    rw [caretAt, indent, whole]
    have column := shownAt_of_lt inside
    omega
  · rw [List.drop_eq_getElem_cons inside, found, List.forall_mem_cons, List.forall_mem_cons,
      whiteSpace_spread]

theorem shownAt_le {line : List Char} {column : Nat} (inside : column < line.length) :
    shownAt line column ≤ tabWidth * column := by
  have far := length_spread_le 0 (line.take column)
  rwa [List.length_take_of_le (Nat.le_of_lt inside), ← shownAt_of_lt inside] at far

theorem caretAt_le {line : List Char} {column : Nat} (inside : column < line.length)
    (later : 2 ≤ column) : caretAt line column ≤ tabWidth * (column - 1) := by
  obtain ⟨k, rfl⟩ := Nat.exists_eq_add_of_le' later
  obtain ⟨c, cs, rfl⟩ := List.exists_cons_of_length_pos (Nat.zero_lt_of_lt inside)
  have length : (cs.take (k + 1)).length = k + 1 := by
    rw [List.length_cons] at inside
    rw [List.length_take]
    omega
  rw [caretAt, shownAt_of_lt inside, List.take_succ_cons]
  by_cases tab : c = '\t'
  · -- What the tab takes up, the indentation takes away.
    have far := length_spread_le (nextStop 0) (cs.take (k + 1))
    have blanks : tabWidth ≤ indent ('\t' :: cs) := by
      rw [indent, spread_tab, List.takeWhile_append_of_pos (by simp [List.mem_replicate]),
        List.length_append, List.length_replicate]
      exact Nat.le_add_right _ _
    rw [tab, spread_tab, List.length_append, List.length_replicate]
    rw [length] at far
    unfold nextStop tabWidth at *
    omega
  · -- The first character and the second one reach no further than the first stop.
    have some : cs.take (k + 1) ≠ [] := List.ne_nil_of_length_eq_add_one length
    have far := mod_add_length_spread_le (0 + 1) some
    rw [spread_cons_of_ne tab, List.length_cons]
    rw [length] at far
    unfold tabWidth at *
    omega

section

variable (e : Expansion) (c : Char)

theorem Expansion.toList_chars_put :
    (e.put c).chars.toList = e.chars.toList ++ spread e.chars.size [c] := by
  by_cases tab : c = '\t'
  · subst tab
    rw [spread_tab, nextStop_eq, Nat.add_sub_cancel_left]
    simp [put, spread]
  · rw [spread_cons_of_ne tab, put]
    · simp [spread]
    · exact tab

theorem Expansion.columns_put : (e.put c).columns = e.columns.push e.chars.size := by
  unfold put
  split <;> rfl

end

theorem expand_concat (line : List Char) (c : Char) :
    expand (line ++ [c]) = (expand line).put c := by
  rw [expand, List.foldl_append]
  rfl

theorem toList_chars_expand (line : List Char) : (expand line).chars.toList = spread 0 line := by
  induction line using List.reverseRecOn with
  | nil => rfl
  | append_singleton line c ih =>
      have size : (expand line).chars.size = (spread 0 line).length := by
        rw [← ih, Array.length_toList]
      rw [expand_concat, Expansion.toList_chars_put, ih, size, spread_append, Nat.zero_add]

theorem size_chars_expand (line : List Char) :
    (expand line).chars.size = (spread 0 line).length := by
  rw [← toList_chars_expand, Array.length_toList]

theorem columns_expand (line : List Char) : (expand line).columns.size = line.length ∧
    ∀ k < line.length, (expand line).columns[k]? = some (spread 0 (line.take k)).length := by
  induction line using List.reverseRecOn with
  | nil => exact ⟨rfl, nofun⟩
  | append_singleton line c ih =>
      obtain ⟨size, columns⟩ := ih
      have pushed : (expand (line ++ [c])).columns =
          (expand line).columns.push (spread 0 line).length := by
        rw [expand_concat, Expansion.columns_put, size_chars_expand]
      rw [pushed, Array.size_push, size, List.length_append, List.length_singleton]
      refine ⟨rfl, ?_⟩
      intro k hk
      rcases Nat.lt_succ_iff_lt_or_eq.mp hk with before | rfl
      · rw [Array.getElem?_push_lt (size ▸ before),
          List.take_append_of_le_length (Nat.le_of_lt before), ← columns k before,
          Array.getElem?_eq_getElem]
      · rw [← size, Array.getElem?_push_size, size, List.take_left]

/-- A column is shown where it belongs, unless one past the end of the line would be no machine
word. -/
theorem displayColumn_expand (line : List Char) (column : Nat) :
    (expand line).displayColumn column = (addWords (spread 0 line).length
      (column - line.length)).map fun _ => shownAt line column := by
  obtain ⟨size, columns⟩ := columns_expand line
  rw [Expansion.displayColumn, size_chars_expand, size]
  cases sum : addWords (spread 0 line).length (column - line.length) with
  | error fault => rfl
  | ok past =>
      simp only [Except.map, shownAt]
      split
      next inside => rw [columns column inside, Option.getD_some]
      next beyond =>
        rw [Array.getElem?_eq_none (by omega), Option.getD_none, addWords_eq sum]

end Lexis.TabStops
