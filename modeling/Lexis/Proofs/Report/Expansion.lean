import Lexis.Proofs.Report.TabStops
import Mathlib.Order.Monotone.Basic

/-! Writing tabs out keeps the characters of a line apart and in order. -/

namespace Lexis.TabStops

section

variable {width : Nat} {source : List Char} {column : Nat} {c : Char}

theorem tab_notMem_spread : '\t' ∉ spread width source := by
  induction source generalizing width with
  | nil => exact List.not_mem_nil
  | cons d source ih =>
      by_cases tab : d = '\t'
      · rw [tab, spread_tab, List.mem_append, List.mem_replicate]
        rintro (⟨-, blank⟩ | later)
        · cases blank
        · exact ih later
      · rw [spread_cons_of_ne tab, List.mem_cons]
        rintro (first | later)
        · exact tab first.symm
        · exact ih later

theorem spread_singleton_tab (width : Nat) : ∃ n, spread width ['\t'] = List.replicate n ' ' ∧
    1 ≤ n ∧ n ≤ tabWidth ∧ tabWidth ∣ width + n := by
  have stop := nextStop_eq width
  have part : width % tabWidth < tabWidth := Nat.mod_lt _ (by decide)
  refine ⟨tabWidth - width % tabWidth, ?_, by omega, Nat.sub_le _ _, ?_⟩
  · rw [spread_tab, spread, List.append_nil, stop, Nat.add_sub_cancel_left]
  · rw [← stop]
    exact Nat.dvd_mul_left _ _

theorem spread_singleton_of_ne (h : c ≠ '\t') (width : Nat) : spread width [c] = [c] :=
  spread_cons_of_ne h width []

theorem length_spread_singleton_pos (width : Nat) (c : Char) : 0 < (spread width [c]).length := by
  by_cases tab : c = '\t'
  · obtain ⟨n, blanks, pos, -⟩ := spread_singleton_tab width
    rwa [tab, blanks, List.length_replicate]
  · rw [spread_singleton_of_ne tab]
    exact Nat.zero_lt_one

theorem shownAt_of_ge (beyond : source.length ≤ column) :
    shownAt source column = (spread 0 source).length + (column - source.length) :=
  if_neg (Nat.not_lt.mpr beyond)

/-- The column behind a line is shown behind all of it, so both ways to find a column agree
there. -/
theorem shownAt_of_le (within : column ≤ source.length) :
    shownAt source column = (spread 0 (source.take column)).length := by
  rcases Nat.lt_or_eq_of_le within with inside | rfl
  · exact shownAt_of_lt inside
  · rw [shownAt_of_ge (Nat.le_refl _), Nat.sub_self, Nat.add_zero, List.take_length]

theorem spread_take_succ (here : source[column]? = some c) : spread 0 (source.take (column + 1)) =
    spread 0 (source.take column) ++ spread (shownAt source column) [c] := by
  obtain ⟨inside, found⟩ := List.getElem?_eq_some_iff.mp here
  rw [List.take_succ_eq_append_getElem inside, found, spread_append, Nat.zero_add,
    shownAt_of_lt inside]

theorem shownAt_lt_succ (source : List Char) (column : Nat) :
    shownAt source column < shownAt source (column + 1) := by
  rcases Nat.lt_or_ge column source.length with inside | beyond
  · have here : source[column]? = some source[column] := List.getElem?_eq_getElem inside
    rw [shownAt_of_le (Nat.succ_le_of_lt inside), spread_take_succ here, List.length_append,
      ← shownAt_of_lt inside]
    exact Nat.lt_add_of_pos_right (length_spread_singleton_pos _ _)
  · rw [shownAt_of_ge beyond, shownAt_of_ge (Nat.le_succ_of_le beyond)]
    omega

/-- No two columns are shown at one place. -/
theorem shownAt_strictMono (source : List Char) : StrictMono (shownAt source) :=
  strictMono_nat_of_lt_succ (shownAt_lt_succ source)

end

/-- What comes to stand for each character of a line. -/
def parts (source : List Char) : List (List Char) :=
  source.mapIdx fun k c => spread (shownAt source k) [c]

theorem length_parts (source : List Char) : (parts source).length = source.length :=
  List.length_mapIdx

theorem getElem?_parts {source : List Char} {k : Nat} {c : Char} (here : source[k]? = some c) :
    (parts source)[k]? = some (spread (shownAt source k) [c]) := by
  rw [parts, List.getElem?_mapIdx, here, Option.map_some]

theorem flatten_take_parts {source : List Char} {n : Nat} (h : n ≤ source.length) :
    ((parts source).take n).flatten = spread 0 (source.take n) := by
  induction n with
  | zero => rfl
  | succ n ih =>
      have here : source[n]? = some source[n] := List.getElem?_eq_getElem h
      obtain ⟨inside, found⟩ := List.getElem?_eq_some_iff.mp (getElem?_parts here)
      rw [List.take_succ_eq_append_getElem inside, List.flatten_append, ih (Nat.le_of_succ_le h),
        found, List.flatten_singleton, spread_take_succ here]

theorem flatten_parts (source : List Char) : (parts source).flatten = spread 0 source := by
  have all := flatten_take_parts (Nat.le_refl source.length)
  rwa [List.take_length, ← length_parts, List.take_length] at all

theorem getElem?_spread_shownAt {source : List Char} {k : Nat} {c : Char}
    (here : source[k]? = some c) (tab : c ≠ '\t') :
    (spread 0 source)[shownAt source k]? = some c := by
  obtain ⟨inside, -⟩ := List.getElem?_eq_some_iff.mp here
  rw [spread_at here tab, shownAt_of_lt inside, List.getElem?_append_right (Nat.le_refl _),
    Nat.sub_self, List.getElem?_cons_zero]

theorem displayColumn_of_lt {source : List Char} {column : Nat}
    (fits : (expand source).chars.size + (column - source.length) < wordLimit) :
    (expand source).displayColumn column = .ok (shownAt source column) := by
  rw [size_chars_expand] at fits
  rw [displayColumn_expand, addWords_of_lt fits]
  rfl

/-- A line with its tabs written out holds no tab. Its characters follow one another, a tab as one
to four blanks up to a stop, and later columns stand later. -/
theorem expand_places {source : List Char} {column : Nat}
    (fits : (expand source).chars.size + (column - source.length) < wordLimit) :
    let text := (expand source).chars.toList
    let shown := (expand source).displayColumn
    '\t' ∉ text ∧
      (∃ parts : List (List Char), parts.flatten = text ∧ parts.length = source.length ∧
        ∀ k c, source[k]? = some c → ∃ start part, shown k = .ok start ∧ parts[k]? = some part ∧
          (parts.take k).flatten.length = start ∧
          (c ≠ '\t' → part = [c] ∧ text[start]? = some c) ∧
          (c = '\t' → ∃ n, part = List.replicate n ' ' ∧ 1 ≤ n ∧ n ≤ 4 ∧ 4 ∣ start + n)) ∧
      ∃ place, shown column = .ok place ∧
        (column ≤ source.length → place = (expand (source.take column)).chars.size) ∧
        (source.length ≤ column → place = text.length + (column - source.length)) ∧
        ∀ earlier < column, ∃ before, shown earlier = .ok before ∧ before < place := by
  intro text shown
  have whole : text = spread 0 source := toList_chars_expand source
  have returns {k : Nat} (near : k - source.length ≤ column - source.length) :
      shown k = .ok (shownAt source k) :=
    displayColumn_of_lt (Nat.lt_of_le_of_lt (Nat.add_le_add_left near _) fits)
  refine ⟨?_, ⟨parts source, ?_, length_parts source, ?_⟩, shownAt source column,
    returns (Nat.le_refl _), ?_, ?_, ?_⟩
  · rw [whole]
    exact tab_notMem_spread
  · rw [whole, flatten_parts]
  · intro k c here
    obtain ⟨inside, -⟩ := List.getElem?_eq_some_iff.mp here
    have near : k - source.length ≤ column - source.length := by omega
    refine ⟨shownAt source k, _, returns near, getElem?_parts here, ?_, ?_, ?_⟩
    · rw [flatten_take_parts (Nat.le_of_lt inside), shownAt_of_lt inside]
    · intro tab
      exact ⟨spread_singleton_of_ne tab _, whole ▸ getElem?_spread_shownAt here tab⟩
    · rintro rfl
      exact spread_singleton_tab _
  · intro within
    rw [shownAt_of_le within, size_chars_expand]
  · intro beyond
    rw [shownAt_of_ge beyond, whole]
  · intro earlier before
    have near : earlier - source.length ≤ column - source.length :=
      Nat.sub_le_sub_right (Nat.le_of_lt before) _
    exact ⟨_, returns near, shownAt_strictMono source before⟩

/-- Two tabs in a row, a character behind them, and a column past the end. -/
theorem expand_places_tabs :
    let source := "a\t\tb".toList
    let text := (expand source).chars.toList
    let shown := (expand source).displayColumn
    (expand source).chars.size + (6 - source.length) < wordLimit ∧ source[2]? = some '\t' ∧
      source[3]? = some 'b' ∧ source.length ≤ 6 ∧ 3 < 6 ∧ '\t' ∉ text ∧
      (∃ start n, shown 2 = .ok start ∧ 1 ≤ n ∧ n ≤ 4 ∧ 4 ∣ start + n) ∧
      (∃ start, shown 3 = .ok start ∧ text[start]? = some 'b') ∧
      shown 6 = .ok 11 ∧ ∃ before, shown 3 = .ok before ∧ before < 11 := by
  intro source text shown
  have fits : (expand source).chars.size + (6 - source.length) < wordLimit := by decide +kernel
  have width : text.length = 9 := by decide +kernel
  obtain ⟨noTab, ⟨parts, -, -, stands⟩, place, found, -, past, later⟩ := expand_places fits
  have beyond : source.length ≤ 6 := by decide
  obtain rfl : place = 11 := (past beyond).trans (congrArg (· + 2) width)
  have tab : source[2]? = some '\t' := by decide
  have letter : source[3]? = some 'b' := by decide
  obtain ⟨second, _, shown2, -, -, -, blanks⟩ := stands 2 '\t' tab
  obtain ⟨third, _, shown3, -, -, own, -⟩ := stands 3 'b' letter
  obtain ⟨n, -, pos, near, stop⟩ := blanks rfl
  exact ⟨fits, tab, letter, beyond, by decide, noTab, ⟨second, n, shown2, pos, near, stop⟩,
    ⟨third, shown3, (own (by decide)).2⟩, found, later 3 (by decide)⟩

end Lexis.TabStops
