import Lexis.Files
import Lexis.Proofs.Source.Reading
import Lexis.Proofs.Text.Columns
import Lexis.Report.Listing

/-! The lines of a file as its reader counts them, as they are looked up one by one, and as the rows
of a listing. -/

namespace Lexis

namespace Text

theorem idxOf_of_notMem {c : Char} {before after : List Char} (h : c ∉ before) :
    (before ++ c :: after).idxOf c = before.length := by
  rw [List.idxOf_append, if_neg h, List.idxOf_cons_self, Nat.zero_add]

theorem toList_padLeft (fill : Char) (width : Nat) (text : String) :
    (padLeft fill width text).toList =
      List.replicate (width - text.length) fill ++ text.toList := by
  rw [padLeft, String.toList_ofList, List.leftpad, String.length_toList]

theorem notMem_padLeft {fill c : Char} (other : c ≠ fill) {text : String} (h : c ∉ text.toList)
    (width : Nat) : c ∉ (padLeft fill width text).toList := by
  rw [toList_padLeft, List.mem_append, List.mem_replicate]
  rintro (⟨-, filled⟩ | own)
  · exact other filled
  · exact h own

theorem notMem_toString {c : Char} (h : c.isDigit = false) (n : Nat) : c ∉ (toString n).toList := by
  rw [Nat.toString_eq_repr, Nat.toList_repr]
  intro digit
  cases h.symm.trans (Nat.isDigit_of_mem_toDigits (by decide) (by decide) digit)

theorem newline_notMem_of_mem_lines {text line : String} (h : line ∈ lines text) :
    '\n' ∉ line.toList := by
  obtain ⟨row, hrow, rfl⟩ := List.mem_map.mp h
  rw [String.toList_ofList]
  exact newline_notMem_dropLineEnd (isPiece_of_mem_cutAfter hrow)

/-- A character of a text is part of the end of its line: the line feed, or a carriage return right
before the line feed. -/
def IsLineEnd (text : String) (g : Glyph) : Prop :=
  g.char = '\n' ∨ g.char = '\r' ∧
    ⟨'\n', g.position.line, g.position.column + 1⟩ ∈ placed .first text.toList

instance (text : String) (g : Glyph) : Decidable (IsLineEnd text g) :=
  inferInstanceAs (Decidable (_ ∨ _))

/-- The line of a character shows it in its column, unless the character belongs to the line's
end. -/
theorem lineAt?_of_mem_placed {text : String} {g : Glyph} (h : g ∈ placed .first text.toList) :
    ∃ line, lineAt? text g.position.line = some line ∧
      (IsLineEnd text g → line.length ≤ g.position.column) ∧
      (¬ IsLineEnd text g → line.toList[g.position.column]? = some g.char) := by
  obtain ⟨c, n, i⟩ := g
  obtain ⟨k, row, rfl, hrow, found⟩ := mem_placed_first.mp h
  have piece : IsPiece (· == '\n') row := isPiece_of_mem_cutAfter (List.mem_of_getElem? hrow)
  have next : ⟨'\n', 1 + k, i + 1⟩ ∈ placed .first text.toList ↔ row[i + 1]? = some '\n' := by
    rw [mem_placed_first]
    constructor
    · rintro ⟨k', row', same, hrow', feed⟩
      obtain rfl : k = k' := Nat.add_left_cancel same
      cases hrow.symm.trans hrow'
      exact feed
    · intro feed
      exact ⟨k, row, rfl, hrow, feed⟩
  have hidden : IsLineEnd text ⟨c, 1 + k, i⟩ ↔ (dropLineEnd row).length ≤ i := by
    rw [length_dropLineEnd_le_iff piece found, ← next]
    rfl
  refine ⟨String.ofList (dropLineEnd row), ?_, ?_⟩
  · rw [Nat.add_comm, lineAt?_succ, hrow, Option.map_some]
  · rw [hidden, String.length_ofList, String.toList_ofList, Nat.not_le]
    refine ⟨id, ?_⟩
    intro inside
    obtain ⟨ending, split, -⟩ := dropLineEnd_append row
    rw [split, List.getElem?_append_left inside] at found
    exact found

theorem lineAt?_eq_none {text : String} {n : Nat} :
    lineAt? text n = none ↔ n = 0 ∨ (lines text).length < n := by
  cases n with
  | zero => simp [lineAt?, numbered?]
  | succ k =>
      rw [lineAt?, numbered?, List.getElem?_eq_none_iff]
      omega

end Text

namespace Listing

theorem notMem_number {c : Char} (digit : c.isDigit = false) (blank : c ≠ ' ')
    (width number : Nat) : c ∉ (Text.padLeft ' ' width (toString number)).toList :=
  Text.notMem_padLeft blank (Text.notMem_toString digit number) width

theorem cutAfter_listing (text : String) :
    Text.cutAfter (· == '\n') (listing text).toList =
      (Text.lines text).mapIdx fun i line =>
        (row (numberWidth (Text.lines text)) (i + 1) line).toList := by
  have rows : (listing text).toList = ((Text.lines text).mapIdx fun i line =>
      (row (numberWidth (Text.lines text)) (i + 1) line).toList).flatten := by
    rw [listing, String.toList_join, List.flatMap_def]
    simp only [List.mapIdx_eq_zipIdx_map, List.map_map, Function.comp_def]
  rw [rows]
  apply Text.cutAfter_flatten
  intro piece hpiece
  obtain ⟨i, hi, rfl⟩ := List.mem_mapIdx.mp hpiece
  have number := notMem_number (c := '\n') (by decide) (by decide)
    (numberWidth (Text.lines text)) (i + 1)
  have line := Text.newline_notMem_of_mem_lines (List.getElem_mem hi)
  refine ⟨(Text.padLeft ' ' (numberWidth (Text.lines text)) (toString (i + 1)) ++ " | " ++
    (Text.lines text)[i]).toList, '\n', by simp [row], rfl, Text.forall_not_ends.mpr ?_⟩
  simp only [String.toList_append, List.mem_append]
  rintro ((inNumber | inBar) | inLine)
  · exact number inNumber
  · revert inBar
    decide
  · exact line inLine

theorem getElem?_listing {text line : String} {k : Nat}
    (h : Text.lineAt? text (k + 1) = some line) :
    (Text.cutAfter (· == '\n') (listing text).toList)[k]? =
      some (row (numberWidth (Text.lines text)) (k + 1) line).toList := by
  have found : (Text.lines text)[k]? = some line := h
  rw [cutAfter_listing, List.getElem?_mapIdx, found, Option.map_some]

end Listing

namespace LineReader

variable {text : String} {calls : List Request}

theorem delivered_ofString {g : Glyph} {r : LineReader}
    (h : ((ofString text).after calls).read = (.char g, r)) :
    g ∈ Text.placed .first text.toList ∧ r.place = g.position := by
  obtain ⟨passed, coming, split, stands⟩ := (standsAt_ofString text).after calls
  rcases stands.read with ⟨g', left, rfl, given, moved⟩ | ⟨given, -⟩
  · rw [h] at given moved
    cases given
    refine ⟨by rw [split]; simp, ?_⟩
    rw [moved.place, List.map_append, List.map_singleton, Outcome.lastPlace_concat]
    rfl
  · rw [h] at given
    cases given

/-- A reader that nobody closed says at the end of a text how many lines it has, and stays at
that. -/
theorem line_ofString {later : List Request} (never : .close ∉ calls)
    (ended : ((ofString text).after calls).read.1 = .endOfInput) :
    ((ofString text).after (calls ++ later)).line = (Text.lines text).length := by
  obtain ⟨passed, coming, split, stands⟩ := (standsAt_ofString text).after calls
  rcases stands.read with ⟨g, left, -, given, -⟩ | ⟨-, -, last⟩
  · cases given.symm.trans ended
  · have opened : ((ofString text).after calls).isClosed = false := by
      rw [isClosed_after never]
      exact (awaits_ofString text).isClosed
    obtain rfl : coming = [] := last opened
    -- Nothing is to come, so whatever is requested now, the reader goes over nothing.
    obtain ⟨passed', left', none, stays⟩ := stands.after later
    obtain ⟨rfl, rfl⟩ := List.append_eq_nil_iff.mp none.symm
    rw [List.append_nil] at split stays
    rw [after_append]
    change ((((ofString text).after calls).after later).place).line = _
    rw [stays.place, ← split, List.nil_append, Outcome.line_lastPlace, Text.lines, List.length_map]

end LineReader

namespace Files

variable {files : Files} {path : String} {bytes : List UInt8} {text : String}

theorem lineAt_of_decode? (opened : files path = .ok (.file bytes))
    (decoded : Text.decode? bytes = some text) (n : Nat) :
    files.lineAt path n = .ok (Text.lineAt? text n) := by
  rw [lineAt, Files.text, opened]
  simp only [Entry.text, decoded, Except.map]

/-- A reader, the listing and the lookup by number mean the same lines: every character that is
delivered is shown at its place, unless it ends its line. -/
theorem lines_agree (opened : files path = .ok (.file bytes))
    (decoded : Text.decode? bytes = some text) :
    let count := (Text.lines text).length
    let rows := Text.cutAfter (· == '\n') (listing text).toList
    (∀ calls g r, ((LineReader.ofBytes bytes).after calls).read = (.char g, r) →
      r.place = g.position ∧ ∃ line, files.lineAt path r.line = .ok (some line) ∧
        (Text.IsLineEnd text g → line.length ≤ r.column) ∧
        (¬ Text.IsLineEnd text g → line.toList[r.column]? = some g.char)) ∧
      (∀ calls later, .close ∉ calls →
        ((LineReader.ofBytes bytes).after calls).read.1 = .endOfInput →
        ((LineReader.ofBytes bytes).after (calls ++ later)).line = count) ∧
      rows.length = count ∧
      (∀ n, files.lineAt path n = .ok none ↔ n = 0 ∨ count < n) ∧
      ∀ n, 1 ≤ n → n ≤ count → ∃ line, files.lineAt path n = .ok (some line) ∧
        rows[n - 1]? = some (Text.padLeft ' ' (Listing.numberWidth (Text.lines text)) (toString n)
          ++ " | " ++ line ++ "\n").toList := by
  intro count rows
  simp only [lineAt_of_decode? opened decoded, LineReader.ofBytes_of_decode? decoded,
    Except.ok.injEq]
  refine ⟨?_, ?_, ?_, fun n => Text.lineAt?_eq_none, ?_⟩
  -- Delivery gives a character its place in the text, and the line found there shows it.
  · intro calls g r given
    obtain ⟨inside, place⟩ := LineReader.delivered_ofString given
    refine ⟨place, ?_⟩
    have line : r.line = g.position.line := congrArg Position.line place
    have column : r.column = g.position.column := congrArg Position.column place
    rw [line, column]
    exact Text.lineAt?_of_mem_placed inside
  · intro calls later never ended
    exact LineReader.line_ofString never ended
  · change (Text.cutAfter (· == '\n') (listing text).toList).length = _
    rw [Listing.cutAfter_listing, List.length_mapIdx]
  · intro n low high
    obtain ⟨k, rfl⟩ : ∃ k, n = k + 1 := ⟨n - 1, by omega⟩
    obtain ⟨line, found⟩ : ∃ line, Text.lineAt? text (k + 1) = some line :=
      ⟨_, List.getElem?_eq_getElem high⟩
    exact ⟨line, found, Listing.getElem?_listing found⟩

/-- Two carriage returns before a line feed, an empty line, and a carriage return that nothing
follows. -/
theorem lines_agree_returns :
    let bytes := Text.encode ['a', '\r', '\r', '\n', '\n', 'b', '\r']
    let files : Files := fun _ => .ok (.file bytes)
    let reader (calls : List LineReader.Request) := (LineReader.ofBytes bytes).after calls
    (∃ line, files.lineAt "abc" 1 = .ok (some line) ∧ line.toList[1]? = some '\r' ∧
        line.length ≤ 2) ∧
      (reader [.readRun, .close]).line = 3 ∧ files.lineAt "abc" 4 = .ok none ∧
      ∃ line, files.lineAt "abc" 3 = .ok (some line) ∧ line.toList[1]? = some '\r' := by
  intro bytes files reader
  have decoded : Text.decode? bytes = some "a\r\r\n\nb\r" := Text.decode?_encode _
  obtain ⟨shown, counted, -, none, -⟩ := @lines_agree files "abc" bytes _ rfl decoded
  have shows (calls : List LineReader.Request) {g : Glyph} (h : (reader calls).read.1 = .char g) :
      ∃ line, files.lineAt "abc" g.position.line = .ok (some line) ∧
        (Text.IsLineEnd "a\r\r\n\nb\r" g → line.length ≤ g.position.column) ∧
        (¬ Text.IsLineEnd "a\r\r\n\nb\r" g → line.toList[g.position.column]? = some g.char) := by
    obtain ⟨place, rest⟩ := shown calls g _ (Prod.ext h rfl)
    have row : (reader calls).read.2.line = g.position.line := congrArg Position.line place
    have column : (reader calls).read.2.column = g.position.column := congrArg Position.column place
    rwa [row, column] at rest
  obtain ⟨first, found, -, inside⟩ := shows [.read] (g := ⟨'\r', 1, 1⟩) (by decide +kernel)
  obtain ⟨same, found', ending, -⟩ := shows [.read, .read] (g := ⟨'\r', 1, 2⟩) (by decide +kernel)
  obtain rfl : first = same := by
    cases found.symm.trans found'
    rfl
  obtain ⟨third, found'', -, last⟩ :=
    shows (.replicate 6 .read) (g := ⟨'\r', 3, 1⟩) (by decide +kernel)
  refine ⟨⟨first, found, ?_, ?_⟩, ?_, ?_, third, found'', ?_⟩
  · exact inside (by decide +kernel)
  · exact ending (by decide +kernel)
  · exact counted [.readRun] [.close] (by decide) (by decide +kernel)
  · exact (none 4).mpr (.inr (by decide +kernel))
  · exact last (by decide +kernel)

end Files
end Lexis
