import Lexis.Proofs.Text.Columns

/-! A text with a carriage return before every line feed, and the lines of it. -/

namespace Lexis.Text

/-- The characters of a text, with a carriage return put before each line feed. -/
def returned (cs : List Char) : List Char :=
  cs.flatMap fun c => if c = '\n' then ['\r', '\n'] else [c]

def withReturns (text : String) : String := String.ofList (returned text.toList)

@[simp] theorem returned_nil : returned [] = [] := rfl

theorem returned_newline (cs : List Char) :
    returned ('\n' :: cs) = '\r' :: '\n' :: returned cs := rfl

theorem returned_cons_of_ne {c : Char} (h : c ≠ '\n') (cs : List Char) :
    returned (c :: cs) = c :: returned cs := by
  rw [returned, List.flatMap_cons, if_neg h]
  rfl

theorem returned_append (cs ds : List Char) : returned (cs ++ ds) = returned cs ++ returned ds :=
  List.flatMap_append

theorem returned_of_newline_notMem {cs : List Char} (h : '\n' ∉ cs) : returned cs = cs := by
  induction cs with
  | nil => rfl
  | cons c cs ih =>
      obtain ⟨first, later⟩ := not_or.mp (mt List.mem_cons.mpr h)
      rw [returned_cons_of_ne (Ne.symm first), ih later]

theorem past_returned (p : Position) (cs : List Char) : p.past (returned cs) = p.past cs := by
  induction cs generalizing p with
  | nil => rfl
  | cons c cs ih =>
      by_cases newline : c = '\n'
      · subst newline
        rw [returned_newline, Position.past_cons, Position.past_cons, ih]
        rfl
      · rw [returned_cons_of_ne newline, Position.past_cons, ih, Position.past_cons]

theorem head?_returned {cs : List Char} {c : Char} (h : c ∈ (returned cs).head?) :
    c ∈ cs.head? ∨ c = '\r' := by
  cases cs with
  | nil => cases h
  | cons d cs =>
      by_cases newline : d = '\n'
      · rw [newline, returned_newline] at h
        exact .inr (Option.some.inj h).symm
      · rw [returned_cons_of_ne newline] at h
        exact .inl h

theorem map_returned_glue {c : Char} (h : c ≠ '\n') (lines : List (List Char)) :
    (glue [c] lines).map returned = glue [c] (lines.map returned) := by
  cases lines with
  | nil => simp only [glue, List.map_cons, List.map_nil, returned_cons_of_ne h, returned_nil]
  | cons line lines =>
      simp only [glue, List.map_cons, List.singleton_append, returned_cons_of_ne h]

theorem cutAfter_returned (cs : List Char) :
    cutAfter (· == '\n') (returned cs) = (cutAfter (· == '\n') cs).map returned := by
  induction cs with
  | nil => rfl
  | cons c cs ih =>
      by_cases newline : c = '\n'
      · subst newline
        rw [returned_newline, cutAfter_cons_of_not_ends (by decide),
          cutAfter_cons_of_ends (by decide), cutAfter_cons_of_ends (by decide), ih]
        rfl
      · rw [returned_cons_of_ne newline, cutAfter_cons_of_not_ends (by simpa using newline),
          cutAfter_cons_of_not_ends (by simpa using newline), ih, map_returned_glue newline]

/-- What a line shows is not changed by a carriage return before its line feed, unless there was one
already. -/
theorem dropLineEnd_returned {line : List Char} (piece : IsPiece (· == '\n') line)
    (h : '\r' ∉ line) : dropLineEnd (returned line) = dropLineEnd line := by
  obtain ⟨body, last, rfl, hbody⟩ := piece
  have unbroken : '\n' ∉ body := forall_not_ends.mp hbody
  by_cases newline : last = '\n'
  · subst newline
    rw [returned_append, returned_of_newline_notMem unbroken, returned_newline]
    rcases dropLineEnd_cases (body ++ ['\n']) with
      ⟨shown, split, -⟩ | ⟨shown, split, -, dropped⟩ | ⟨last, -⟩
    · rw [split] at h
      simp at h
    · rw [dropped, ← List.append_cancel_right split]
      simp [dropLineEnd]
    · simp at last
  · rw [returned_of_newline_notMem]
    simpa [unbroken] using Ne.symm newline

theorem lines_withReturns {text : String} (h : '\r' ∉ text.toList) :
    lines (withReturns text) = lines text := by
  rw [lines, lines, withReturns, String.toList_ofList, cutAfter_returned, List.map_map]
  apply List.map_congr_left
  intro line mem
  have inside : '\r' ∉ line := by
    intro own
    apply h
    rw [← flatten_cutAfter (· == '\n') text.toList]
    exact List.mem_flatten.mpr ⟨line, mem, own⟩
  rw [Function.comp_apply, dropLineEnd_returned (isPiece_of_mem_cutAfter mem) inside]

end Lexis.Text
