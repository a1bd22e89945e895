import Lexis.Proofs.Text.Lines
import Mathlib.Data.List.TakeWhile

/-! A text without its comments: each line only up to its first two slashes. -/

namespace Lexis.Text

/-- A line without what its first two slashes open. The line feed that ends it stays. -/
def stripLine : List Char → List Char
  | '/' :: '/' :: rest => rest.dropWhile (· != '\n')
  | c :: rest => c :: stripLine rest
  | [] => []

/-- The characters of a text outside its comments. -/
def strip (cs : List Char) : List Char := (cutAfter (· == '\n') cs).flatMap stripLine

def withoutComments (text : String) : String := String.ofList (strip text.toList)

theorem stripLine_cons {c : Char} {cs : List Char} (h : ¬ ['/', '/'] <+: c :: cs) :
    stripLine (c :: cs) = c :: stripLine cs := by
  rw [stripLine]
  rintro rest rfl rfl
  exact h ⟨rest, rfl⟩

theorem strip_cons {c : Char} {cs : List Char} (h : ¬ ['/', '/'] <+: c :: cs) :
    strip (c :: cs) = c :: strip cs := by
  by_cases newline : c = '\n'
  · subst newline
    rw [strip, cutAfter_cons_of_ends (by decide)]
    rfl
  · rw [strip, strip, cutAfter_cons_of_not_ends (by simpa using newline)]
    have whole := flatten_cutAfter (· == '\n') cs
    cases hcs : cutAfter (· == '\n') cs with
    | nil =>
        have alone : ¬ ['/', '/'] <+: [c] := by
          intro slashes
          simpa using slashes.length_le
        change stripLine [c] ++ [] = _
        rw [stripLine_cons alone]
        rfl
    | cons line lines =>
        rw [hcs, List.flatten_cons] at whole
        have opens : ¬ ['/', '/'] <+: c :: line := by
          intro slashes
          apply h
          rw [← whole]
          exact slashes.trans (List.prefix_append (c :: line) lines.flatten)
        change stripLine (c :: line) ++ lines.flatMap stripLine = _
        rw [stripLine_cons opens]
        rfl

theorem strip_append {xs : List Char} (h : '/' ∉ xs) (ys : List Char) :
    strip (xs ++ ys) = xs ++ strip ys := by
  induction xs with
  | nil => rfl
  | cons x xs ih =>
      obtain ⟨first, later⟩ := not_or.mp (mt List.mem_cons.mpr h)
      have opens : ¬ ['/', '/'] <+: x :: (xs ++ ys) := by
        intro slashes
        exact first (List.cons_prefix_cons.mp slashes).1
      rw [List.cons_append, strip_cons opens, ih later, List.cons_append]

theorem stripLine_of_prefix {line : List Char} (slashes : ['/', '/'] <+: line) :
    stripLine line = line.dropWhile (· != '\n') := by
  obtain ⟨body, rfl⟩ := slashes
  rfl

/-- Of a comment only the line feed after it is left. -/
theorem strip_comment {line rest : List Char} (slashes : ['/', '/'] <+: line)
    (first : (cutAfter (· == '\n') (line ++ rest)).head? = some line) :
    (∃ body, line = body ++ ['\n'] ∧ '\n' ∉ body ∧ strip (line ++ rest) = '\n' :: strip rest) ∨
      strip (line ++ rest) = [] ∧ rest = [] := by
  rcases head?_cutAfter first with ⟨body, last, rfl, hlast, hbody⟩ | ⟨never, rfl⟩
  · obtain rfl : last = '\n' := by simpa using hlast
    left
    refine ⟨body, rfl, fun newline => by simpa using hbody _ newline, ?_⟩
    have before : ∀ c ∈ body, (c != '\n') = true := by
      intro c hc
      simpa using hbody c hc
    rw [strip, List.append_assoc, List.singleton_append, cutAfter_append_ends hbody hlast,
      List.flatMap_cons, stripLine_of_prefix slashes, List.dropWhile_append_of_pos before]
    rfl
  · right
    refine ⟨?_, rfl⟩
    have before : ∀ c ∈ line, (c != '\n') = true := by
      intro c hc
      simpa using never c hc
    have ne : line ≠ [] := by
      rintro rfl
      simpa using slashes.length_le
    rw [strip, cutAfter_append_of_none ne never]
    change stripLine line ++ [] = []
    rw [List.append_nil, stripLine_of_prefix slashes]
    exact List.dropWhile_eq_nil_iff.mpr before

theorem exists_line_of_prefix {cs : List Char} (slashes : ['/', '/'] <+: cs) :
    ∃ line rest, cs = line ++ rest ∧ ['/', '/'] <+: line ∧
      (cutAfter (· == '\n') (line ++ rest)).head? = some line := by
  obtain ⟨more, rfl⟩ := slashes
  have whole := flatten_cutAfter (· == '\n') (['/', '/'] ++ more)
  have cut : cutAfter (· == '\n') (['/', '/'] ++ more) =
      glue ['/', '/'] (cutAfter (· == '\n') more) :=
    cutAfter_append_of_none (by simp) (by simp) more
  cases hmore : cutAfter (· == '\n') more with
  | nil =>
      rw [hmore] at cut
      refine ⟨['/', '/'], more, rfl, List.prefix_rfl, ?_⟩
      rw [cut]
      rfl
  | cons line lines =>
      rw [hmore] at cut
      rw [cut] at whole
      refine ⟨['/', '/'] ++ line, lines.flatten, whole.symm, List.prefix_append _ _, ?_⟩
      change (cutAfter _ (glue ['/', '/'] (line :: lines)).flatten).head? = _
      rw [whole, cut]
      rfl

theorem head?_strip {cs : List Char} {c : Char} (h : c ∈ (strip cs).head?) :
    c ∈ cs.head? ∨ c = '\n' := by
  by_cases slashes : ['/', '/'] <+: cs
  · obtain ⟨line, rest, rfl, opens, first⟩ := exists_line_of_prefix slashes
    rcases strip_comment opens first with ⟨body, -, -, stripped⟩ | ⟨stripped, -⟩
    · rw [stripped] at h
      exact .inr (Option.some.inj h).symm
    · rw [stripped] at h
      cases h
  · cases cs with
    | nil => cases h
    | cons d cs =>
        rw [strip_cons slashes] at h
        exact .inl h

end Lexis.Text
