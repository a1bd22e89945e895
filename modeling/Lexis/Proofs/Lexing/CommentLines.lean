import Lexis.Proofs.Lexing.Extent
import Mathlib.Data.List.Infix
import Mathlib.Data.List.Sort

/-! The comments of a text are its lines with two slashes in a row. -/

namespace Lexis

theorem Segment.comment?_eq_some {q : Segment} {n : Nat} :
    q.comment? = some n ↔ q.role = .comment ∧ q.place.line = n := by
  unfold comment?
  cases q.role <;> simp

namespace Text

/-- The numbers of the lines with two slashes in a row. -/
def commentLines (text : String) : List Nat :=
  (((lines text).zipIdx 1).filter fun line => ['/', '/'] <:+: line.1.toList).map Prod.snd

section

variable {text : String} {n : Nat}

theorem slashes_infix {cs : List Char} :
    ['/', '/'] <:+: cs ↔ ∃ i, cs[i]? = some '/' ∧ cs[i + 1]? = some '/' := by
  rw [List.infix_iff_getElem?]
  constructor
  · rintro ⟨i, -, same⟩
    have first := same 0 (by decide)
    have second := same 1 (by decide)
    rw [Nat.zero_add] at first
    rw [Nat.add_comm] at second
    exact ⟨i, first, second⟩
  · rintro ⟨i, first, second⟩
    obtain ⟨long, -⟩ := List.getElem?_eq_some_iff.mp second
    refine ⟨i, by simp only [List.length_cons, List.length_nil]; omega, ?_⟩
    intro j hj
    match j with
    | 0 => simpa using first
    | 1 => simpa [Nat.add_comm] using second

theorem mem_commentLines : n ∈ commentLines text ↔ ∃ column, InComment text ⟨n, column⟩ := by
  unfold commentLines InComment charAt? lineAt? numbered?
  simp only [List.mem_map, List.mem_filter, decide_eq_true_eq, Prod.exists,
    List.mk_mem_zipIdx_iff_le_and_getElem?_sub, exists_eq_right, slashes_infix]
  cases n with
  | zero => simp
  | succ k =>
      simp only [Nat.add_sub_cancel, Nat.le_add_left, true_and]
      constructor
      · rintro ⟨line, here, i, first, second⟩
        exact ⟨i, i, Nat.le_refl i, by simp [here, first], by simp [here, second]⟩
      · rintro ⟨column, i, -, first, second⟩
        obtain ⟨line, here, found⟩ := Option.bind_eq_some_iff.mp first
        rw [here, Option.bind_some] at second
        exact ⟨line, here, i, found, second⟩

theorem pairwise_commentLines (text : String) : (commentLines text).Pairwise (· < ·) := by
  have numbered : ((lines text).zipIdx 1).Pairwise fun p q => p.2 < q.2 := by
    rw [← List.pairwise_map, List.zipIdx_map_snd]
    exact List.pairwise_lt_range' 1
  rw [commentLines, List.pairwise_map]
  exact numbered.filter _

theorem mem_comments :
    n ∈ (pieces text).filterMap Segment.comment? ↔
      ∃ q ∈ pieces text, q.role = .comment ∧ q.place.line = n := by
  simp only [List.mem_filterMap, Segment.comment?_eq_some]

theorem pairwise_comments (text : String) :
    ((pieces text).filterMap Segment.comment?).Pairwise (· < ·) := by
  rw [List.pairwise_filterMap]
  apply (pairwise_pieces text).imp_of_mem
  intro p q hp hq before m hm n hn
  obtain ⟨role, rfl⟩ := Segment.comment?_eq_some.mp hm
  obtain ⟨-, rfl⟩ := Segment.comment?_eq_some.mp hn
  have order : p.place.Before q.place := before _ List.mem_cons_self _ List.mem_cons_self
  rcases order with lines | ⟨line, column⟩
  · exact lines
  · -- On one line the second comment would be part of the first.
    have first := mem_pieces hq (g := q.first) List.mem_cons_self
    have inside := comment_reaches hp role first line.symm (Nat.le_of_lt column)
    exact absurd (before _ inside _ List.mem_cons_self) (Position.Before.irrefl _)

/-- The comments of a text stand on the lines with two slashes in a row, one on each. -/
theorem comments_eq (text : String) :
    (pieces text).filterMap Segment.comment? = commentLines text := by
  apply (pairwise_comments text).eq_of_mem_iff (pairwise_commentLines text)
  intro n
  rw [mem_comments, mem_commentLines]
  constructor
  · rintro ⟨q, hq, role, rfl⟩
    exact ⟨q.place.column, (inComment_iff hq (g := q.first) List.mem_cons_self).mpr role⟩
  · rintro ⟨column, i, -, first, second⟩
    obtain ⟨q, hq, hslash⟩ := exists_piece (mem_placed_of_charAt? first)
    have role := comment_of_slashes hq hslash (mem_placed_of_charAt? second)
    obtain ⟨-, -, extent⟩ := comment_extent hq role
    exact ⟨q, hq, role, (extent _ hslash).1.symm⟩

end

end Text
end Lexis
