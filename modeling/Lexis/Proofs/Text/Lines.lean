import Lexis.Text.Lines

/-! Cutting loses nothing, and a cut piece ends at its separator and nowhere before it. -/

namespace Lexis.Text

variable {α : Type} {ends : α → Bool}

def glue (xs : List α) : List (List α) → List (List α)
  | [] => [xs]
  | piece :: rest => (xs ++ piece) :: rest

theorem glue_glue (xs ys : List α) (pieces : List (List α)) :
    glue xs (glue ys pieces) = glue (xs ++ ys) pieces := by
  cases pieces with
  | nil => rfl
  | cons piece rest => simp only [glue, List.append_assoc]

theorem flatten_glue (xs : List α) (pieces : List (List α)) :
    (glue xs pieces).flatten = xs ++ pieces.flatten := by
  cases pieces with
  | nil => simp only [glue, List.flatten_cons, List.flatten_nil]
  | cons piece rest => simp only [glue, List.flatten_cons, List.append_assoc]

@[simp] theorem cutAfter_nil : cutAfter ends [] = [] := rfl

theorem cutAfter_cons_of_ends {x : α} (h : ends x = true) (xs : List α) :
    cutAfter ends (x :: xs) = [x] :: cutAfter ends xs := by
  simp only [cutAfter, List.foldr_cons, h, if_true]

theorem cutAfter_cons_of_not_ends {x : α} (h : ends x = false) (xs : List α) :
    cutAfter ends (x :: xs) = glue [x] (cutAfter ends xs) := by
  simp only [cutAfter, List.foldr_cons, h, Bool.false_eq_true, if_false]
  split <;> simp_all [glue]

theorem cutAfter_ne_nil (x : α) (xs : List α) : cutAfter ends (x :: xs) ≠ [] := by
  cases h : ends x with
  | true => simp [cutAfter_cons_of_ends h]
  | false =>
      rw [cutAfter_cons_of_not_ends h]
      cases cutAfter ends xs <;> simp [glue]

theorem flatten_cutAfter (ends : α → Bool) (xs : List α) : (cutAfter ends xs).flatten = xs := by
  induction xs with
  | nil => rfl
  | cons x xs ih =>
      cases h : ends x with
      | true => rw [cutAfter_cons_of_ends h, List.flatten_cons, ih, List.singleton_append]
      | false => rw [cutAfter_cons_of_not_ends h, flatten_glue, ih, List.singleton_append]

/-- A piece holds elements that end nothing, and then at most one that ends it. -/
def IsPiece (ends : α → Bool) (piece : List α) : Prop :=
  ∃ body last, piece = body ++ [last] ∧ ∀ x ∈ body, ends x = false

theorem IsPiece.ne_nil {piece : List α} (h : IsPiece ends piece) : piece ≠ [] := by
  obtain ⟨body, last, rfl, -⟩ := h
  simp

theorem IsPiece.cons {x : α} {piece : List α} (hx : ends x = false) (h : IsPiece ends piece) :
    IsPiece ends (x :: piece) := by
  obtain ⟨body, last, rfl, hbody⟩ := h
  exact ⟨x :: body, last, rfl, List.forall_mem_cons.mpr ⟨hx, hbody⟩⟩

theorem isPiece_of_mem_cutAfter {xs piece : List α} (h : piece ∈ cutAfter ends xs) :
    IsPiece ends piece := by
  induction xs generalizing piece with
  | nil => cases h
  | cons x xs ih =>
      have single : IsPiece ends [x] := ⟨[], x, rfl, by simp⟩
      cases hx : ends x with
      | true =>
          rw [cutAfter_cons_of_ends hx] at h
          rcases List.mem_cons.mp h with rfl | later
          · exact single
          · exact ih later
      | false =>
          rw [cutAfter_cons_of_not_ends hx] at h
          cases hxs : cutAfter ends xs with
          | nil =>
              rw [hxs] at h
              obtain rfl := List.mem_singleton.mp h
              exact single
          | cons first rest =>
              rw [hxs] at h ih
              rcases List.mem_cons.mp h with rfl | later
              · exact (ih List.mem_cons_self).cons hx
              · exact ih (List.mem_cons_of_mem _ later)

theorem forall_not_ends [BEq α] [LawfulBEq α] {separator : α} {xs : List α} :
    (∀ x ∈ xs, (x == separator) = false) ↔ separator ∉ xs := by
  simp only [beq_eq_false_iff_ne]
  constructor
  · intro h inside
    exact h separator inside rfl
  · rintro h x hx rfl
    exact h hx

theorem cutAfter_append_of_none {xs : List α} (hne : xs ≠ []) (h : ∀ x ∈ xs, ends x = false)
    (ys : List α) : cutAfter ends (xs ++ ys) = glue xs (cutAfter ends ys) := by
  induction xs with
  | nil => exact absurd rfl hne
  | cons x xs ih =>
      obtain ⟨hx, hxs⟩ := List.forall_mem_cons.mp h
      rw [List.cons_append, cutAfter_cons_of_not_ends hx]
      cases xs with
      | nil => rfl
      | cons x' xs => rw [ih (by simp) hxs, glue_glue, List.singleton_append]

theorem cutAfter_append_ends {body : List α} (h : ∀ x ∈ body, ends x = false) {last : α}
    (hlast : ends last = true) (ys : List α) :
    cutAfter ends (body ++ last :: ys) = (body ++ [last]) :: cutAfter ends ys := by
  cases body with
  | nil => exact cutAfter_cons_of_ends hlast ys
  | cons x body =>
      rw [cutAfter_append_of_none (by simp) h, cutAfter_cons_of_ends hlast]
      rfl

theorem head?_cutAfter {piece rest : List α}
    (h : (cutAfter ends (piece ++ rest)).head? = some piece) :
    (∃ body last, piece = body ++ [last] ∧ ends last = true ∧ ∀ x ∈ body, ends x = false) ∨
      (∀ x ∈ piece, ends x = false) ∧ rest = [] := by
  obtain ⟨body, last, rfl, hbody⟩ := isPiece_of_mem_cutAfter (List.mem_of_head? h)
  cases hlast : ends last with
  | true => exact .inl ⟨body, last, rfl, hlast, hbody⟩
  | false =>
      have never : ∀ x ∈ body ++ [last], ends x = false := by
        intro x hx
        rcases List.mem_append.mp hx with inside | here
        · exact hbody x inside
        · exact List.mem_singleton.mp here ▸ hlast
      refine .inr ⟨never, ?_⟩
      cases rest with
      | nil => rfl
      | cons y rest =>
          rw [cutAfter_append_of_none (by simp) never] at h
          have ne : cutAfter ends (y :: rest) ≠ [] := cutAfter_ne_nil y rest
          obtain ⟨next, more, hmore⟩ := List.exists_cons_of_ne_nil ne
          rw [hmore] at h
          have same : body ++ [last] ++ next = body ++ [last] := Option.some.inj h
          have inside : next ∈ cutAfter ends (y :: rest) := hmore ▸ List.mem_cons_self
          exact absurd (List.append_right_eq_self.mp same) (isPiece_of_mem_cutAfter inside).ne_nil

/-- Pieces that each end with their only separator are cut apart again. -/
theorem cutAfter_flatten {pieces : List (List α)}
    (h : ∀ piece ∈ pieces, ∃ body last, piece = body ++ [last] ∧ ends last = true ∧
      ∀ x ∈ body, ends x = false) : cutAfter ends pieces.flatten = pieces := by
  induction pieces with
  | nil => rfl
  | cons piece pieces ih =>
      obtain ⟨here, later⟩ := List.forall_mem_cons.mp h
      obtain ⟨body, last, rfl, hlast, hbody⟩ := here
      rw [List.flatten_cons, List.append_assoc, List.singleton_append,
        cutAfter_append_ends hbody hlast, ih later]

theorem glue_append (xs : List α) {pieces : List (List α)} (ne : pieces ≠ [])
    (more : List (List α)) : glue xs (pieces ++ more) = glue xs pieces ++ more := by
  cases pieces with
  | nil => exact absurd rfl ne
  | cons piece pieces => rfl

theorem cutAfter_append_of_ended {xs : List α} (h : ∀ x ∈ xs.getLast?, ends x = true)
    (ys : List α) : cutAfter ends (xs ++ ys) = cutAfter ends xs ++ cutAfter ends ys := by
  induction xs with
  | nil => rfl
  | cons x xs ih =>
      cases xs with
      | nil =>
          have hx : ends x = true := h x rfl
          rw [List.singleton_append, cutAfter_cons_of_ends hx, cutAfter_cons_of_ends hx]
          rfl
      | cons x' xs =>
          rw [List.getLast?_cons_cons] at h
          cases hx : ends x with
          | true =>
              rw [List.cons_append, cutAfter_cons_of_ends hx, cutAfter_cons_of_ends hx, ih h,
                List.cons_append]
          | false =>
              rw [List.cons_append, cutAfter_cons_of_not_ends hx, cutAfter_cons_of_not_ends hx, ih h,
                glue_append _ (cutAfter_ne_nil x' xs)]

theorem take_glue (xs : List α) (pieces : List (List α)) (n : Nat) :
    (glue xs pieces).take (n + 1) = glue xs (pieces.take (n + 1)) := by
  cases pieces <;> simp [glue]

theorem cutAfter_flatten_take (xs : List α) (n : Nat) :
    cutAfter ends ((cutAfter ends xs).take n).flatten = (cutAfter ends xs).take n := by
  induction xs generalizing n with
  | nil => rw [cutAfter_nil, List.take_nil, List.flatten_nil, cutAfter_nil]
  | cons x xs ih =>
      cases n with
      | zero => rw [List.take_zero, List.flatten_nil, cutAfter_nil]
      | succ n =>
          cases hx : ends x with
          | true =>
              rw [cutAfter_cons_of_ends hx, List.take_succ_cons, List.flatten_cons,
                List.singleton_append, cutAfter_cons_of_ends hx, ih]
          | false =>
              rw [cutAfter_cons_of_not_ends hx, take_glue, flatten_glue, List.singleton_append,
                cutAfter_cons_of_not_ends hx, ih]

theorem ends_of_take {xs : List α} {n : Nat} (h : n < (cutAfter ends xs).length) :
    ∀ x ∈ ((cutAfter ends xs).take n).flatten.getLast?, ends x = true := by
  induction xs generalizing n with
  | nil => cases h
  | cons x xs ih =>
      cases n with
      | zero => simp
      | succ n =>
          cases hx : ends x with
          | true =>
              rw [cutAfter_cons_of_ends hx] at h ⊢
              rw [List.take_succ_cons, List.flatten_cons, List.singleton_append]
              intro y hy
              rw [List.getLast?_cons] at hy
              cases last : ((cutAfter ends xs).take n).flatten.getLast? with
              | none =>
                  rw [last] at hy
                  cases hy
                  exact hx
              | some z =>
                  rw [last] at hy
                  cases hy
                  exact ih (Nat.lt_of_succ_lt_succ h) z last
          | false =>
              rw [cutAfter_cons_of_not_ends hx] at h ⊢
              rw [take_glue, flatten_glue, List.singleton_append]
              cases pieces : cutAfter ends xs with
              | nil =>
                  rw [pieces] at h
                  cases Nat.lt_of_succ_lt_succ h
              | cons first rest =>
                  rw [pieces] at h ih
                  have inside : first ∈ cutAfter ends xs := pieces ▸ List.mem_cons_self
                  have some := (isPiece_of_mem_cutAfter inside).ne_nil
                  rw [List.getLast?_cons_of_ne_nil (by simp [some])]
                  exact ih h

end Lexis.Text
