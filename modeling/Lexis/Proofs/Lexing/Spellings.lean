import Lexis.Proofs.Lexing.Shape

/-! The spellings of fixed kind are words, or one or two characters that begin no word or number. -/

namespace Lexis

open CharClass

/-- Neither a blank nor part of a word or number. Operators and separators are made of these. -/
def CharClass.isSign (c : Char) : Bool := !isBlank c && !opensShape c

def areSigns : List Char → Bool
  | [c] => isSign c
  | [c, d] => isSign c && isSign d && d != '/'
  | _ => false

def isWordOrSigns : List Char → Bool
  | [] => false
  | c :: cs => if isIdentifierStart c then cs.all isIdentifierPart else areSigns (c :: cs)

theorem areSigns_cons {c : Char} {cs : List Char} (h : areSigns (c :: cs) = true) :
    isSign c = true ∧ (cs = [] ∨ ∃ d, cs = [d] ∧ isSign d = true ∧ d ≠ '/') := by
  match cs, h with
  | [], h => exact ⟨h, .inl rfl⟩
  | [d], h =>
      simp only [areSigns, Bool.and_eq_true, bne_iff_ne] at h
      exact ⟨h.1.1, .inr ⟨d, rfl, h.1.2, h.2⟩⟩

namespace Kind

theorem mem_fixed {spelling : String} {kind : Kind} (h : ofSpelling? spelling = some kind) :
    (spelling, kind) ∈ fixed := by
  obtain ⟨before, after, split, -⟩ := List.lookup_eq_some_iff.mp h
  rw [split]
  exact List.mem_append_right _ List.mem_cons_self

theorem spelling?_of_ofSpelling? {spelling : String} {kind : Kind}
    (h : ofSpelling? spelling = some kind) :
    kind.isVariable = false ∧ kind.spelling? = some spelling := by
  have all : (fixed.all fun entry =>
      !entry.2.isVariable && entry.2.spelling? == some entry.1) = true := by decide +kernel
  simpa using List.all_eq_true.mp all _ (mem_fixed h)

theorem isWordOrSigns_of_ofSpelling? {cs : List Char} {kind : Kind}
    (h : ofSpelling? (String.ofList cs) = some kind) : isWordOrSigns cs = true := by
  have all : (fixed.all fun entry => isWordOrSigns entry.1.toList) = true := by decide +kernel
  have one := List.all_eq_true.mp all _ (mem_fixed h)
  rwa [String.toList_ofList] at one

/-- What a fixed spelling begins with decides which it is. -/
theorem shape_of_ofSpelling? {c : Char} {cs : List Char} {kind : Kind}
    (h : ofSpelling? (String.ofList (c :: cs)) = some kind) (hc : opensShape c = true) :
    Shape (c :: cs) .identifier := by
  have made := isWordOrSigns_of_ofSpelling? h
  rw [isWordOrSigns] at made
  by_cases start : isIdentifierStart c = true
  · rw [if_pos start, List.all_eq_true] at made
    exact .word start made
  · rw [if_neg start] at made
    have sign := (areSigns_cons made).1
    simp [isSign, hc] at sign

theorem signs_of_ofSpelling? {c : Char} {cs : List Char} {kind : Kind}
    (h : ofSpelling? (String.ofList (c :: cs)) = some kind) (hc : opensShape c = false) :
    isSign c = true ∧ (cs = [] ∨ ∃ d, cs = [d] ∧ isSign d = true ∧ d ≠ '/') := by
  have made := isWordOrSigns_of_ofSpelling? h
  have start : ¬ isIdentifierStart c = true := by
    intro start
    simp [opensShape, start] at hc
  rw [isWordOrSigns, if_neg start] at made
  exact areSigns_cons made

end Kind
end Lexis
