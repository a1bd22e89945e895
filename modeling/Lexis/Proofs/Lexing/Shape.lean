import Lexis.CharClass
import Lexis.Kind

/-! The shapes of words and numbers. A shape is decided by its first character and by whether a dot
occurs, so a spelling has one kind at most. -/

namespace Lexis

namespace CharClass

def blanks : List Char := [' ', '\t', '\n', '\r', '\x0b', '\x0c']

/-- Words, numbers and fractions begin with these, and nothing else does. -/
def opensShape (c : Char) : Bool := isIdentifierStart c || isDigit c || c == '.'

def digits : List Char := ['0', '1', '2', '3', '4', '5', '6', '7', '8', '9']

theorem mem_digits {c : Char} (h : isDigit c = true) : c ∈ digits := by
  simp only [isDigit, Char.isDigit, Bool.and_eq_true, decide_eq_true_eq, ge_iff_le,
    UInt32.le_iff_toNat_le] at h
  have low : 48 ≤ c.toNat := h.1
  have high : c.toNat ≤ 57 := h.2
  have listed : digits = (List.range 10).map fun i => Char.ofNat (48 + i) := by decide
  rw [listed, List.mem_map]
  refine ⟨c.toNat - 48, List.mem_range.mpr (by omega), ?_⟩
  rw [Nat.add_sub_of_le low, Char.ofNat_toNat]

theorem isBlank_iff {c : Char} : isBlank c = true ↔ c ∈ blanks := by
  simp only [isBlank, blanks, Bool.or_eq_true, beq_iff_eq, List.mem_cons, List.not_mem_nil, or_false,
    or_assoc]

theorem isIdentifierPart_of_isIdentifierStart {c : Char} (h : isIdentifierStart c = true) :
    isIdentifierPart c = true := by
  simp only [isIdentifierStart, isIdentifierPart, Bool.or_eq_true] at h ⊢
  rcases h with (h | h) | h
  · exact .inl (.inl (.inl h))
  · exact .inl (.inr h)
  · exact .inr h

theorem isIdentifierPart_of_isDigit {c : Char} (h : isDigit c = true) :
    isIdentifierPart c = true := by
  have all : digits.all isIdentifierPart = true := by decide
  exact List.all_eq_true.mp all c (mem_digits h)

theorem isIdentifierStart_of_isDigit {c : Char} (h : isDigit c = true) :
    isIdentifierStart c = false := by
  have none : digits.any isIdentifierStart = false := by decide
  simpa using List.any_eq_false.mp none c (mem_digits h)

theorem ne_dot_of_isDigit {c : Char} (h : isDigit c = true) : c ≠ '.' := by
  rintro rfl
  exact absurd h (by decide)

theorem isIdentifierStart_dot : isIdentifierStart '.' = false := by decide

theorem isIdentifierPart_of_isBlank {c : Char} (h : isBlank c = true) :
    isIdentifierPart c = false := by
  have none : blanks.any isIdentifierPart = false := by decide
  simpa using List.any_eq_false.mp none c (isBlank_iff.mp h)

theorem opensShape_of_isBlank {c : Char} (h : isBlank c = true) : opensShape c = false := by
  have none : blanks.any opensShape = false := by decide
  simpa using List.any_eq_false.mp none c (isBlank_iff.mp h)

end CharClass

open CharClass

/-- The lexemes that have a kind by their shape alone. -/
inductive Shape : List Char → Kind → Prop
  | word {c : Char} {cs : List Char} : isIdentifierStart c = true →
      (∀ d ∈ cs, isIdentifierPart d = true) → Shape (c :: cs) .identifier
  | integer {ds : List Char} : ds ≠ [] → (∀ d ∈ ds, isDigit d = true) → Shape ds .integerLiteral
  | decimal {ds es : List Char} : ds ≠ [] → (∀ d ∈ ds, isDigit d = true) →
      (∀ d ∈ es, isDigit d = true) → Shape (ds ++ '.' :: es) .floatLiteral
  | fraction {ds : List Char} : ds ≠ [] → (∀ d ∈ ds, isDigit d = true) →
      Shape ('.' :: ds) .floatLiteral

namespace Shape

theorem isVariable {cs : List Char} {kind : Kind} (h : Shape cs kind) :
    kind.isVariable = true := by
  cases h <;> rfl

theorem dot_notMem {ds : List Char} (h : ∀ d ∈ ds, isDigit d = true) : '.' ∉ ds :=
  fun hdot => ne_dot_of_isDigit (h _ hdot) rfl

def kindOf (cs : List Char) : Kind :=
  if cs.head?.any isIdentifierStart then .identifier
  else if '.' ∈ cs then .floatLiteral
  else .integerLiteral

theorem kind_eq {cs : List Char} {kind : Kind} (h : Shape cs kind) : kind = kindOf cs := by
  cases h with
  | word hc => simp [kindOf, hc]
  | integer hne hds =>
      obtain ⟨d, ds, rfl⟩ := List.exists_cons_of_ne_nil hne
      have hstart := isIdentifierStart_of_isDigit (hds d List.mem_cons_self)
      rw [kindOf, if_neg (dot_notMem hds)]
      simp [hstart]
  | decimal hne hds =>
      obtain ⟨d, ds, rfl⟩ := List.exists_cons_of_ne_nil hne
      have hstart := isIdentifierStart_of_isDigit (hds d List.mem_cons_self)
      simp [kindOf, hstart]
  | fraction => simp [kindOf, isIdentifierStart_dot]

theorem unique {cs : List Char} {kind kind' : Kind} (h : Shape cs kind) (h' : Shape cs kind') :
    kind = kind' := h.kind_eq.trans h'.kind_eq.symm

theorem opens {cs : List Char} {kind : Kind} (h : Shape cs kind) :
    ∃ c rest, cs = c :: rest ∧ opensShape c = true := by
  cases h with
  | word hc => exact ⟨_, _, rfl, by simp [opensShape, hc]⟩
  | integer hne hds =>
      obtain ⟨d, ds, rfl⟩ := List.exists_cons_of_ne_nil hne
      exact ⟨d, ds, rfl, by simp [opensShape, hds d List.mem_cons_self]⟩
  | decimal hne hds =>
      obtain ⟨d, ds, rfl⟩ := List.exists_cons_of_ne_nil hne
      exact ⟨d, _, rfl, by simp [opensShape, hds d List.mem_cons_self]⟩
  | fraction => exact ⟨'.', _, rfl, by decide⟩

theorem part_or_dot {cs : List Char} {kind : Kind} (h : Shape cs kind) :
    ∀ c ∈ cs, isIdentifierPart c = true ∨ c = '.' := by
  intro c hc
  cases h with
  | word hstart hpart =>
      rcases List.mem_cons.mp hc with rfl | later
      · exact .inl (isIdentifierPart_of_isIdentifierStart hstart)
      · exact .inl (hpart c later)
  | integer _ hds => exact .inl (isIdentifierPart_of_isDigit (hds c hc))
  | decimal _ hds hes =>
      rcases List.mem_append.mp hc with whole | later
      · exact .inl (isIdentifierPart_of_isDigit (hds c whole))
      · rcases List.mem_cons.mp later with rfl | part
        · exact .inr rfl
        · exact .inl (isIdentifierPart_of_isDigit (hes c part))
  | fraction _ hds =>
      rcases List.mem_cons.mp hc with rfl | part
      · exact .inr rfl
      · exact .inl (isIdentifierPart_of_isDigit (hds c part))

end Shape
end Lexis
