import Lexis.Proofs.Lexing.Segment
import Lexis.Proofs.Lexing.Tokens

/-! The end of a segment: what may stand behind it without changing it. -/

namespace Lexis

open CharClass

variable {known : String → Option Kind} {g : Glyph} {gs rest rest' : List Glyph} {p : Segment}

/-- A segment cannot go on with a character. -/
structure Segment.BrokenBy (known : String → Option Kind) (p : Segment) (x : Glyph) : Prop where
  comment : p.role = .comment → x.position.line ≠ p.place.line
  shape : opensShape p.first.char = true → isIdentifierPart x.char = false ∧ x.char ≠ '.'
  sign : p.more = [] → Bare p.first → Alone known p.first [x]

theorem Stretch.followed {q : Glyph → Bool} {run : List Glyph} (h : Stretch q run rest)
    (next : ∀ x ∈ rest'.head?, x ∈ rest.head? ∨ q x = false) : Stretch q run rest' := by
  refine ⟨h.1, ?_⟩
  intro x hx
  rcases next x hx with same | broken
  · exact h.2 x same
  · exact broken

theorem Alone.followed (h : Alone known g rest)
    (next : ∀ x ∈ rest'.head?, x ∈ rest.head? ∨ Alone known g [x]) : Alone known g rest' := by
  intro x hx
  rcases next x hx with same | broken
  · exact h x same
  · exact broken x rfl

theorem CharClass.isDigit_of_not_isIdentifierPart {c : Char} (h : isIdentifierPart c = false) :
    isDigit c = false := by
  by_contra digit
  rw [Bool.not_eq_false] at digit
  cases h.symm.trans (isIdentifierPart_of_isDigit digit)

/-- A segment stays as it is when something else follows it that begins as before, or with a
character that the segment cannot go on with. -/
theorem Cuts.followed (h : Cuts known g gs p rest)
    (next : ∀ x ∈ rest'.head?, x ∈ rest.head? ∨ p.BrokenBy known x) :
    Cuts known g (p.more ++ rest') p rest' := by
  have digits {run : List Glyph} (opens : opensShape p.first.char = true)
      (stretch : Stretch (ofClass isDigit) run rest) : Stretch (ofClass isDigit) run rest' := by
    apply stretch.followed
    intro x hx
    exact (next x hx).imp_right fun broken => isDigit_of_not_isIdentifierPart (broken.shape opens).1
  cases h with
  | blank hg => exact .blank hg
  | word hg run =>
      refine .word hg (run.followed ?_)
      intro x hx
      exact (next x hx).imp_right fun broken =>
        (broken.shape (by simp [Segment.shaped, opensShape, hg])).1
  | integer hg run hdot =>
      have opens : opensShape g.char = true := by simp [opensShape, hg]
      refine .integer hg (digits opens run) ?_
      intro x hx
      rcases next x hx with same | broken
      · exact hdot x same
      · exact (broken.shape opens).2
  | @decimal run dot part _ hg hrun hdot hpart =>
      have opens : opensShape g.char = true := by simp [opensShape, hg]
      have split : (run ++ dot :: part) ++ rest' = run ++ dot :: (part ++ rest') := by simp
      change Cuts known g ((run ++ dot :: part) ++ rest') _ rest'
      rw [split]
      exact .decimal hg hrun hdot (digits opens hpart)
  | fraction hg hne part =>
      exact .fraction hg hne (digits (by simp [Segment.shaped, hg, opensShape]) part)
  | malformed hg part =>
      exact .malformed hg (digits (by simp [Segment.malformed, hg, opensShape]) part)
  | comment hg hh body =>
      refine .comment hg hh (body.followed ?_)
      intro x hx
      exact (next x hx).imp_right fun broken => by
        simpa [onLine, Segment.place] using broken.comment rfl
  | pair bare slashes hk => exact .pair bare slashes hk
  | single bare alone hk =>
      refine .single bare (alone.followed ?_) hk
      intro x hx
      exact (next x hx).imp_right fun broken => broken.sign rfl bare
  | illegal bare alone hk =>
      refine .illegal bare (alone.followed ?_) hk
      intro x hx
      exact (next x hx).imp_right fun broken => broken.sign rfl bare

end Lexis
