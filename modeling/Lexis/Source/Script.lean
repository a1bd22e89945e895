import Lexis.Source.Basic

/-! Sources that follow a list of outcomes. -/

namespace Lexis

/-- The outcomes of the reads to come. Past the end of the list every read is at end of input. -/
structure Script where
  outcomes : List Outcome
deriving Repr

namespace Script

def read : Script → Outcome × Script
  | ⟨[]⟩ => (.endOfInput, ⟨[]⟩)
  | ⟨outcome :: rest⟩ => (outcome, ⟨rest⟩)

instance : CharSource Script where
  read := read
  close script := script
  closingEvents _ := []
  remaining script := script.outcomes.length
  remaining_read {s s' g} h := by
    obtain ⟨_ | ⟨outcome, rest⟩⟩ := s
    · simp [read] at h
    · simp only [read, Prod.mk.injEq] at h
      simp [← h.2]

end Script
end Lexis
