import Lexis.Source.Basic

/-! Sources that count the calls made on them. -/

namespace Lexis

structure Metered (σ : Type) where
  source : σ
  reads : Nat := 0
  closes : Nat := 0
deriving Repr

namespace Metered

variable {σ : Type} [CharSource σ]

def read (m : Metered σ) : Outcome × Metered σ :=
  let given := CharSource.read m.source
  (given.1, { m with source := given.2, reads := m.reads + 1 })

def close (m : Metered σ) : Metered σ :=
  { m with source := CharSource.close m.source, closes := m.closes + 1 }

instance : CharSource (Metered σ) where
  read := read
  close := close
  closingEvents m := CharSource.closingEvents m.source
  remaining m := CharSource.remaining m.source
  remaining_read {s s' g} h := by
    simp only [read, Prod.mk.injEq] at h
    rw [← h.2]
    exact CharSource.remaining_read (Prod.ext h.1 rfl)

end Metered
end Lexis
