import Lexis.Proofs.Source.Glyphs
import Lexis.Source.Metered

/-! Sources whose calls are watched. They give what they give unwatched. -/

namespace Lexis

theorem Metered.glyphs_eq {σ : Type} [CharSource σ] (m : Metered σ) :
    CharSource.glyphs m = CharSource.glyphs m.source ∧
      CharSource.stop m = CharSource.stop m.source := by
  apply CharSource.glyphs_of_reads (fun m source => m.source = source) ?_ rfl
  rintro m source rfl
  exact ⟨rfl, rfl⟩

/-- A call on a source. A read is kept with what it gave. -/
inductive Call where
  | read (outcome : Outcome)
  | close
deriving DecidableEq, Repr

/-- A source that keeps the calls made on it, in their order. -/
structure Traced (σ : Type) where
  source : σ
  calls : List Call := []
deriving Repr

namespace Traced

variable {σ : Type} [CharSource σ]

def read (t : Traced σ) : Outcome × Traced σ :=
  let given := CharSource.read t.source
  (given.1, { source := given.2, calls := t.calls ++ [.read given.1] })

def close (t : Traced σ) : Traced σ :=
  { source := CharSource.close t.source, calls := t.calls ++ [.close] }

instance : CharSource (Traced σ) where
  read := read
  close := close
  closingEvents t := CharSource.closingEvents t.source
  remaining t := CharSource.remaining t.source
  remaining_read {t t' g} h := by
    simp only [read, Prod.mk.injEq] at h
    rw [← h.2]
    exact CharSource.remaining_read (Prod.ext h.1 rfl)

end Traced
end Lexis
