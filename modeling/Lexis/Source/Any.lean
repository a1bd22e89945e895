import Lexis.Source.LineReader
import Lexis.Source.Script

/-! The two kinds of sources under one type. -/

namespace Lexis

inductive Source where
  | reader (r : LineReader)
  | script (s : Script)
deriving Repr

namespace Source

def read : Source → Outcome × Source
  | .reader r => (r.read.1, .reader r.read.2)
  | .script s => (s.read.1, .script s.read.2)

def close : Source → Source
  | .reader r => .reader r.close
  | .script s => .script (CharSource.close s)

def closingEvents : Source → List LogEvent
  | .reader r => r.closingEvents
  | .script s => CharSource.closingEvents s

def remaining : Source → Nat
  | .reader r => r.remaining
  | .script s => CharSource.remaining s

theorem remaining_read {s s' : Source} {g : Glyph} (h : s.read = (.char g, s')) :
    s'.remaining < s.remaining := by
  cases s with
  | reader r =>
    simp only [read, Prod.mk.injEq] at h
    rw [← h.2]
    exact LineReader.remaining_read (Prod.ext h.1 rfl)
  | script t =>
    simp only [read, Prod.mk.injEq] at h
    rw [← h.2]
    exact CharSource.remaining_read (s := t) (Prod.ext h.1 rfl)

instance : CharSource Source where
  read := read
  close := close
  closingEvents := closingEvents
  remaining := remaining
  remaining_read := remaining_read

end Source
end Lexis
