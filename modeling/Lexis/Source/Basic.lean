import Lexis.LogEvent

/-! Sources of characters: anything that can be read one character at a time. -/

namespace Lexis

inductive Outcome where
  | char (glyph : Glyph)
  | endOfInput
  | failure (cause : Failure)
deriving DecidableEq, Repr

/-- A source gives one outcome per read. It holds finitely many characters: a read that gives one
leaves fewer. -/
class CharSource (σ : Type) where
  read : σ → Outcome × σ
  close : σ → σ
  /-- What closing the source logs. -/
  closingEvents : σ → List LogEvent
  /-- A bound on the characters still to come. -/
  remaining : σ → Nat
  remaining_read : ∀ {s s' : σ} {g : Glyph}, read s = (.char g, s') → remaining s' < remaining s

/-- Reads up to the first outcome that is not a character, appending the characters to a text. -/
def CharSource.readRun {σ : Type} [CharSource σ] (text : String) (s : σ) : String × Outcome × σ :=
  match _ : read s with
  | (.char g, s') => readRun (text.push g.char) s'
  | (outcome, s') => (text, outcome, s')
termination_by remaining s
decreasing_by exact remaining_read ‹_›

end Lexis
