import Lexis.CharClass
import Lexis.Fault
import Lexis.Source.Basic

/-! A pull-based stream of tokens over a source of characters: its state, and how it moves forward
and lets go of its source. -/

namespace Lexis

/-- A source that is being turned into tokens. `lookahead` is the next character not consumed yet,
and is absent at end of input. The stream registers what it finds in `symbols`. -/
structure TokenStream (σ : Type) where
  source : σ
  symbols : SymbolTable
  lookahead : Option Glyph := none
  released : Bool := false
  diagnostics : Array Diagnostic := #[]
  log : Array LogEvent := #[]

namespace TokenStream

variable {σ : Type}

def atEnd (s : TokenStream σ) : Bool := s.lookahead.isNone

/-- The place of the lookahead, which is the character read last. Without one it is where a source
stands before its first character. -/
def position (s : TokenStream σ) : Position :=
  match s.lookahead with
  | some g => g.position
  | none => .start

def record (s : TokenStream σ) (event : LogEvent) : TokenStream σ :=
  { s with log := s.log.push event }

def report (s : TokenStream σ) (problem : Problem) (position : Position) : TokenStream σ :=
  { s with
    diagnostics := s.diagnostics.push ⟨problem, position⟩
    log := s.log.push (.reported ⟨problem, position⟩) }

def reportFailure (s : TokenStream σ) (cause : Failure) : TokenStream σ :=
  { s with
    diagnostics := s.diagnostics.push ⟨.sourceUnreadable cause.message, s.position⟩
    log := s.log.push (.readFailed s.position.line cause) }

def receive (s : TokenStream σ) (source : σ) : Outcome → TokenStream σ
  | .char g => { s with source, lookahead := some g }
  | .endOfInput => { s with source, lookahead := none }
  | .failure cause => { s.reportFailure cause with source, lookahead := none }

variable [CharSource σ]

/-- Moves the lookahead one character forward. A source that was released is not read. -/
def advance (s : TokenStream σ) : TokenStream σ :=
  if s.released then { s with lookahead := none }
  else
    let given := CharSource.read s.source
    s.receive given.2 given.1

def ofSource (source : σ) (symbols : SymbolTable) : TokenStream σ :=
  advance { source, symbols }

/-- Closes the source and stands at end of input. Closing again changes nothing. -/
def close (s : TokenStream σ) : TokenStream σ :=
  if s.released then { s with lookahead := none }
  else { s with
    source := CharSource.close s.source
    lookahead := none
    released := true
    log := (s.log ++ CharSource.closingEvents s.source).push (.releasedSource s.diagnostics.size) }

/-- A bound on the characters still to be consumed, the lookahead among them. -/
def unread (s : TokenStream σ) : Nat :=
  match s.lookahead with
  | none => 0
  | some _ => CharSource.remaining s.source + 1

theorem unread_advance {s : TokenStream σ} {g : Glyph} (h : s.lookahead = some g) :
    s.advance.unread < s.unread := by
  have before : s.unread = CharSource.remaining s.source + 1 := by simp only [unread, h]
  rw [before, advance]
  split
  · simp [unread]
  · cases given : CharSource.read s.source with
    | mk outcome source =>
      cases outcome with
      | char g' => exact Nat.succ_lt_succ (CharSource.remaining_read given)
      | endOfInput => simp [receive, unread]
      | failure cause => simp [receive, unread]

end TokenStream
end Lexis
