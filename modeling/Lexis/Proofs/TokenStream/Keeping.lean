import Lexis.Proofs.TokenStream.Conversation
import Lexis.Proofs.TokenStream.Tracking

/-! Properties of a stream and its source that each step forward keeps: all requests keep them. -/

namespace Lexis.TokenStream

variable {σ : Type} [CharSource σ]

/-- Steps forward from a character keep a property, and so does letting go of the source at the end.
The property does not depend on what was found. -/
structure Kept (P : TokenStream σ → Prop) : Prop where
  advance : ∀ {s : TokenStream σ} {g : Glyph}, s.lookahead = some g → P s → P s.advance
  found : ∀ {s : TokenStream σ} (symbols : SymbolTable) (diagnostics : Array Diagnostic)
    (log : Array LogEvent), P s → P { s with symbols, diagnostics, log }
  ended : ∀ {s : TokenStream σ}, s.lookahead = none → P s → P s.close

namespace Kept

variable {P : TokenStream σ → Prop} {s s' : TokenStream σ}

theorem advanceBy (kept : Kept P) {gs rest : List Glyph} (hs : s.pending = gs ++ rest) (h : P s) :
    P (s.advanceBy gs.length) := by
  induction gs generalizing s with
  | nil => exact h
  | cons g gs ih => exact ih (pending_advance hs) (kept.advance (lookahead_of_pending hs) h)

theorem emit (kept : Kept P) {symbol : Symbol} {start : Position} {length : Nat}
    {found : Option Token} (h : P s) (emitted : s.emit symbol start length = .ok (found, s')) :
    P s' := by
  rw [TokenStream.emit] at emitted
  split at emitted
  next => cases emitted
  next =>
    cases emitted
    exact kept.found _ _ _ h

theorem deal (kept : Kept P) {p : Segment} {rest : List Glyph} {found : Option Token}
    (hs : s.pending = p.glyphs ++ rest) (h : P s) (dealt : s.deal p = .ok (found, s')) : P s' := by
  rw [TokenStream.deal] at dealt
  split at dealt
  next =>
    cases dealt
    exact kept.advanceBy hs h
  next =>
    cases dealt
    have second : (s.advance.record (.skippedComment p.first.position.line)).pending =
        p.more ++ rest := pending_advance hs
    apply kept.advanceBy second
    exact kept.found _ _ _ (kept.advance (lookahead_of_pending hs) h)
  next => exact kept.emit (kept.found _ _ _ (kept.advanceBy hs h)) dealt
  next =>
    cases dealt
    exact kept.found _ _ _ (kept.advanceBy hs h)

theorem tracked (kept : Kept P) (known : String → Option Kind) : Tracked known fun _ => P where
  deal := by
    intro s s' g gs rest p tokens found _ hs cuts _ dealt h
    exact kept.deal (hs.trans cuts.glyphs_append.symm) h dealt
  ended := by
    intro s tokens hs h
    exact kept.ended (by rw [lookahead_eq, hs, List.head?_nil]) h

theorem next (kept : Kept P) {found : Option Token} (h : P s) (pulled : s.next = .ok (found, s')) :
    P s' :=
  ((kept.tracked _).next [] (.refl s.symbols) h pulled).1

theorem pullAll (kept : Kept P) {tokens : Array Token} {pulled : Array Token × TokenStream σ}
    (h : P s) (drained : s.pullAll tokens = .ok pulled) : P pulled.2 := by
  obtain ⟨more, -, later⟩ := (kept.tracked _).pullAll [] (.refl s.symbols) h drained
  exact later

/-- A request keeps the property, unless it closes the stream while there is more to read. -/
theorem answer (kept : Kept P) {request : Request} {reply : Reply}
    (closing : request = .close → P s.close) (h : P s)
    (answered : s.answer request = .ok (reply, s')) : P s' := by
  by_cases quiet : request = .takeDiagnostics
  · subst quiet
    cases answered
    exact kept.found _ _ _ h
  · exact (kept.tracked _).answer [] (.refl s.symbols) quiet closing h answered

end Kept
end Lexis.TokenStream
