import Lexis.Source.LineReader
import Lexis.TokenStream.Lexeme

/-! Pulling tokens: one at a time, all that remain, or all of a text. -/

namespace Lexis

namespace TokenStream

variable {σ : Type} [CharSource σ]

/-- The next token. Blanks, comments and reported pieces are passed over; at end of input the source
is released and there is no token. -/
def next (s : TokenStream σ) : Except Fault (Option Token × TokenStream σ) :=
  match _ : s.lookahead with
  | none => .ok (none, s.close)
  | some g =>
    if CharClass.isBlank g.char then s.advance.next
    else match _ : s.scanPiece g with
      | .error fault => .error fault
      | .ok (some token, s') => .ok (some token, s')
      | .ok (none, s') => s'.next
termination_by s.unread
decreasing_by
  · exact unread_advance ‹_›
  · exact unread_scanPiece ‹_› ‹_›

theorem unread_next {s s' : TokenStream σ} {token : Token} (h : s.next = .ok (some token, s')) :
    s'.unread < s.unread := by
  fun_induction next s with
  | case1 => simp at h
  | case2 s g hg _ ih => exact Nat.lt_trans (ih h) (unread_advance hg)
  | case3 => simp at h
  | case4 s g hg _ token s' hpiece =>
    cases h
    exact unread_scanPiece hg hpiece
  | case5 s g hg _ s' hpiece ih => exact Nat.lt_trans (ih h) (unread_scanPiece hg hpiece)

def pullAll (tokens : Array Token) (s : TokenStream σ) :
    Except Fault (Array Token × TokenStream σ) :=
  match _ : s.next with
  | .error fault => .error fault
  | .ok (none, s') => .ok (tokens, s')
  | .ok (some token, s') => pullAll (tokens.push token) s'
termination_by s.unread
decreasing_by exact unread_next ‹_›

def rest (s : TokenStream σ) : Except Fault (List Token × TokenStream σ) :=
  (s.pullAll #[]).map fun pulled => (pulled.1.toList, pulled.2)

/-- The diagnostics recorded since they were last taken, which the stream then forgets. -/
def takeDiagnostics (s : TokenStream σ) : List Diagnostic × TokenStream σ :=
  (s.diagnostics.toList, { s with diagnostics := #[] })

end TokenStream

/-- The tokens and diagnostics of a whole source, and the table with the symbols found in it. -/
structure Tokenization where
  tokens : List Token
  diagnostics : List Diagnostic
  symbols : SymbolTable
deriving Repr

namespace Tokenization

def ofSource {σ : Type} [CharSource σ] (source : σ) (symbols : SymbolTable) :
    Except Fault Tokenization :=
  (TokenStream.ofSource source symbols).rest.map fun drained =>
    ⟨drained.1, drained.2.diagnostics.toList, drained.2.symbols⟩

end Tokenization

def tokenize (text : String) (symbols : SymbolTable) : Except Fault Tokenization :=
  Tokenization.ofSource (LineReader.ofString text) symbols

end Lexis
