import Lexis.TokenStream.Next

/-! Talking to a token stream: a list of requests, and what each of them is answered. -/

namespace Lexis.TokenStream

inductive Request where
  | next
  | rest
  | close
  | diagnostics
  /-- The diagnostics, which the stream then forgets. -/
  | takeDiagnostics
deriving DecidableEq, Repr

inductive Reply where
  | done
  | token (token : Token)
  | noToken
  | tokens (tokens : List Token)
  | diagnostics (diagnostics : List Diagnostic)
deriving DecidableEq, Repr

variable {σ : Type} [CharSource σ]

def answer (s : TokenStream σ) : Request → Except Fault (Reply × TokenStream σ)
  | .next => s.next.map fun pulled =>
    (match pulled.1 with
      | some token => .token token
      | none => .noToken, pulled.2)
  | .rest => s.rest.map fun drained => (.tokens drained.1, drained.2)
  | .close => .ok (.done, s.close)
  | .diagnostics => .ok (.diagnostics s.diagnostics.toList, s)
  | .takeDiagnostics => .ok (.diagnostics s.takeDiagnostics.1, s.takeDiagnostics.2)

/-- The reply to each request, with the stream after it. -/
def converse (s : TokenStream σ) : List Request → Except Fault (List (Reply × TokenStream σ))
  | [] => .ok []
  | request :: requests =>
    match s.answer request with
    | .error fault => .error fault
    | .ok turn => (turn.2.converse requests).map (turn :: ·)

end Lexis.TokenStream
