import Lexis.Proofs.TokenStream.Tracking

/-! What a stream logs on its way: each token, each comment and each diagnostic once, in the order
in which they come. -/

namespace Lexis

def logged (message : String) (log : List LogEvent) : List LogEvent :=
  log.filter fun e => e.message == message

theorem logged_append (message : String) (log more : List LogEvent) :
    logged message (log ++ more) = logged message log ++ logged message more := List.filter_append _ _

namespace LogEvent

def written (e : LogEvent) : LogLevel × String × List (String × String) :=
  (e.level, e.message, e.fields)

def isAlarm (e : LogEvent) : Bool := e.level == .warn || e.level == .error

/-- The event says that a source was closed or let go of. -/
def isParting (e : LogEvent) : Bool :=
  e.message == "closed source" || e.message == "scanner released its source"

end LogEvent

/-- How a diagnostic is written to the log: a failed read is an error, and what is wrong with the
text a warning. -/
def Diagnostic.written (d : Diagnostic) : LogLevel × String × List (String × String) :=
  match d.problem with
  | .sourceUnreadable reason =>
    (.error, "failed to read source", [("line", toString d.position.line), ("error", reason)])
  | .illegalCharacter _ | .malformedLeadingDotLiteral _ =>
    (.warn, d.problem.message,
      [("line", toString d.position.line), ("column", toString d.position.column)])

def Problem.isTextual : Problem → Bool
  | .illegalCharacter _ | .malformedLeadingDotLiteral _ => true
  | .sourceUnreadable _ => false

theorem Problem.head?_message (problem : Problem) :
    problem.message.toList.head? = some 'i' ∨ problem.message.toList.head? = some 'u' := by
  have append {first : String} {c : Char} (h : first.toList.head? = some c) (more : String) :
      (first ++ more).toList.head? = some c := by
    rw [String.toList_append, List.head?_append, h, Option.some_or]
  unfold message
  cases problem with
  | illegalCharacter => exact .inl (append (by decide) _)
  | malformedLeadingDotLiteral => exact .inl (append (append (by decide) _) _)
  | sourceUnreadable => exact .inr (append (by decide) _)

theorem Problem.message_ne (problem : Problem) (message : String)
    (other : message.toList.head? ≠ some 'i' ∧ message.toList.head? ≠ some 'u') :
    (problem.message == message) = false := by
  rw [beq_eq_false_iff_ne]
  rintro rfl
  rcases problem.head?_message with i | u
  · exact other.1 i
  · exact other.2 u

/-- Events that tell of these tokens, of comments on these lines and of these diagnostics, and do
not tell of a source that is let go of. -/
structure Tells (events : List LogEvent) (tokens : List Token) (comments : List Nat)
    (news : List Diagnostic) : Prop where
  tokens : logged "scanned token" events = tokens.map .scannedToken
  comments : logged "skipping comment" events = comments.map .skippedComment
  alarms : (events.filter LogEvent.isAlarm).map LogEvent.written = news.map Diagnostic.written
  onward : ∀ e ∈ events, e.isParting = false

namespace Tells

theorem nil : Tells [] [] [] [] := ⟨rfl, rfl, rfl, nofun⟩

theorem append {events events' : List LogEvent} {tokens tokens' : List Token}
    {comments comments' : List Nat} {news news' : List Diagnostic}
    (h : Tells events tokens comments news) (h' : Tells events' tokens' comments' news') :
    Tells (events ++ events') (tokens ++ tokens') (comments ++ comments') (news ++ news') := by
  constructor
  · rw [logged_append, List.map_append, h.tokens, h'.tokens]
  · rw [logged_append, List.map_append, h.comments, h'.comments]
  · rw [List.filter_append, List.map_append, List.map_append, h.alarms, h'.alarms]
  · simp only [List.mem_append]
    rintro e (before | after)
    · exact h.onward e before
    · exact h'.onward e after

theorem openedFile (path : String) : Tells [.openedFile path] [] [] [] := by
  constructor <;> simp [logged, LogEvent.message, LogEvent.isAlarm, LogEvent.isParting,
    LogEvent.level]

theorem scannedToken (token : Token) : Tells [.scannedToken token] [token] [] [] := by
  constructor <;> simp [logged, LogEvent.message, LogEvent.isAlarm, LogEvent.isParting,
    LogEvent.level]

theorem skippedComment (line : Nat) : Tells [.skippedComment line] [] [line] [] := by
  constructor <;> simp [logged, LogEvent.message, LogEvent.isAlarm, LogEvent.isParting,
    LogEvent.level]

theorem readFailed (position : Position) (cause : Failure) :
    Tells [.readFailed position.line cause] [] [] [⟨.sourceUnreadable cause.message, position⟩] := by
  constructor <;> simp [logged, LogEvent.message, LogEvent.isAlarm, LogEvent.isParting,
    LogEvent.level, LogEvent.written, LogEvent.fields, Diagnostic.written]

theorem reported {d : Diagnostic} (textual : d.problem.isTextual = true) :
    Tells [.reported d] [] [] [d] := by
  constructor
  · simp [logged, LogEvent.message, d.problem.message_ne "scanned token" (by decide)]
  · simp [logged, LogEvent.message, d.problem.message_ne "skipping comment" (by decide)]
  · obtain ⟨problem, position⟩ := d
    cases problem with
    | sourceUnreadable => cases textual
    | _ => rfl
  · simp only [List.mem_singleton, forall_eq, LogEvent.isParting, LogEvent.message,
      Bool.or_eq_false_iff]
    exact ⟨d.problem.message_ne _ (by decide), d.problem.message_ne _ (by decide)⟩

end Tells

theorem Cuts.isTextual {known : String → Option Kind} {g : Glyph} {gs rest : List Glyph}
    {p : Segment} {problem : Problem} (h : Cuts known g gs p rest) (role : p.role = .problem problem) :
    problem.isTextual = true := by
  cases h with
  | malformed =>
      cases role
      rfl
  | illegal =>
      cases role
      rfl
  | _ => cases role

namespace TokenStream

variable {σ : Type}

/-- From a stream to a later one, the log went on with events that tell of these tokens and
comments, and of the diagnostics that were added. The source is held as before. -/
structure Logs (s : TokenStream σ) (tokens : List Token) (comments : List Nat)
    (s' : TokenStream σ) : Prop where
  released : s'.released = s.released
  told : ∃ events news, s'.log.toList = s.log.toList ++ events ∧
    s'.diagnostics.toList = s.diagnostics.toList ++ news ∧ Tells events tokens comments news

namespace Logs

variable {s s' s'' : TokenStream σ} {tokens more : List Token} {comments further : List Nat}

theorem silent (released : s'.released = s.released) (log : s'.log = s.log)
    (diagnostics : s'.diagnostics = s.diagnostics) : s.Logs [] [] s' := by
  refine ⟨released, [], [], ?_, ?_, .nil⟩
  · rw [log, List.append_nil]
  · rw [diagnostics, List.append_nil]

theorem trans (h : s.Logs tokens comments s') (h' : s'.Logs more further s'') :
    s.Logs (tokens ++ more) (comments ++ further) s'' := by
  obtain ⟨released, events, news, log, diagnostics, tells⟩ := h
  obtain ⟨released', events', news', log', diagnostics', tells'⟩ := h'
  refine ⟨released'.trans released, events ++ events', news ++ news', ?_, ?_, tells.append tells'⟩
  · rw [log', log, List.append_assoc]
  · rw [diagnostics', diagnostics, List.append_assoc]

theorem scannedToken (s : TokenStream σ) (token : Token) :
    s.Logs [token] [] (s.record (.scannedToken token)) :=
  ⟨rfl, _, [], Array.toList_push, (List.append_nil _).symm, .scannedToken token⟩

theorem skippedComment (s : TokenStream σ) (line : Nat) :
    s.Logs [] [line] (s.record (.skippedComment line)) :=
  ⟨rfl, _, [], Array.toList_push, (List.append_nil _).symm, .skippedComment line⟩

theorem report (s : TokenStream σ) {problem : Problem} (textual : problem.isTextual = true)
    (position : Position) : s.Logs [] [] (s.report problem position) :=
  ⟨rfl, _, _, Array.toList_push, Array.toList_push, .reported textual⟩

theorem receive (s : TokenStream σ) (source : σ) (outcome : Outcome) :
    s.Logs [] [] (s.receive source outcome) := by
  cases outcome with
  | char g => exact silent rfl rfl rfl
  | endOfInput => exact silent rfl rfl rfl
  | failure cause =>
      exact ⟨rfl, _, _, Array.toList_push, Array.toList_push, .readFailed s.position cause⟩

theorem emitLexeme {lexeme : String} {kind : Kind} {start : Position} {found : Option Token}
    (h : s.emitLexeme lexeme kind start = .ok (found, s')) : s.Logs found.toList [] s' := by
  have registered : s.Logs [] [] { s with symbols := (s.symbols.intern lexeme kind).2 } :=
    silent rfl rfl rfl
  unfold TokenStream.emitLexeme TokenStream.emit at h
  split at h
  · cases h
  · cases h
    exact registered.trans (scannedToken _ _)

variable [CharSource σ]

theorem advance (s : TokenStream σ) : s.Logs [] [] s.advance := by
  unfold TokenStream.advance
  split
  · exact silent rfl rfl rfl
  · exact receive s _ _

theorem advanceBy (s : TokenStream σ) (n : Nat) : s.Logs [] [] (s.advanceBy n) := by
  induction n generalizing s with
  | zero => exact silent rfl rfl rfl
  | succ n ih => exact (advance s).trans (ih s.advance)

/-- Dealing with a segment logs its token, its comment or its problem. -/
theorem deal {known : String → Option Kind} {g : Glyph} {gs rest : List Glyph} {p : Segment}
    {found : Option Token} (cuts : Cuts known g gs p rest) (h : s.deal p = .ok (found, s')) :
    s.Logs found.toList p.comment?.toList s' := by
  rw [TokenStream.deal] at h
  unfold Segment.comment?
  cases role : p.role with
  | blank =>
      rw [role] at h
      cases h
      exact advanceBy s _
  | comment =>
      rw [role] at h
      cases h
      exact (advance s).trans ((skippedComment _ _).trans (advanceBy _ _))
  | lexeme kind =>
      rw [role] at h
      exact (advanceBy s _).trans (emitLexeme h)
  | problem problem =>
      rw [role] at h
      cases h
      exact (advanceBy s _).trans (report _ (cuts.isTextual role) _)

end Logs

end TokenStream
end Lexis
