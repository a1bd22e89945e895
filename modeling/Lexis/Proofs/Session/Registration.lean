import Lexis.Proofs.Lexing.Tokenize
import Lexis.Proofs.Source.Calls
import Lexis.Proofs.TokenStream.Conversation
import Lexis.Session

/-! What the steps of a session register, and how the tables of a session follow from that. -/

namespace Lexis

theorem Tokenization.draws_of_ofSource {σ : Type} [CharSource σ] {source : σ} {table : SymbolTable}
    {t : Tokenization} (h : ofSource source table = .ok t) :
    ∃ s', (TokenStream.ofSource source table).Draws t.tokens s' ∧ s'.symbols = t.symbols := by
  obtain ⟨drained, hdrained, rfl⟩ := ok_of_map h
  obtain ⟨pulled, hpulled, rfl⟩ := ok_of_map hdrained
  obtain ⟨more, all, drawn⟩ := TokenStream.draws_pullAll hpulled
  refine ⟨pulled.2, ?_, rfl⟩
  rw [show pulled.1.toList = more from all]
  exact drawn

namespace Scan

def upTo (scan : Scan) (n : Nat) : Scan := { scan with turns := scan.turns.take n }

def tokens (scan : Scan) : List Token := scan.turns.flatMap fun turn => turn.1.drawn

theorem upTo_length (scan : Scan) : scan.upTo scan.turns.length = scan := by
  rw [upTo, List.take_length]

theorem draws_upTo {opened : MeteredStream} {requests : List TokenStream.Request} {scan : Scan}
    (h : run opened requests = .ok scan) (n : Nat) :
    opened.Draws (scan.upTo n).tokens (scan.upTo n).last := by
  obtain ⟨turns, conversed, rfl⟩ := ok_of_map h
  exact TokenStream.draws_converse conversed n

theorem symbols_dropped (scan : Scan) : scan.dropped.symbols = scan.last.symbols :=
  TokenStream.symbols_close _

end Scan

namespace Input

def source? : Input → Except Failure Source
  | .bytes content => .ok (.reader (.ofBytes content))
  | .script outcomes => .ok (.script ⟨outcomes⟩)
  | .file files path => (files path).map fun entry => .reader entry.reader

def glyphs (input : Input) : List Glyph :=
  match input.source? with
  | .ok source => CharSource.glyphs source
  | .error _ => []

def openingEvents : Input → Array LogEvent
  | .bytes _ | .script _ => #[]
  | .file _ path => #[.openedFile path]

theorem stream_eq (table : SymbolTable) (input : Input) :
    input.stream table = input.source?.map fun source =>
      TokenStream.advance
        { source := ⟨source, 0, 0⟩, symbols := table, log := input.openingEvents } := by
  cases input with
  | bytes content => rfl
  | script outcomes => rfl
  | file files path =>
      rw [stream, source?, openingEvents]
      cases files path <;> rfl

theorem symbols_stream {table : SymbolTable} {input : Input} {opened : MeteredStream}
    (h : input.stream table = .ok opened) : opened.symbols = table := by
  rw [stream_eq] at h
  obtain ⟨source, -, rfl⟩ := ok_of_map h
  exact TokenStream.symbols_advance _

theorem pending_stream {table : SymbolTable} {input : Input} {opened : MeteredStream}
    (h : input.stream table = .ok opened) : opened.pending = input.glyphs := by
  rw [stream_eq] at h
  obtain ⟨source, given, rfl⟩ := ok_of_map h
  rw [(TokenStream.opened rfl rfl rfl).1, (Metered.glyphs_eq _).1, glyphs, given]

end Input

namespace Session

def Result.tokens : Result → List Token
  | .tokenization t => t.tokens
  | .scan s => s.tokens
  | .symbol _ | .flag _ | .unopened _ => []

def Result.symbols : Result → List Symbol
  | .symbol found? => found?.toList
  | .tokenization t => t.tokens.map Token.symbol
  | .scan s => s.tokens.map Token.symbol
  | .flag _ | .unopened _ => []

/-- What a step asks a table to register. -/
def Step.interned : Step → List (String × Kind)
  | .intern spelling kind => [(spelling, kind)]
  | .resolve _ | .contains _ | .isEmpty | .tokenize _ | .scan _ _ => []

/-- A step of a session with its result and the table after it. -/
structure Turn where
  step : Step
  result : Result
  after : SymbolTable

namespace Turn

/-- What a table is asked to register, and what its token streams register. -/
def registrations (turn : Turn) : List (String × Kind) :=
  turn.step.interned ++ turn.result.tokens.filterMap Token.registration?

def spellings (turn : Turn) : List String :=
  turn.step.interned.map Prod.fst ++ turn.result.tokens.map Token.spelling

/-- A turn registers what its step and its tokens say. All symbols it hands out are held. -/
structure Registers (before : SymbolTable) (turn : Turn) : Prop where
  after : turn.after = before.internAll turn.registrations
  resolved : ∀ symbol ∈ turn.result.symbols, turn.after.resolve? symbol.spelling = some symbol
  tokens : ∀ token ∈ turn.result.tokens, token.symbol ∈ turn.result.symbols
  shaped : ∀ token ∈ turn.result.tokens, ∀ entry ∈ token.registration?,
    Shape entry.1.toList entry.2

theorem mem_spellings {turn : Turn} {entry : String × Kind} (h : entry ∈ turn.registrations) :
    entry.1 ∈ turn.spellings := by
  rcases List.mem_append.mp h with interned | drawn
  · exact List.mem_append_left _ (List.mem_map_of_mem interned)
  · obtain ⟨token, held, given⟩ := List.mem_filterMap.mp drawn
    rw [Token.fst_of_registration? given]
    exact List.mem_append_right _ (List.mem_map_of_mem held)

theorem Registers.contains {before : SymbolTable} {turn : Turn} (h : turn.Registers before)
    {spelling : String} (mem : spelling ∈ turn.spellings) :
    turn.after.contains spelling = true := by
  rcases List.mem_append.mp mem with interned | drawn
  · rw [h.after, SymbolTable.contains_internAll, registrations, List.map_append]
    exact .inr (List.mem_append_left _ interned)
  · obtain ⟨token, held, rfl⟩ := List.mem_map.mp drawn
    have found := h.resolved token.symbol (h.tokens token held)
    rw [SymbolTable.contains, Token.spelling, found]
    rfl

theorem Registers.of_lookup {before : SymbolTable} {turn : Turn} (after : turn.after = before)
    (interned : turn.step.interned = []) (tokens : turn.result.tokens = [])
    (resolved : ∀ symbol ∈ turn.result.symbols, before.resolve? symbol.spelling = some symbol) :
    turn.Registers before := by
  constructor
  · rw [registrations, interned, tokens]
    exact after
  · rw [after]
    exact resolved
  · rw [tokens]
    exact nofun
  · rw [tokens]
    exact nofun

theorem Registers.of_draws {σ : Type} [CharSource σ] {s s' : TokenStream σ} {turn : Turn}
    (drawn : s.Draws turn.result.tokens s') (after : turn.after = s'.symbols)
    (interned : turn.step.interned = [])
    (symbols : turn.result.symbols = turn.result.tokens.map Token.symbol) :
    turn.Registers s.symbols := by
  constructor
  · rw [after, drawn.symbols, registrations, interned]
    rfl
  · intro symbol mem
    rw [symbols] at mem
    obtain ⟨token, held, rfl⟩ := List.mem_map.mp mem
    rw [after]
    exact drawn.resolved token held
  · intro token held
    rw [symbols]
    exact List.mem_map_of_mem held
  · exact drawn.shaped

end Turn

/-- Every step registers what it says. -/
theorem perform_registers {before : SymbolTable} {turn : Turn}
    (h : perform before turn.step = .ok (turn.result, turn.after)) : turn.Registers before := by
  obtain ⟨step, result, after⟩ := turn
  change perform before step = .ok (result, after) at h
  cases step with
  | intern spelling kind =>
      cases h
      refine ⟨rfl, ?_, nofun, nofun⟩
      intro symbol mem
      cases List.mem_singleton.mp mem
      rw [SymbolTable.intern_spelling]
      exact SymbolTable.resolve?_intern_self _ _ _
  | resolve spelling =>
      cases h
      refine .of_lookup rfl rfl rfl ?_
      intro symbol mem
      have found := Option.mem_toList.mp mem
      rw [SymbolTable.spelling_of_resolve found]
      exact found
  | contains spelling =>
      cases h
      exact .of_lookup rfl rfl rfl nofun
  | isEmpty =>
      cases h
      exact .of_lookup rfl rfl rfl nofun
  | tokenize text =>
      obtain ⟨t, ht, same⟩ := ok_of_map h
      cases same
      obtain ⟨s', drawn, symbols⟩ := Tokenization.draws_of_ofSource ht
      rw [← TokenStream.symbols_ofSource (LineReader.ofString text) before]
      exact .of_draws drawn symbols.symm rfl rfl
  | scan input requests =>
      rw [perform] at h
      split at h
      next =>
        cases h
        exact .of_lookup rfl rfl rfl nofun
      next opened hopened =>
        obtain ⟨scan, hscan, same⟩ := ok_of_map h
        cases same
        have drawn := Scan.draws_upTo hscan scan.turns.length
        rw [scan.upTo_length] at drawn
        rw [← Input.symbols_stream hopened]
        exact .of_draws drawn scan.symbols_dropped rfl rfl

/-- The table that the turns of a session leave. -/
def leave (table : SymbolTable) (turns : List Turn) : SymbolTable :=
  turns.foldl (fun _ turn => turn.after) table

/-- Each step was performed on the table that the turns before it left. -/
inductive Happened : SymbolTable → List Turn → Prop
  | nil {table} : Happened table []
  | cons {table} {turn : Turn} {later} :
      perform table turn.step = .ok (turn.result, turn.after) → Happened turn.after later →
      Happened table (turn :: later)

/-- The steps of a session, each with what it came to. -/
def history (steps : List Step) (results : List (Result × SymbolTable)) : List Turn :=
  List.zipWith (fun step done => ⟨step, done.1, done.2⟩) steps results

theorem happened_of_run {table : SymbolTable} {steps : List Step}
    {results : List (Result × SymbolTable)} (h : run table steps = .ok results) :
    Happened table (history steps results) ∧ (history steps results).map Turn.step = steps := by
  induction steps generalizing table results with
  | nil =>
      cases h
      exact ⟨.nil, rfl⟩
  | cons step steps ih =>
      rw [run] at h
      split at h
      next => cases h
      next done performed =>
        obtain ⟨later, ran, rfl⟩ := ok_of_map h
        obtain ⟨happened, all⟩ := ih ran
        exact ⟨.cons performed happened, congrArg (step :: ·) all⟩

namespace Happened

variable {table : SymbolTable} {turns : List Turn}

theorem of_append {past later : List Turn} (h : Happened table (past ++ later)) :
    Happened table past ∧ Happened (leave table past) later := by
  induction past generalizing table with
  | nil => exact ⟨.nil, h⟩
  | cons turn past ih =>
      cases h with
      | cons performed rest => exact ⟨.cons performed (ih rest).1, (ih rest).2⟩

/-- The last table holds all that was registered, one after another. -/
theorem leave_eq (h : Happened table turns) :
    leave table turns = table.internAll (turns.flatMap Turn.registrations) := by
  induction h with
  | nil => rfl
  | cons performed _ ih =>
      rw [List.flatMap_cons, SymbolTable.internAll_append, ← (perform_registers performed).after]
      exact ih

theorem resolve?_leave (h : Happened table turns) {symbol : Symbol}
    (mem : symbol ∈ turns.flatMap fun turn => turn.result.symbols) :
    (leave table turns).resolve? symbol.spelling = some symbol := by
  induction h with
  | nil => cases mem
  | @cons _ turn later performed happened ih =>
      rcases List.mem_append.mp mem with here | further
      · change (leave turn.after later).resolve? symbol.spelling = some symbol
        rw [happened.leave_eq]
        exact SymbolTable.resolve?_internAll ((perform_registers performed).resolved symbol here) _
      · exact ih further

end Happened

end Session
end Lexis
