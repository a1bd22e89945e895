import Lexis.Proofs.Session.Returning
import Lexis.Proofs.TokenStream.Agreement

/-! What is scanned does not depend on what was scanned before, nor the kinds in a table on the
order of the scans. -/

namespace Lexis

open TokenStream (Alike)

section

variable {known : String → Option Kind} {table table' : SymbolTable}

theorem TokenStream.alike_opened {σ : Type} [CharSource σ] (source : σ) (log : Array LogEvent)
    (left : table.Follows known) (right : table'.Follows known) :
    Alike known (advance { source, symbols := table, log })
      (advance { source, symbols := table', log }) := by
  obtain ⟨pending, ending, diagnostics⟩ :=
    opened (s := { source, symbols := table, log }) rfl rfl rfl
  obtain ⟨pending', ending', diagnostics'⟩ :=
    opened (s := { source, symbols := table', log }) rfl rfl rfl
  constructor
  · rw [pending, pending']
  · intro some
    rw [pending] at some
    rw [ending some, ending' some]
  · rw [diagnostics, diagnostics']
  · rwa [symbols_advance]
  · rwa [symbols_advance]

theorem Input.stream_agrees (input : Input) (left : table.Follows known)
    (right : table'.Follows known) :
    Agree (Alike known) (input.stream table) (input.stream table') := by
  rw [stream_eq, stream_eq]
  cases input.source? with
  | error failure => exact .fault failure
  | ok source => exact .ok (TokenStream.alike_opened _ _ left right)

theorem Tokenization.ofSource_agrees {σ : Type} [CharSource σ] (source : σ)
    (left : table.Follows known) (right : table'.Follows known) :
    Agree (fun a b => a.tokens.map Token.unnumbered = b.tokens.map Token.unnumbered ∧
      a.diagnostics = b.diagnostics) (ofSource source table) (ofSource source table') := by
  apply (TokenStream.alike_opened source #[] left right).rest.map
  rintro a b ⟨tokens, alike⟩
  exact ⟨tokens, alike.diagnostics⟩

end

namespace Session

open TokenStream (Reply shown)

/-- What scanning tells at every request, whatever the numbers of symbols. Looking up and interning
tell nothing of this kind. -/
def Result.shown : Result → Except Failure (List (Reply × List Diagnostic))
  | .tokenization t => .ok [(.tokens (t.tokens.map Token.unnumbered), t.diagnostics)]
  | .scan s => .ok ((.done, s.opened.diagnostics.toList) :: s.turns.map TokenStream.shown)
  | .unopened failure => .error failure
  | .symbol _ | .flag _ => .ok []

/-- The words and numbers that a step finds when it is the first of a session. -/
def Step.found (step : Step) : List (String × Kind) :=
  match perform .standard step with
  | .ok done => done.1.tokens.filterMap Token.registration?
  | .error _ => []

section

variable {known : String → Option Kind} {table table' : SymbolTable}

theorem perform_agrees (step : Step) (left : table.Follows known) (right : table'.Follows known) :
    Agree (fun a b => a.1.shown = b.1.shown) (perform table step) (perform table' step) := by
  cases step with
  | intern spelling kind => exact .ok rfl
  | resolve spelling => exact .ok rfl
  | contains spelling => exact .ok rfl
  | isEmpty => exact .ok rfl
  | tokenize text =>
      apply (Tokenization.ofSource_agrees (LineReader.ofString text) left right).map
      rintro a b ⟨tokens, diagnostics⟩
      simp only [Result.shown, tokens, diagnostics]
  | scan input requests =>
      have opened := input.stream_agrees left right
      rw [perform, perform]
      cases first : input.stream table with
      | error failure =>
          rw [first] at opened
          rw [opened.of_fault]
          exact .ok rfl
      | ok s =>
          rw [first] at opened
          obtain ⟨s', second, alike⟩ := opened.of_ok
          rw [second]
          have scans : Agree (fun a b => (Result.scan a).shown = (Result.scan b).shown)
              (Scan.run s requests) (Scan.run s' requests) := by
            apply (alike.converse requests).map
            intro turns turns' same
            simp only [Result.shown, alike.diagnostics, same]
          apply scans.map
          intro a b same
          exact same

theorem Result.tokens_of_shown {a b : Result} (same : a.shown = b.shown) :
    a.tokens.map Token.unnumbered = b.tokens.map Token.unnumbered := by
  have told (result : Result) : result.tokens.map Token.unnumbered =
      match result.shown with
      | .ok turns => turns.flatMap fun turn => turn.1.drawn
      | .error _ => [] := by
    cases result with
    | symbol => rfl
    | flag => rfl
    | unopened => rfl
    | tokenization t => simp [Result.tokens, Result.shown, Reply.drawn]
    | scan s =>
        simp only [Result.tokens, Result.shown, Scan.tokens, List.flatMap_cons, List.flatMap_map,
          List.map_flatMap, TokenStream.shown, TokenStream.drawn_unnumbered]
        rfl
  rw [told a, told b, same]

theorem filterMap_registration?_unnumbered (tokens : List Token) :
    (tokens.map Token.unnumbered).filterMap Token.registration? =
      tokens.filterMap Token.registration? :=
  List.filterMap_map

/-- On every table that scanning made, a step finds what it finds first of all. -/
theorem registrations_eq {turn : Turn} (follows : table.Follows Kind.ofSpelling?)
    (h : perform table turn.step = .ok (turn.result, turn.after)) :
    turn.registrations = turn.step.interned ++ turn.step.found := by
  have agrees := perform_agrees turn.step follows SymbolTable.follows_standard
  rw [h] at agrees
  obtain ⟨done, first, same⟩ := agrees.of_ok
  have tokens := congrArg (List.filterMap Token.registration?) (Result.tokens_of_shown same)
  rw [filterMap_registration?_unnumbered, filterMap_registration?_unnumbered] at tokens
  rw [Turn.registrations, Step.found, first, tokens]

theorem shape_of_mem_found {step : Step} {entry : String × Kind} (h : entry ∈ step.found) :
    Shape entry.1.toList entry.2 := by
  rw [Step.found] at h
  split at h
  next done first =>
    obtain ⟨token, held, given⟩ := List.mem_filterMap.mp h
    have registers : Turn.Registers .standard ⟨step, done.1, done.2⟩ := perform_registers first
    exact registers.shaped token held entry given
  next => cases h

theorem follows_of_perform {step : Step} {done : Result × SymbolTable}
    (scans : step.interned = []) (follows : table.Follows known)
    (h : perform table step = .ok done) : done.2.Follows known := by
  have registers : Turn.Registers table ⟨step, done.1, done.2⟩ := perform_registers h
  have after := registers.after
  change done.2 = table.internAll (step.interned ++ _) at after
  rw [after, scans]
  apply follows.internAll
  intro entry mem
  obtain ⟨token, held, given⟩ := List.mem_filterMap.mp mem
  exact registers.shaped token held entry given

/-- A session of scans comes to an end just when each of its steps does so by itself. -/
theorem run_returns_iff {steps : List Step} (scans : ∀ step ∈ steps, step.interned = [])
    (follows : table.Follows Kind.ofSpelling?) :
    (∃ results, run table steps = .ok results) ↔
      ∀ step ∈ steps, ∃ done, perform .standard step = .ok done := by
  induction steps generalizing table with
  | nil => exact ⟨fun _ => nofun, fun _ => ⟨[], rfl⟩⟩
  | cons step steps ih =>
      obtain ⟨here, later⟩ := List.forall_mem_cons.mp scans
      have agrees := perform_agrees step follows SymbolTable.follows_standard
      rw [run, List.forall_mem_cons]
      cases performed : perform table step with
      | error fault =>
          rw [performed] at agrees
          rw [agrees.of_fault]
          constructor
          · rintro ⟨_, ran⟩
            cases ran
          · rintro ⟨⟨_, first⟩, -⟩
            cases first
      | ok done =>
          rw [performed] at agrees
          obtain ⟨first, alone, -⟩ := agrees.of_ok
          rw [← ih later (follows_of_perform here follows performed)]
          constructor
          · rintro ⟨_, ran⟩
            obtain ⟨results, rest, -⟩ := ok_of_map ran
            exact ⟨⟨first, alone⟩, results, rest⟩
          · rintro ⟨-, results, rest⟩
            exact ⟨_, map_eq_ok.mpr ⟨results, rest, rfl⟩⟩

/-- A session of scans leaves what each of its steps finds by itself. -/
theorem Happened.leave_scans {turns : List Turn} (h : Happened table turns)
    (scans : ∀ turn ∈ turns, turn.step.interned = [])
    (follows : table.Follows Kind.ofSpelling?) :
    leave table turns = table.internAll ((turns.map Turn.step).flatMap Step.found) ∧
      (leave table turns).Follows Kind.ofSpelling? := by
  induction h with
  | nil => exact ⟨rfl, follows⟩
  | @cons table turn later performed happened ih =>
      obtain ⟨here, further⟩ := List.forall_mem_cons.mp scans
      obtain ⟨rest, kept⟩ := ih further (follows_of_perform here follows performed)
      refine ⟨?_, kept⟩
      have found := registrations_eq follows performed
      rw [here] at found
      rw [List.map_cons, List.flatMap_cons, SymbolTable.internAll_append,
        show turn.step.found = turn.registrations from found.symm,
        ← (perform_registers performed).after]
      exact rest

end

theorem lookup_eq_some_of_shaped {entries : List (String × Kind)}
    (shaped : ∀ entry ∈ entries, Shape entry.1.toList entry.2) {spelling : String} {kind : Kind} :
    entries.lookup spelling = some kind ↔ (spelling, kind) ∈ entries := by
  have mem {kind : Kind} (h : entries.lookup spelling = some kind) : (spelling, kind) ∈ entries := by
    obtain ⟨before, after, split, -⟩ := List.lookup_eq_some_iff.mp h
    rw [split]
    exact List.mem_append_right _ List.mem_cons_self
  constructor
  · exact mem
  · intro held
    have known := SymbolTable.isSome_lookup.mpr (List.mem_map_of_mem (f := Prod.fst) held)
    obtain ⟨other, given⟩ := Option.isSome_iff_exists.mp known
    rw [given]
    exact congrArg some ((shaped _ (mem given)).unique (shaped _ held))

theorem lookup_perm {entries entries' : List (String × Kind)}
    (shaped : ∀ entry ∈ entries, Shape entry.1.toList entry.2) (perm : entries'.Perm entries)
    (spelling : String) : entries'.lookup spelling = entries.lookup spelling := by
  have shaped' : ∀ entry ∈ entries', Shape entry.1.toList entry.2 :=
    fun entry mem => shaped entry (perm.mem_iff.mp mem)
  ext kind
  rw [lookup_eq_some_of_shaped shaped', lookup_eq_some_of_shaped shaped, perm.mem_iff]

theorem leave_run {steps : List Step} {results : List (Result × SymbolTable)}
    (scans : ∀ step ∈ steps, step.interned = []) (h : run .standard steps = .ok results) :
    leave .standard (history steps results) =
        SymbolTable.standard.internAll (steps.flatMap Step.found) ∧
      (leave .standard (history steps results)).Follows Kind.ofSpelling? := by
  obtain ⟨happened, all⟩ := happened_of_run h
  have turns : ∀ turn ∈ history steps results, turn.step.interned = [] := by
    intro turn mem
    apply scans
    rw [← all]
    exact List.mem_map_of_mem mem
  have leaves := happened.leave_scans turns SymbolTable.follows_standard
  rwa [all] at leaves

theorem kind?_found (steps : List Step) (spelling : String) :
    (SymbolTable.standard.internAll (steps.flatMap Step.found)).kind? spelling =
      (Kind.ofSpelling? spelling).or ((steps.flatMap Step.found).lookup spelling) := by
  rw [SymbolTable.kind?_internAll, SymbolTable.kind?_standard]

theorem shape_of_mem_flatMap_found {steps : List Step} :
    ∀ entry ∈ steps.flatMap Step.found, Shape entry.1.toList entry.2 := by
  intro entry mem
  obtain ⟨step, -, found⟩ := List.mem_flatMap.mp mem
  exact shape_of_mem_found found

/-- Whatever was scanned before, a scan tells the same as with a table of its own, and the kinds in
the table do not depend on the order. -/
theorem run_independent {steps : List Step} {results : List (Result × SymbolTable)}
    (scans : ∀ step ∈ steps, step.interned = []) (h : run .standard steps = .ok results) :
    let table := leave .standard (history steps results)
    (∀ step, (perform table step).map (·.1.shown) = (perform .standard step).map (·.1.shown)) ∧
      (∀ symbol ∈ table.symbols, Kind.ofSpelling? symbol.spelling = some symbol.kind ∨
        Kind.ofSpelling? symbol.spelling = none ∧ Shape symbol.spelling.toList symbol.kind) ∧
      ∀ steps', steps'.Perm steps → ∃ results', run .standard steps' = .ok results' ∧
        ∀ spelling, (leave .standard (history steps' results')).kind? spelling =
          table.kind? spelling := by
  intro table
  obtain ⟨same, follows⟩ := leave_run scans h
  refine ⟨?_, ?_, ?_⟩
  -- What a scan tells depends on the table only through the kinds that it follows.
  · intro step
    exact (perform_agrees step follows SymbolTable.follows_standard).map_eq id
  · intro symbol mem
    have wf : table.WellFormed := by
      rw [show table = _ from same]
      exact SymbolTable.WellFormed.standard.internAll _
    have kind : table.kind? symbol.spelling = some symbol.kind := by
      rw [SymbolTable.kind?, wf.resolve?_of_mem mem, Option.map_some]
    rw [show table = _ from same, kind?_found] at kind
    cases fixed : Kind.ofSpelling? symbol.spelling with
    | some fixedKind =>
        rw [fixed, Option.some_or] at kind
        exact .inl kind
    | none =>
        rw [fixed, Option.none_or, lookup_eq_some_of_shaped shape_of_mem_flatMap_found] at kind
        exact .inr ⟨rfl, shape_of_mem_flatMap_found _ kind⟩
  -- Each step returns by itself, so the steps return in any order.
  · intro steps' perm
    have scans' : ∀ step ∈ steps', step.interned = [] :=
      fun step mem => scans step (perm.mem_iff.mp mem)
    have returns := (run_returns_iff scans SymbolTable.follows_standard).mp ⟨results, h⟩
    obtain ⟨results', h'⟩ := (run_returns_iff scans' SymbolTable.follows_standard).mpr
      fun step mem => returns step (perm.mem_iff.mp mem)
    refine ⟨results', h', ?_⟩
    intro spelling
    rw [(leave_run scans' h').1, show table = _ from same, kind?_found, kind?_found,
      lookup_perm shape_of_mem_flatMap_found (perm.flatMap_right _)]

/-- A table that has seen words and numbers, and the same ones in another order. -/
theorem run_independent_swapped :
    let steps : List Step := [.tokenize "x = 1.", .tokenize "int x // y"]
    (∀ step ∈ steps, step.interned = []) ∧ ∃ results, run .standard steps = .ok results ∧
      (perform (leave .standard (history steps results)) (.tokenize "x ++ z")).map (·.1.shown) =
        .ok (.ok [(.tokens [⟨⟨0, "x", .identifier⟩, 1, 0, 0⟩, ⟨⟨0, "++", .plusPlus⟩, 1, 2, 3⟩,
          ⟨⟨0, "z", .identifier⟩, 1, 5, 5⟩], [])]) ∧
      ∃ results', run .standard steps.reverse = .ok results' ∧
        ["x", "1.", "int", "y"].map (leave .standard (history steps.reverse results')).kind? =
          [some .identifier, some .floatLiteral, some .kwInt, none] := by
  intro steps
  have narrow : ∀ step ∈ steps, step.Narrow := by
    simp only [steps, List.forall_mem_cons]
    exact ⟨show "x = 1.".length < wordLimit by decide,
      show "int x // y".length < wordLimit by decide, nofun⟩
  have scans : ∀ step ∈ steps, step.interned = [] := by
    simp only [steps, List.forall_mem_cons]
    exact ⟨rfl, rfl, nofun⟩
  obtain ⟨results, ran⟩ := run_returns narrow .standard
  obtain ⟨same, -, reordered⟩ := run_independent scans ran
  obtain ⟨results', ran', kinds⟩ := reordered _ (List.reverse_perm steps)
  have alone : (perform .standard (.tokenize "x ++ z")).map (·.1.shown) =
      .ok (.ok [(.tokens [⟨⟨0, "x", .identifier⟩, 1, 0, 0⟩, ⟨⟨0, "++", .plusPlus⟩, 1, 2, 3⟩,
        ⟨⟨0, "z", .identifier⟩, 1, 5, 5⟩], [])]) := by
    decide +kernel
  have known : (run .standard steps).map (fun results =>
        ["x", "1.", "int", "y"].map (leave .standard (history steps results)).kind?) =
      .ok [some .identifier, some .floatLiteral, some .kwInt, none] := by
    decide +kernel
  rw [ran] at known
  refine ⟨scans, results, ran, (same _).trans alone, results', ran', ?_⟩
  rw [funext kinds]
  exact Except.ok.inj known

end Session
end Lexis
