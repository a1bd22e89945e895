import Lexis.Proofs.Session.Returning

/-! Sessions hand out one symbol for each spelling, and register no more than is interned or handed
out. -/

namespace Lexis.Session

open SymbolTable

namespace Turn

/-- How a turn answers on a table after these spellings were registered. While a source is scanned,
the table holds nothing that lies ahead. -/
def Answers (spellings : List String) (before : SymbolTable) (turn : Turn) : Prop :=
  match turn.step, turn.result with
  | .intern spelling _, .symbol found? =>
    ∃ symbol, found? = some symbol ∧ symbol.spelling = spelling
  | .resolve spelling, .symbol found? =>
    turn.after = before ∧ (∀ symbol ∈ found?, symbol.spelling = spelling) ∧
      (found?.isSome = true ↔ Known spellings spelling)
  | .contains spelling, .flag value =>
    turn.after = before ∧ (value = true ↔ Known spellings spelling)
  | .isEmpty, .flag value => turn.after = before ∧ value = false
  | .tokenize text, .tokenization t =>
    ∀ token ∈ t.tokens, token.StandsIn (Text.placed .first text.toList)
  | .scan input _, .scan found =>
    (∀ token ∈ found.tokens, token.StandsIn input.glyphs) ∧
      ∀ n, (found.upTo n).last.symbols.Holds
        (spellings ++ (found.upTo n).tokens.map Token.spelling)
  | .scan _ _, .unopened _ => turn.after = before
  | _, _ => False

end Turn

theorem isEmpty_of_holds {table : SymbolTable} {spellings : List String}
    (h : table.Holds spellings) : table.isEmpty = false := by
  have counted := h.size
  rw [size] at counted
  rw [isEmpty, List.isEmpty_eq_false_iff, ← List.length_pos_iff]
  omega

theorem holds_upTo {before : SymbolTable} {spellings : List String} {opened : MeteredStream}
    {requests : List TokenStream.Request} {scan : Scan} (holds : before.Holds spellings)
    (wf : before.WellFormed) (symbols : opened.symbols = before)
    (h : Scan.run opened requests = .ok scan) (n : Nat) :
    (scan.upTo n).last.symbols.Holds (spellings ++ (scan.upTo n).tokens.map Token.spelling) := by
  have drawn := Scan.draws_upTo h n
  have after := drawn.symbols
  rw [symbols] at after
  rw [after]
  apply holds.internAll wf
  · intro entry mem
    obtain ⟨token, held, given⟩ := List.mem_filterMap.mp mem
    rw [Token.fst_of_registration? given]
    exact List.mem_map_of_mem held
  · intro spelling mem
    obtain ⟨token, held, rfl⟩ := List.mem_map.mp mem
    rw [← after, SymbolTable.contains, drawn.resolved token held]
    rfl

theorem perform_answers {before : SymbolTable} {spellings : List String} {turn : Turn}
    (holds : before.Holds spellings) (wf : before.WellFormed)
    (h : perform before turn.step = .ok (turn.result, turn.after)) :
    turn.Answers spellings before := by
  obtain ⟨step, result, after⟩ := turn
  change perform before step = .ok (result, after) at h
  cases step with
  | intern spelling kind =>
      cases h
      exact ⟨_, rfl, intern_spelling _ _ _⟩
  | resolve spelling =>
      cases h
      refine ⟨rfl, ?_, holds.contains spelling⟩
      intro symbol found
      exact spelling_of_resolve found
  | contains spelling =>
      cases h
      exact ⟨rfl, holds.contains spelling⟩
  | isEmpty =>
      cases h
      exact ⟨rfl, isEmpty_of_holds holds⟩
  | tokenize text =>
      obtain ⟨t, ht, same⟩ := ok_of_map h
      cases same
      obtain ⟨s', drawn, -⟩ := Tokenization.draws_of_ofSource ht
      intro token held
      have placed := drawn.placed token held
      rw [(TokenStream.opened_ofSource _ _).1, (LineReader.glyphs_ofString text).1] at placed
      exact placed
  | scan input requests =>
      rw [perform] at h
      split at h
      next =>
        cases h
        rfl
      next opened hopened =>
        obtain ⟨scan, hscan, same⟩ := ok_of_map h
        cases same
        have drawn := Scan.draws_upTo hscan scan.turns.length
        rw [scan.upTo_length] at drawn
        refine ⟨?_, holds_upTo holds wf (Input.symbols_stream hopened) hscan⟩
        intro token held
        have placed := drawn.placed token held
        rw [Input.pending_stream hopened] at placed
        exact placed

namespace Happened

variable {table : SymbolTable} {turns : List Turn}

theorem wellFormed (h : Happened table turns) (wf : table.WellFormed) :
    (leave table turns).WellFormed := by
  rw [h.leave_eq]
  exact wf.internAll _

/-- The last table knows what was known before, and what was interned or handed out since. -/
theorem holds (h : Happened table turns) {spellings : List String} (wf : table.WellFormed)
    (start : table.Holds spellings) :
    (leave table turns).Holds (spellings ++ turns.flatMap Turn.spellings) := by
  -- A turn adds its own spellings to those that the table held before it.
  induction h generalizing spellings with
  | nil =>
      rw [List.flatMap_nil, List.append_nil]
      exact start
  | @cons table turn later performed happened ih =>
      have registers := perform_registers performed
      have after := registers.after
      rw [List.flatMap_cons, ← List.append_assoc]
      apply ih
      · rw [after]
        exact wf.internAll _
      · rw [after]
        apply start.internAll wf
        · intro entry mem
          exact Turn.mem_spellings mem
        · intro spelling mem
          rw [← after]
          exact registers.contains mem

end Happened

/-- Symbols are the same just when their spellings are, each with its first kind, and the table
knows what was interned or handed out so far. -/
theorem run_interns {steps : List Step} {results : List (Result × SymbolTable)}
    (h : run .standard steps = .ok results) :
    let turns := history steps results
    let symbols := turns.flatMap fun turn => turn.result.symbols
    turns.map Turn.step = steps ∧
      (∀ a ∈ symbols, ∀ b ∈ symbols, a.same b = true ↔ a.spelling = b.spelling) ∧
      (∀ a ∈ symbols,
        (Kind.fixed ++ turns.flatMap Turn.registrations).lookup a.spelling = some a.kind) ∧
      ∀ past turn later, turns = past ++ turn :: later →
        turn.Answers (past.flatMap Turn.spellings) (leave .standard past) ∧
          turn.after.Holds ((past ++ [turn]).flatMap Turn.spellings) := by
  intro turns symbols
  obtain ⟨happened, all⟩ := happened_of_run h
  have wf := happened.wellFormed WellFormed.standard
  refine ⟨all, ?_, ?_, ?_⟩
  · intro a ha b hb
    exact wf.same_iff (mem_of_resolve? (happened.resolve?_leave ha))
      (mem_of_resolve? (happened.resolve?_leave hb))
  · intro a ha
    have kind := congrArg (Option.map Symbol.kind) (happened.resolve?_leave ha)
    rw [happened.leave_eq] at kind
    rw [← kind?_standard_internAll]
    exact kind
  -- A moment of the session is the end of a shorter session.
  · intro past turn later split
    have sofar : Happened .standard ((past ++ [turn]) ++ later) := by
      rw [List.append_assoc]
      exact split ▸ happened
    have first := sofar.of_append.1
    obtain ⟨before, last⟩ := first.of_append
    constructor
    · cases last with
      | cons performed _ =>
          exact perform_answers (before.holds WellFormed.standard holds_standard)
            (before.wellFormed WellFormed.standard) performed
    · have holds := first.holds WellFormed.standard holds_standard
      rw [leave, List.foldl_append] at holds
      exact holds

/-- A word that was interned as something else is scanned as that. -/
theorem run_interns_star :
    let steps : List Step := [.intern "y" .star, .tokenize "x // y",
      .scan (.script [.char ⟨'y', 1, 0⟩]) [.next], .contains "x"]
    ∃ results, run .standard steps = .ok results ∧
      ∀ a ∈ (history steps results).flatMap fun turn => turn.result.symbols,
        a.spelling = "y" → a.kind = .star := by
  intro steps
  have glyphs : (Input.script [.char ⟨'y', 1, 0⟩]).glyphs = [⟨'y', 1, 0⟩] := by
    change CharSource.glyphs (Source.script _) = _
    rw [CharSource.glyphs_of_char rfl, CharSource.glyphs_of_stop (o := .endOfInput) (by simp) rfl]
  have narrow : ∀ step ∈ steps, step.Narrow := by
    have script : Lexis.Narrow (Input.script [.char ⟨'y', 1, 0⟩]).glyphs := by
      rw [glyphs]
      simp [Lexis.Narrow, wordLimit]
    simp only [steps, List.forall_mem_cons]
    exact ⟨trivial, show "x // y".length < wordLimit by decide, script, trivial, nofun⟩
  obtain ⟨results, ran⟩ := run_returns narrow .standard
  refine ⟨results, ran, ?_⟩
  intro a ha spelled
  obtain ⟨all, -, kinds, -⟩ := run_interns ran
  obtain ⟨turn, later, turns, first, -⟩ := List.map_eq_cons_iff.mp all
  have kind := kinds a ha
  have absent : Kind.fixed.lookup "y" = none := by decide
  rw [turns, List.flatMap_cons, Turn.registrations, first, spelled, List.lookup_append, absent,
    Option.none_or, Step.interned, List.append_assoc, List.singleton_append,
    List.lookup_cons_self] at kind
  exact (Option.some.inj kind).symm

end Lexis.Session
