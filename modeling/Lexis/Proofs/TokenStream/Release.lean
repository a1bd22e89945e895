import Lexis.Proofs.Source.Calls
import Lexis.Proofs.TokenStream.Agreement
import Lexis.Proofs.TokenStream.Ending
import Lexis.Proofs.TokenStream.Keeping
import Lexis.Source.Script

/-! What a stream asks of its source: characters up to the first read that gives none, and then,
once, to be closed. After that the stream stays at its end. -/

namespace Lexis

def Outcome.isChar : Outcome → Bool
  | .char _ => true
  | .endOfInput | .failure _ => false

namespace TokenStream

variable {σ : Type} [CharSource σ] {s : TokenStream (Traced σ)} {given : List Outcome}

/-- The source was asked for these outcomes, all of them characters except perhaps the last, and
closed after that if the stream was released. -/
structure Orderly (s : TokenStream (Traced σ)) (given : List Outcome) : Prop where
  calls : s.source.calls = given.map Call.read ++ if s.released then [.close] else []
  chars : ∀ o ∈ given.dropLast, o.isChar = true
  ahead : s.lookahead ≠ none → s.released = false ∧ ∀ o ∈ given, o.isChar = true

theorem Orderly.read (h : s.Orderly given) (held : s.released = false)
    (chars : ∀ o ∈ given, o.isChar = true) : ∃ o, s.advance.Orderly (given ++ [o]) := by
  refine ⟨(CharSource.read s.source).1, ?_⟩
  rw [advance_of_held held]
  constructor
  · have calls := h.calls
    rw [held, if_neg Bool.false_ne_true, List.append_nil] at calls
    rw [source_receive, released_receive, held, if_neg Bool.false_ne_true, List.append_nil,
      List.map_append, ← calls]
    rfl
  · rwa [List.dropLast_concat]
  · intro some
    rw [released_receive]
    refine ⟨held, ?_⟩
    intro o mem
    rcases List.mem_append.mp mem with before | here
    · exact chars o before
    · rw [List.mem_singleton.mp here]
      cases outcome : (CharSource.read s.source).1 with
      | char g => rfl
      | endOfInput => exact absurd (by rw [outcome]; rfl) some
      | failure cause => exact absurd (by rw [outcome]; rfl) some

theorem Orderly.close (h : s.Orderly given) : s.close.Orderly given := by
  have calls := h.calls
  rw [TokenStream.close]
  cases held : s.released with
  | true =>
      rw [held] at calls
      rw [if_pos rfl]
      exact ⟨by simpa [held] using calls, h.chars, fun some => absurd rfl some⟩
  | false =>
      rw [held] at calls
      rw [if_neg Bool.false_ne_true]
      refine ⟨?_, h.chars, fun some => absurd rfl some⟩
      change s.source.calls ++ [Call.close] = _
      rw [calls]
      simp

/-- Every step of a stream asks its source in order. -/
theorem kept_orderly :
    Kept fun s : TokenStream (Traced σ) => ∃ given, s.Orderly given where
  advance := by
    rintro s g hg ⟨given, h⟩
    obtain ⟨held, chars⟩ := h.ahead (by simp [hg])
    obtain ⟨o, later⟩ := h.read held chars
    exact ⟨given ++ [o], later⟩
  found := by
    rintro s symbols diagnostics log ⟨given, h⟩
    exact ⟨given, h.calls, h.chars, h.ahead⟩
  ended := by
    rintro s - ⟨given, h⟩
    exact ⟨given, h.close⟩

theorem orderly_ofSource (source : σ) (table : SymbolTable) :
    ∃ given, (ofSource (⟨source, []⟩ : Traced σ) table).Orderly given := by
  have start : Orderly { source := (⟨source, []⟩ : Traced σ), symbols := table } [] :=
    ⟨rfl, nofun, fun some => absurd rfl some⟩
  obtain ⟨o, later⟩ := start.read rfl nofun
  exact ⟨_, later⟩

/-- Whatever is requested, the source is closed once and last, and not read after a read without a
character. At its end a stream stays as it is. -/
theorem converse_calls (source : σ) (table : SymbolTable) {requests : List Request}
    {turns : List (Reply × TokenStream (Traced σ))}
    (h : (ofSource (⟨source, []⟩ : Traced σ) table).converse requests = .ok turns) :
    let moment (i : Nat) := (ofSource (⟨source, []⟩ : Traced σ) table).lastOf (turns.take i)
    (∃ given : List Outcome,
        (moment turns.length).close.source.calls = given.map Call.read ++ [.close] ∧
          ∀ o ∈ given.dropLast, o.isChar = true) ∧
      (∀ i j, i ≤ j → (moment i).atEnd = true → (moment j).atEnd = true) ∧
      ∀ i turn, requests[i]? = some .next → turns[i]? = some turn →
        (moment i).atEnd = true ∨ .noToken ∈ (turns.take i).map Prod.fst →
        turn.1 = .noToken ∧ turn.2.symbols = (moment i).symbols ∧
          turn.2.diagnostics = (moment i).diagnostics := by
  intro moment
  have stays : ∀ i j, i ≤ j → (moment i).atEnd = true → (moment j).atEnd = true :=
    fun i j hij ended => holds_from (fun _ => atEnd_answer) h hij ended
  refine ⟨?_, stays, ?_⟩
  -- Giving a stream up is one more closing, which its source notices if it was not released.
  · have orderly := holds_last (P := fun s => ∃ given, s.Orderly given)
      (fun _ kept answered => kept_orderly.answer (fun _ => kept.imp fun _ => Orderly.close) kept
        answered) h (orderly_ofSource source table)
    obtain ⟨given, last⟩ := orderly
    have calls := last.close.calls
    rw [released_close, if_pos rfl] at calls
    refine ⟨given, ?_, last.chars⟩
    simp only [moment, List.take_length]
    exact calls
  · intro i turn asked told finished
    have ended : (moment i).atEnd = true := by
      rcases finished with ended | gone
      · exact ended
      · exact atEnd_of_noToken_mem h gone
    have answered := answer_of_converse h asked told
    rw [answer, next_of_atEnd ended] at answered
    cases answered
    exact ⟨rfl, symbols_close _, diagnostics_close _⟩

/-- A read fails in the middle of a number, and would give characters again after that. -/
theorem converse_calls_failing :
    let source : Traced Script :=
      ⟨⟨[.char ⟨'1', 1, 0⟩, .failure .notUtf8, .char ⟨'2', 2, 0⟩]⟩, []⟩
    ∃ turns, (ofSource source .standard).converse [.next, .diagnostics, .next] = .ok turns ∧
      turns.map Prod.fst = [.token ⟨⟨51, "1", .integerLiteral⟩, 1, 0, 0⟩,
        .diagnostics [⟨.sourceUnreadable Failure.notUtf8.message, 1, 0⟩], .noToken] ∧
      ∃ given : List Outcome,
        ((ofSource source .standard).lastOf (turns.take turns.length)).close.source.calls =
            given.map Call.read ++ [.close] ∧
          ∀ o ∈ given.dropLast, o.isChar = true := by
  intro source
  have replies : ((ofSource source .standard).converse [.next, .diagnostics, .next]).map
      (List.map Prod.fst) = .ok [.token ⟨⟨51, "1", .integerLiteral⟩, 1, 0, 0⟩,
        .diagnostics [⟨.sourceUnreadable Failure.notUtf8.message, 1, 0⟩], .noToken] := by
    decide +kernel
  obtain ⟨turns, ran, told⟩ := ok_of_map replies
  exact ⟨turns, ran, told, (converse_calls _ _ ran).1⟩

end TokenStream
end Lexis
