import Lexis.Proofs.TokenStream.Drawing

/-! The tables that scanning alone makes of the standard one. They give every spelling of fixed kind
that kind, and every other word or number the kind of its shape. -/

namespace Lexis

namespace SymbolTable

/-- A table that holds the fixed spellings, and beside them only what token streams registered. -/
inductive Scanned : SymbolTable → Prop
  | standard : Scanned .standard
  | answer {σ : Type} [CharSource σ] {s s' : TokenStream σ} {request : TokenStream.Request}
      {reply : TokenStream.Reply} : Scanned s.symbols → s.answer request = .ok (reply, s') →
      Scanned s'.symbols

theorem follows_standard : standard.Follows Kind.ofSpelling? := by
  rw [← kind?_standard]
  exact .refl _

theorem Follows.internAll {known : String → Option Kind} {table : SymbolTable}
    {entries : List (String × Kind)} (h : table.Follows known)
    (shaped : ∀ entry ∈ entries, Shape entry.1.toList entry.2) :
    (table.internAll entries).Follows known := by
  apply internAll_induction (motive := fun later => later.Follows known) ?_ h
  intro later entry mem kept
  have registered := kept.intern (shaped entry mem)
  rw [← kept.intern_shaped (shaped entry mem), String.ofList_toList] at registered
  exact registered

end SymbolTable

namespace TokenStream

variable {σ : Type} [CharSource σ] {known : String → Option Kind} {s s' : TokenStream σ}

theorem Draws.follows {tokens : List Token} (h : s.Draws tokens s')
    (follows : s.symbols.Follows known) : s'.symbols.Follows known := by
  rw [h.symbols]
  apply follows.internAll
  intro entry mem
  obtain ⟨token, held, given⟩ := List.mem_filterMap.mp mem
  exact h.shaped token held entry given

theorem follows_answer {request : Request} {reply : Reply} (follows : s.symbols.Follows known)
    (h : s.answer request = .ok (reply, s')) : s'.symbols.Follows known :=
  (draws_answer h).follows follows

end TokenStream

/-- Scanning never gives a spelling another kind than the fixed one, or else that of its shape. -/
theorem SymbolTable.Scanned.follows {table : SymbolTable} (h : Scanned table) :
    table.Follows Kind.ofSpelling? := by
  induction h with
  | standard => exact follows_standard
  | answer _ answered ih => exact TokenStream.follows_answer ih answered

theorem SymbolTable.Scanned.ofSource {σ : Type} [CharSource σ] {table : SymbolTable} {source : σ}
    {t : Tokenization} (h : Scanned table) (done : Tokenization.ofSource source table = .ok t) :
    Scanned t.symbols := by
  have opened : Scanned (TokenStream.ofSource source table).symbols := by
    rwa [TokenStream.ofSource, TokenStream.symbols_advance]
  obtain ⟨drained, hdrained, rfl⟩ := ok_of_map done
  have answered : (TokenStream.ofSource source table).answer .rest =
      .ok (.tokens drained.1, drained.2) := by
    rw [TokenStream.answer, hdrained]
    rfl
  exact opened.answer answered

end Lexis
