import Lexis.Proofs.Lexing.Lexemes
import Lexis.Proofs.Lexing.Tokenize
import Mathlib.Data.List.Basic

/-! Draining a source, as a recursion over the list of its characters. -/

namespace Lexis

open CharClass
open TokenStream (follows_register)

/-- The token of a lexeme that is registered in a table. It begins where its first character
stands, wherever the others stand. -/
def Segment.found? (p : Segment) (table : SymbolTable) : Option Token :=
  p.kind?.map fun kind =>
    ⟨(table.intern p.spelling kind).1, p.place.line, p.place.column,
      p.place.column + p.glyphs.length - 1⟩

def Token.Fits (t : Token) : Prop := t.left + t.spelling.length < wordLimit

/-- A diagnostic is about one of the characters, or about the end that the last of them meets. -/
def Diagnostic.StandsIn (d : Diagnostic) (gs : List Glyph) (ending : Outcome) : Prop :=
  (∃ g ∈ gs, d = ⟨problemAt g.char, g.position⟩) ∨
    d ∈ endDiagnostics ending (gs.getLast?.elim .start Glyph.position)

namespace Tokenization

/-- What characters come to. Each segment is cut off by the table that the segments before it left,
and what ends the source is met with the last one. -/
def read (ending : Outcome) (table : SymbolTable) : List Glyph → Tokenization
  | [] => ⟨[], [], table⟩
  | g :: gs =>
    let p := (cut table.kind? g gs).1
    let rest := (cut table.kind? g gs).2
    let later := read ending (p.register table) rest
    ⟨(p.found? table).toList ++ later.tokens,
      (if rest = [] then endDiagnostics ending p.last.position else []) ++
        p.diagnostic?.toList ++ later.diagnostics,
      later.symbols⟩
termination_by gs => gs.length
decreasing_by exact length_cut table.kind? g gs

/-- What a source of these characters comes to. Without any it is met with its end at once. -/
def ofGlyphs (ending : Outcome) (table : SymbolTable) (gs : List Glyph) : Tokenization :=
  let found := read ending table gs
  { found with
    diagnostics := (if gs = [] then endDiagnostics ending .start else []) ++ found.diagnostics }

end Tokenization

section

variable {known : String → Option Kind} {g : Glyph} {gs rest : List Glyph} {p : Segment}
  {table : SymbolTable} {ending : Outcome}

theorem Segment.shaped_of_follows (follows : table.Follows known) {kind : Kind} {more : List Glyph}
    (h : Shape ((g :: more).map Glyph.char) kind) :
    Segment.shaped known kind g more = Segment.shaped table.kind? kind g more := by
  rw [shaped, shaped, follows.shaped h]

theorem Alone.of_follows (follows : table.Follows known) (bare : Bare g) (h : Alone known g rest) :
    Alone table.kind? g rest := by
  intro x hx
  obtain ⟨slashes, hk⟩ := h x hx
  exact ⟨slashes, (follows.bare bare.2).trans hk⟩

/-- What scanning registers changes no cut. -/
theorem Cuts.of_follows (follows : table.Follows known) (h : Cuts known g gs p rest) :
    Cuts table.kind? g gs p rest := by
  cases h with
  | blank hg => exact .blank hg
  | word hg run =>
      rw [Segment.shaped_of_follows follows (shape_word hg run.1)]
      exact .word hg run
  | integer hg run hdot =>
      rw [Segment.shaped_of_follows follows (shape_integer hg run.1)]
      exact .integer hg run hdot
  | decimal hg hrun hdot part =>
      rw [Segment.shaped_of_follows follows (shape_decimal hg hrun hdot part.1)]
      exact .decimal hg hrun hdot part
  | fraction hg hne part =>
      rw [Segment.shaped_of_follows follows (shape_fraction hg hne part.1)]
      exact .fraction hg hne part
  | malformed hg part => exact .malformed hg part
  | comment hg hh body => exact .comment hg hh body
  | pair bare slashes hk => exact .pair bare slashes ((follows.bare bare.2).trans hk)
  | single bare alone hk =>
      rw [String.singleton_eq_ofList] at hk
      refine .single bare (alone.of_follows follows bare) ?_
      rw [String.singleton_eq_ofList]
      exact (follows.bare bare.2).trans hk
  | illegal bare alone hk =>
      rw [String.singleton_eq_ofList] at hk
      refine .illegal bare (alone.of_follows follows bare) ?_
      rw [String.singleton_eq_ofList]
      exact (follows.bare bare.2).trans hk

theorem Cuts.read_eq (follows : table.Follows known) (h : Cuts known g gs p rest) :
    Tokenization.read ending table (g :: gs) =
      ⟨(p.found? table).toList ++ (Tokenization.read ending (p.register table) rest).tokens,
        (if rest = [] then endDiagnostics ending p.last.position else []) ++
          p.diagnostic?.toList ++ (Tokenization.read ending (p.register table) rest).diagnostics,
        (Tokenization.read ending (p.register table) rest).symbols⟩ := by
  rw [Tokenization.read, (h.of_follows follows).cut_eq]

theorem Segment.token_of_fits (h : p.Fits) (symbol : Symbol) :
    p.token symbol =
      .ok ⟨symbol, p.place.line, p.place.column, p.place.column + p.glyphs.length - 1⟩ := by
  rw [token, addWords_of_lt h]
  rfl

theorem Segment.token_of_not_fits (h : ¬ p.Fits) (symbol : Symbol) :
    p.token symbol = .error .sumTooLarge := by
  have wide : ¬ p.place.column + p.glyphs.length < wordLimit := h
  rw [token, addWords, if_neg wide]
  rfl

theorem collect_lexeme_iff {kind : Kind} (hp : p.kind? = some kind) {ps : List Segment}
    {found : List Token × SymbolTable} :
    collect table (p :: ps) = .ok found ↔
      p.Fits ∧ ∃ later, collect (table.intern p.spelling kind).2 ps = .ok later ∧
        (⟨(table.intern p.spelling kind).1, p.place.line, p.place.column,
          p.place.column + p.glyphs.length - 1⟩ :: later.1, later.2) = found := by
  rw [collect_of_lexeme hp]
  by_cases first : p.Fits
  · rw [Segment.token_of_fits first]
    exact map_eq_ok.trans (and_iff_right first).symm
  · rw [Segment.token_of_not_fits first]
    constructor
    · intro done
      cases done
    · intro both
      exact absurd both.1 first

/-- Collecting tokens comes to an end just when each of them fits. -/
theorem collect_eq_ok (ending : Outcome) (follows : table.Follows known)
    {found : List Token × SymbolTable} :
    collect table (segments known gs) = .ok found ↔
      (∀ token ∈ (Tokenization.read ending table gs).tokens, token.Fits) ∧
        found = ((Tokenization.read ending table gs).tokens,
          (Tokenization.read ending table gs).symbols) := by
  -- The table is left open, as each lexeme is registered before the rest is collected.
  induction gs using segments_induction known generalizing table found with
  | nil =>
      simp only [segments_nil, collect, Tokenization.read]
      simp [eq_comm]
  | @step g gs p rest h ih =>
      have later := follows_register h follows
      rw [h.segments_eq, h.read_eq follows]
      cases hp : p.kind? with
      | none =>
          have same : p.register table = table := by rw [Segment.register, hp]
          rw [same] at later ⊢
          rw [collect_of_other hp, ih later, Segment.found?, hp]
          rfl
      | some kind =>
          have after : p.register table = (table.intern p.spelling kind).2 := by
            rw [Segment.register, hp]
          have fits : Token.Fits ⟨(table.intern p.spelling kind).1, p.place.line, p.place.column,
              p.place.column + p.glyphs.length - 1⟩ ↔ p.Fits := by
            rw [Token.Fits, Token.spelling, SymbolTable.intern_spelling, Segment.length_spelling,
              Segment.Fits]
          rw [after] at later ⊢
          rw [collect_lexeme_iff hp, Segment.found?, hp]
          simp only [Option.map_some, Option.toList_some, List.singleton_append,
            List.forall_mem_cons, fits]
          constructor
          · rintro ⟨first, more, collected, rfl⟩
            obtain ⟨others, rfl⟩ := (ih later).mp collected
            exact ⟨⟨first, others⟩, rfl⟩
          · rintro ⟨⟨first, others⟩, rfl⟩
            exact ⟨first, _, (ih later).mpr ⟨others, rfl⟩, rfl⟩

theorem recorded_eq_read (follows : table.Follows known) :
    recorded ending (segments known gs) = (Tokenization.read ending table gs).diagnostics := by
  induction gs using segments_induction known generalizing table with
  | nil => simp [recorded, Tokenization.read]
  | @step g gs p rest h ih =>
      rw [h.segments_eq, h.read_eq follows, recorded, ih (follows_register h follows)]
      simp only [segments_eq_nil]

theorem reports_eq_ofGlyphs (ending : Outcome) (follows : table.Follows known) (gs : List Glyph) :
    reports ending (segments known gs) = (Tokenization.ofGlyphs ending table gs).diagnostics := by
  rw [reports, recorded_eq_read follows, Tokenization.ofGlyphs]
  simp only [segments_eq_nil]

theorem standsIn_of_mem_tokens (follows : table.Follows known) {token : Token}
    (h : token ∈ (Tokenization.read ending table gs).tokens) : token.StandsIn gs := by
  induction gs using segments_induction known generalizing table with
  | nil => simp [Tokenization.read] at h
  | @step g gs p rest cuts ih =>
      have later := follows_register cuts follows
      rw [cuts.read_eq follows] at h
      rw [← cuts.glyphs_append]
      rcases List.mem_append.mp h with here | further
      · obtain ⟨kind, -, rfl⟩ := Option.map_eq_some_iff.mp (Option.mem_toList.mp here)
        exact Segment.standsIn (SymbolTable.intern_spelling _ _ _) rest
      · exact (ih later further).of_suffix (List.suffix_append _ _)

theorem standsIn_of_mem_diagnostics (follows : table.Follows known) {d : Diagnostic}
    (h : d ∈ (Tokenization.read ending table gs).diagnostics) : d.StandsIn gs ending := by
  induction gs using segments_induction known generalizing table with
  | nil => simp [Tokenization.read] at h
  | @step g gs p rest cuts ih =>
      have later := follows_register cuts follows
      rw [cuts.read_eq follows] at h
      rcases List.mem_append.mp h with here | further
      · rcases List.mem_append.mp here with ended | reported
        · right
          split at ended
          next nil =>
            rw [← cuts.glyphs_append, nil, List.append_nil, p.getLast?_glyphs]
            exact ended
          next => cases ended
        · obtain ⟨-, rfl⟩ := cuts.reported (Option.mem_toList.mp reported)
          exact .inl ⟨g, List.mem_cons_self, rfl⟩
      · rw [← cuts.glyphs_append]
        rcases ih later further with ⟨x, hx, same⟩ | ended
        · exact .inl ⟨x, List.mem_append_right _ hx, same⟩
        · right
          cases rest with
          | nil => simp [Tokenization.read] at further
          | cons x rest =>
              rw [List.getLast?_append_of_ne_nil _ (by simp)]
              exact ended

end

/-- Draining a source is reading the list of its characters, for every source and every table, and
is stopped just where a token does not fit. -/
theorem ofSource_iff_ofGlyphs {σ : Type} [CharSource σ] (source : σ) (table : SymbolTable) :
    let gs := CharSource.glyphs source
    let ending := CharSource.stop source
    let found := Tokenization.ofGlyphs ending table gs
    (∀ t, Tokenization.ofSource source table = .ok t ↔
        (∀ token ∈ found.tokens, token.Fits) ∧ t = found) ∧
      (∀ token ∈ found.tokens, token.StandsIn gs) ∧
      ∀ d ∈ found.diagnostics, d.StandsIn gs ending := by
  intro gs ending found
  have follows := SymbolTable.Follows.refl table
  refine ⟨?_, ?_, ?_⟩
  · intro t
    have reported := reports_eq_ofGlyphs ending follows gs
    rw [Tokenization.ofSource_eq follows, map_eq_ok, reported]
    constructor
    · rintro ⟨collected, done, rfl⟩
      obtain ⟨fits, rfl⟩ := (collect_eq_ok ending follows).mp done
      exact ⟨fits, rfl⟩
    · rintro ⟨fits, rfl⟩
      exact ⟨_, (collect_eq_ok ending follows).mpr ⟨fits, rfl⟩, rfl⟩
  · intro token h
    exact standsIn_of_mem_tokens follows h
  · intro d h
    rcases List.mem_append.mp h with ended | later
    · right
      split at ended
      next nil => simpa [gs, nil] using ended
      next => cases ended
    · exact standsIn_of_mem_diagnostics follows later

end Lexis
