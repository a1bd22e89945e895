import Lexis.Proofs.Lexing.Composition
import Lexis.Proofs.Lexing.Refinement
import Lexis.Proofs.Lexing.Truncation
import Lexis.Proofs.Session.Returning

/-! Columns that are too large: which tokens stop a stream, and when. -/

namespace Lexis

open TokenStream (follows_register)

section

variable {known : String → Option Kind} {gs hs : List Glyph} {ps : List Segment}
  {table : SymbolTable} {ending ending' : Outcome}

theorem fault_of_collect {fault : Fault} (h : collect table ps = .error fault) :
    fault = .sumTooLarge := by
  induction ps generalizing table with
  | nil => cases h
  | cons p ps ih =>
      cases hp : p.kind? with
      | none =>
          rw [collect_of_other hp] at h
          exact ih h
      | some kind =>
          rw [collect_of_lexeme hp] at h
          by_cases fits : p.Fits
          · rw [Segment.token_of_fits fits] at h
            cases later : collect (table.intern p.spelling kind).2 ps with
            | error other =>
                rw [later] at h
                cases h
                exact ih later
            | ok found =>
                rw [later] at h
                cases h
          · rw [Segment.token_of_not_fits fits] at h
            cases h
            rfl

theorem collect_eq_error (ending : Outcome) (follows : table.Follows known) {fault : Fault} :
    collect table (segments known gs) = .error fault ↔ fault = .sumTooLarge ∧
      ∃ token ∈ (Tokenization.read ending table gs).tokens, ¬ token.Fits := by
  cases h : collect table (segments known gs) with
  | ok found =>
      obtain ⟨fits, -⟩ := (collect_eq_ok ending follows).mp h
      constructor
      · nofun
      · rintro ⟨-, token, mem, wide⟩
        exact absurd (fits token mem) wide
  | error other =>
      obtain rfl := fault_of_collect h
      constructor
      · rintro ⟨rfl⟩
        refine ⟨rfl, ?_⟩
        by_contra none
        have fits : ∀ token ∈ (Tokenization.read ending table gs).tokens, token.Fits := by
          simpa using none
        cases h.symm.trans ((collect_eq_ok ending follows).mpr ⟨fits, rfl⟩)
      · rintro ⟨rfl, -⟩
        rfl

/-- What characters come to is decided by the tokens that they would come to without a limit. -/
theorem collect_congr (follows : table.Follows known)
    (tokens : (Tokenization.read ending table gs).tokens =
      (Tokenization.read ending' table hs).tokens)
    (symbols : (Tokenization.read ending table gs).symbols =
      (Tokenization.read ending' table hs).symbols) :
    collect table (segments known gs) = collect table (segments known hs) := by
  cases h : collect table (segments known gs) with
  | ok found =>
      have fits := (collect_eq_ok ending follows).mp h
      rw [tokens, symbols] at fits
      exact ((collect_eq_ok ending' follows).mpr fits).symm
  | error fault =>
      have wide := (collect_eq_error ending follows).mp h
      rw [tokens] at wide
      exact ((collect_eq_error ending' follows).mpr wide).symm

theorem right_of_mem_tokens (follows : table.Follows known) {token : Token}
    (h : token ∈ (Tokenization.read ending table gs).tokens) :
    token.right + 1 = token.left + token.spelling.length := by
  obtain ⟨_, first, more, _, -, spelled, -, -, right⟩ := standsIn_of_mem_tokens follows h
  have length : token.spelling.length = more.length + 1 := by
    rw [← String.length_toList, spelled, List.length_map, List.length_cons]
  omega

end

/-! Other columns. -/

def Glyph.lineStart (g : Glyph) : Position := ⟨g.position.line, 0⟩

def Token.moveTo (t : Token) (left : Nat) : Token :=
  ⟨t.symbol, t.line, left, left + t.spelling.length - 1⟩

def SameLines (gs hs : List Glyph) : Prop :=
  gs.map (fun g => (g.char, g.position.line)) = hs.map fun g => (g.char, g.position.line)

section

variable {known : String → Option Kind} {gs hs : List Glyph} {table : SymbolTable}
  {ending ending' : Outcome}

theorem SameLines.lineStart (h : SameLines gs hs) :
    gs.map (Glyph.moveTo Glyph.lineStart) = hs.map (Glyph.moveTo Glyph.lineStart) := by
  have same := congrArg (List.map fun shown : Char × Nat => (⟨shown.1, ⟨shown.2, 0⟩⟩ : Glyph)) h
  rw [List.map_map, List.map_map] at same
  exact same

theorem Segment.found?_lineStart (p : Segment) (table : SymbolTable) :
    (p.moveTo Glyph.lineStart).found? table = (p.found? table).map (·.moveTo 0) := by
  rw [found?, found?, spelling_moveTo, Option.map_map]
  have same : (p.moveTo Glyph.lineStart).kind? = p.kind? := rfl
  have length : (p.moveTo Glyph.lineStart).glyphs.length = p.glyphs.length := by
    rw [glyphs_moveTo, List.length_map]
  rw [same]
  congr 1
  funext kind
  simp only [Function.comp, Token.moveTo, Token.spelling, SymbolTable.intern_spelling,
    length_spelling, Token.mk.injEq, true_and, length]
  exact ⟨rfl, rfl, rfl⟩

theorem Segment.register_moveTo (place : Glyph → Position) (p : Segment) (table : SymbolTable) :
    (p.moveTo place).register table = p.register table := by
  rw [register, register, spelling_moveTo]
  rfl

/-- Where all columns are left out, the same tokens are found, and begin at the starts of their
lines. What ends the characters has no part in it. -/
theorem read_lineStart (ending ending' : Outcome) (follows : table.Follows known)
    (gs : List Glyph) :
    (Tokenization.read ending table (gs.map (Glyph.moveTo Glyph.lineStart))).tokens =
        (Tokenization.read ending' table gs).tokens.map (·.moveTo 0) ∧
      (Tokenization.read ending table (gs.map (Glyph.moveTo Glyph.lineStart))).symbols =
        (Tokenization.read ending' table gs).symbols := by
  induction gs using segments_induction known generalizing table with
  | nil => simp [Tokenization.read]
  | @step g gs p rest cuts ih =>
      have lines : Glyph.KeepsLines Glyph.lineStart := fun _ _ => .rfl
      have there := cuts.moveTo lines
      obtain ⟨tokens, symbols⟩ := ih (follows_register cuts follows)
      rw [List.map_cons, there.read_eq follows, cuts.read_eq follows, p.found?_lineStart,
        p.register_moveTo, tokens, List.map_append, Option.toList_map]
      exact ⟨rfl, symbols⟩

theorem zipWith_moveTo {ts : List Token} (ends : ∀ t ∈ ts, t.moveTo t.left = t) :
    List.zipWith Token.moveTo (ts.map (·.moveTo 0)) (ts.map Token.left) = ts := by
  rw [List.zipWith_map, List.zipWith_self]
  exact (List.map_congr_left ends).trans (List.map_id ts)

theorem read_eq_of_sameLines (same : SameLines hs gs)
    (begin : (Tokenization.read ending' table hs).tokens.map Token.left =
      (Tokenization.read ending table gs).tokens.map Token.left) :
    (Tokenization.read ending' table hs).tokens = (Tokenization.read ending table gs).tokens ∧
      (Tokenization.read ending' table hs).symbols =
        (Tokenization.read ending table gs).symbols := by
  have follows := SymbolTable.Follows.refl table
  have there := read_lineStart ending ending' follows hs
  have here := read_lineStart ending ending follows gs
  rw [same.lineStart] at there
  refine ⟨?_, there.2.symm.trans here.2⟩
  have moved := there.1.symm.trans here.1
  -- No token has another end than its beginning and its length give it.
  have ends (end' : Outcome) (xs : List Glyph) :
      ∀ t ∈ (Tokenization.read end' table xs).tokens, t.moveTo t.left = t := by
    intro t mem
    have right := right_of_mem_tokens follows mem
    rw [Token.moveTo, ← right]
    rfl
  rw [← zipWith_moveTo (ends ending' hs), moved, begin, zipWith_moveTo (ends ending gs)]

end

namespace TokenStream

variable {σ : Type} [CharSource σ] {s : TokenStream σ} {ending : Outcome}

/-- A stream hands out some tokens, one at a time, and is stopped by a sum that is too large when it
is asked for the next one. -/
def Overflows (s : TokenStream σ) (earlier : List Token) : Prop :=
  ∃ turns, s.converse (List.replicate earlier.length .next) = .ok turns ∧
    turns.map Prod.fst = earlier.map .token ∧ (s.lastOf turns).next = .error .sumTooLarge

theorem next_of_read {t : Token} {later : List Token}
    (h : (Tokenization.read ending s.symbols s.pending).tokens = t :: later) :
    ∃ s', (Tokenization.read ending s'.symbols s'.pending).tokens = later ∧
      s.next = (addWords t.left t.spelling.length).map fun _ => (some t, s') := by
  have follows := SymbolTable.Follows.refl s.symbols
  generalize s.symbols.kind? = known at follows
  generalize hgs : s.pending = gs at h
  induction gs using segments_induction known generalizing s with
  | nil => simp [Tokenization.read] at h
  | @step g gs p rest cuts ih =>
      rw [cuts.read_eq follows] at h
      cases hp : p.kind? with
      | none =>
          obtain ⟨after, left, hnext⟩ := next_of_other follows hgs cuts hp
          rw [Segment.found?, hp, ← left.symbols] at h
          rw [hnext]
          exact ih (left.symbols ▸ follows_register cuts follows) left.pending h
      | some kind =>
          obtain ⟨after, left, hnext⟩ := next_of_lexeme follows hgs cuts hp
          rw [Segment.found?, hp, ← left.symbols, ← left.pending] at h
          obtain ⟨rfl, rfl⟩ := List.cons.inj h
          refine ⟨after, rfl, ?_⟩
          rw [hnext, Token.spelling, SymbolTable.intern_spelling, Segment.length_spelling]
          -- The same two numbers are added on both sides, and only here can that fail.
          by_cases fits : p.Fits
          · rw [Segment.token_of_fits fits, addWords_of_lt fits]
            rfl
          · rw [Segment.token_of_not_fits fits, addWords_of_le (Nat.not_lt.mp fits)]
            rfl

/-- A stream is stopped by the first token that does not fit, after the ones before it. -/
theorem overflows_of_read {earlier later : List Token} {token : Token}
    (h : (Tokenization.read ending s.symbols s.pending).tokens = earlier ++ token :: later)
    (fits : ∀ t ∈ earlier, t.Fits) (wide : ¬ token.Fits) : s.Overflows earlier := by
  induction earlier generalizing s with
  | nil =>
      obtain ⟨s', -, stopped⟩ := next_of_read h
      rw [addWords_of_le (Nat.not_lt.mp wide)] at stopped
      exact ⟨[], rfl, rfl, stopped⟩
  | cons t earlier ih =>
      obtain ⟨first, others⟩ := List.forall_mem_cons.mp fits
      obtain ⟨s', rest, pulled⟩ := next_of_read h
      rw [addWords_of_lt first] at pulled
      obtain ⟨turns, conversed, told, stopped⟩ := ih rest others
      have answered : s.answer .next = .ok (.token t, s') := by rw [answer, pulled]; rfl
      refine ⟨(.token t, s') :: turns, ?_, by rw [List.map_cons, told, List.map_cons], ?_⟩
      · rw [List.length_cons, List.replicate_succ, converse, answered]
        simp only [conversed]
        rfl
      · rw [lastOf_cons]
        exact stopped

end TokenStream

/-! Bytes. -/

namespace LineReader

theorem counts_of_ofBytes (bytes : List UInt8) :
    (CharSource.glyphs (ofBytes bytes)).length ≤ bytes.length ∧
      ∀ g ∈ CharSource.glyphs (ofBytes bytes),
        g.position.line ≤ bytes.length ∧ g.position.column < bytes.length := by
  obtain ⟨cs, encoded⟩ : ∃ cs, (readable bytes).flatten = Text.encode cs :=
    exists_encoded fun _ => decodes_of_readable
  obtain ⟨glyphs, -, -⟩ := glyphs_ofBytes encoded
  have length : cs.length ≤ bytes.length := by
    have decoded : Text.decode? (readable bytes).flatten = some (String.ofList cs) := by
      rw [encoded, Text.decode?_encode]
    have bound := length_le_of_readable decoded
    rwa [String.length_ofList] at bound
  rw [glyphs, Text.length_placed]
  refine ⟨length, ?_⟩
  intro g hg
  obtain ⟨before, rest, rfl, place⟩ := Text.mem_placed hg
  rw [List.length_append, List.length_cons] at length
  have line := Position.past_line .first before
  have breaks : before.count '\n' ≤ before.length := List.count_le_length
  have column := Position.past_column_le .first before
  have above : Position.first.line = 1 := rfl
  have margin : Position.first.column = 0 := rfl
  rw [place]
  omega

theorem narrow_ofBytes {bytes : List UInt8} (h : bytes.length < 0x8000000000000000) :
    Narrow (CharSource.glyphs (ofBytes bytes)) := by
  obtain ⟨length, places⟩ := counts_of_ofBytes bytes
  intro g hg
  have column := (places g hg).2
  have limit : wordLimit = 0x8000000000000000 + 0x8000000000000000 := rfl
  omega

end LineReader

/-- A drain is stopped just when some token has too large a column behind it, and then by the first
such token. Other columns decide nothing. -/
theorem ofSource_overflows (table : SymbolTable) :
    (∀ {σ : Type} [CharSource σ] (source : σ),
      let gs := CharSource.glyphs source
      let found := Tokenization.ofGlyphs (CharSource.stop source) table gs
      ((Tokenization.ofSource source table).mapError Fault.message =
          .error "attempt to add with overflow" ↔
        ∃ token ∈ found.tokens, 0x10000000000000000 ≤ token.left + token.spelling.length) ∧
      (∀ earlier token later, found.tokens = earlier ++ token :: later →
        (∀ t ∈ earlier, t.left + t.spelling.length < 0x10000000000000000) →
        0x10000000000000000 ≤ token.left + token.spelling.length →
        (TokenStream.ofSource source table).Overflows earlier) ∧
      (∀ source' : σ, SameLines (CharSource.glyphs source') gs →
        (Tokenization.ofGlyphs (CharSource.stop source') table
            (CharSource.glyphs source')).tokens.map Token.left = found.tokens.map Token.left →
        (Tokenization.ofSource source' table).map (fun t => (t.tokens, t.symbols)) =
          (Tokenization.ofSource source table).map fun t => (t.tokens, t.symbols)) ∧
      ∀ token ∈ found.tokens, token.right + 1 = token.left + token.spelling.length) ∧
    ∀ bytes : List UInt8, bytes.length < 0x8000000000000000 →
      (∃ t, Tokenization.ofSource (LineReader.ofBytes bytes) table = .ok t) ∧
      (∀ requests, ∃ turns,
        (TokenStream.ofSource (LineReader.ofBytes bytes) table).converse requests = .ok turns) ∧
      ∀ g ∈ CharSource.glyphs (LineReader.ofBytes bytes),
        g.position.line ≤ bytes.length ∧ g.position.column < bytes.length := by
  have follows := SymbolTable.Follows.refl table
  constructor
  · intro σ _ source gs found
    refine ⟨?_, ?_, ?_, ?_⟩
    · have message : Fault.sumTooLarge.message = "attempt to add with overflow" := rfl
      rw [← message, Fault.mapError_eq_iff, Tokenization.ofSource_eq follows, map_eq_error,
        collect_eq_error (CharSource.stop source) follows, eq_self, true_and]
      simp only [Token.Fits, Nat.not_lt]
      rfl
    · intro earlier token later split fits wide
      obtain ⟨pending, -, -⟩ := TokenStream.opened_ofSource source table
      have symbols := TokenStream.symbols_ofSource source table
      have read : (Tokenization.read (CharSource.stop source)
          (TokenStream.ofSource source table).symbols
          (TokenStream.ofSource source table).pending).tokens = earlier ++ token :: later := by
        rw [symbols, pending]
        exact split
      exact TokenStream.overflows_of_read read fits (Nat.not_lt.mpr wide)
    -- Other columns change neither the tokens without a limit nor which of them fit.
    · intro source' same begin
      obtain ⟨tokens, symbols⟩ := read_eq_of_sameLines same begin
      rw [Tokenization.ofSource_eq follows, Tokenization.ofSource_eq follows,
        collect_congr follows tokens symbols]
      cases collect table (segments table.kind? (CharSource.glyphs source)) <;> rfl
    · intro token mem
      exact right_of_mem_tokens follows mem
  · intro bytes short
    have narrow := LineReader.narrow_ofBytes short
    obtain ⟨pending, -, -⟩ := TokenStream.opened_ofSource (LineReader.ofBytes bytes) table
    rw [← pending] at narrow
    refine ⟨?_, TokenStream.converse_returns narrow, (LineReader.counts_of_ofBytes bytes).2⟩
    obtain ⟨pulled, drained⟩ := TokenStream.pullAll_returns narrow #[]
    rw [Tokenization.ofSource_eq_drained, TokenStream.drained, drained]
    exact ⟨_, rfl⟩

/-- A word that ends in the last column but one, and then a word that begins in the last column. -/
theorem ofSource_overflows_last :
    let top := 0xFFFFFFFFFFFFFFFF
    let source : Script := ⟨[.char ⟨' ', ⟨1, top⟩⟩, .char ⟨'#', ⟨1, top⟩⟩, .char ⟨'a', ⟨1, top - 1⟩⟩,
      .char ⟨' ', ⟨1, top⟩⟩, .char ⟨'b', ⟨1, top⟩⟩]⟩
    (Tokenization.ofSource source .standard).mapError Fault.message =
        .error "attempt to add with overflow" ∧
      (TokenStream.ofSource source .standard).Overflows
        [⟨⟨51, "a", .identifier⟩, 1, top - 1, top - 1⟩] := by
  intro top source
  obtain ⟨streams, -⟩ := ofSource_overflows .standard
  obtain ⟨stopped, first, -, -⟩ := streams source
  have found : (Tokenization.ofGlyphs (CharSource.stop source) .standard
      (CharSource.glyphs source)).tokens = [⟨⟨51, "a", .identifier⟩, 1, top - 1, top - 1⟩,
        ⟨⟨52, "b", .identifier⟩, 1, top, top⟩] := by decide +kernel
  rw [found] at stopped first
  constructor
  · exact stopped.mpr ⟨_, List.mem_cons_of_mem _ List.mem_cons_self, by decide⟩
  · exact first [_] _ [] rfl (by decide) (by decide)

end Lexis
