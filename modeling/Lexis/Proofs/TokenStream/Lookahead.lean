import Lexis.Proofs.Source.Calls
import Lexis.Proofs.SymbolTable.Scanned
import Lexis.Proofs.TokenStream.Interleaving
import Lexis.Proofs.TokenStream.Keeping
import Lexis.Source.Script

/-! How far a stream has read when it answers: one character past the lexeme of the token that it
gives, and once past the last character when there is no token. -/

namespace Lexis

theorem Segment.length_sighted_le (ps : List Segment) :
    (ps.filterMap Segment.sighting?).length ≤ (ps.flatMap Segment.glyphs).length := by
  induction ps with
  | nil => exact Nat.le_refl 0
  | cons p ps ih =>
      rw [List.flatMap_cons, List.length_append]
      have some : 1 ≤ p.glyphs.length := Nat.succ_pos p.more.length
      cases hp : p.sighting? with
      | none =>
          rw [List.filterMap_cons_none hp]
          omega
      | some sighting =>
          rw [List.filterMap_cons_some hp, List.length_cons]
          omega

section

variable {known : String → Option Kind} {gs : List Glyph} {earlier : List Token} {token : Token}
  {stop : Nat}

/-- After the lexemes of earlier tokens comes that of a token, up to the character with this number,
counted from 1. -/
def EndsAt (known : String → Option Kind) (gs : List Glyph) (earlier : List Token) (token : Token)
    (stop : Nat) : Prop :=
  ∃ before p later, segments known gs = before ++ p :: later ∧
    before.filterMap Segment.sighting? = earlier.map Token.sighting ∧
    p.sighting? = some token.sighting ∧ (before.flatMap Segment.glyphs ++ p.glyphs).length = stop

theorem EndsAt.bounds (h : EndsAt known gs earlier token stop) : 1 ≤ stop ∧ stop ≤ gs.length := by
  obtain ⟨before, p, later, split, -, -, rfl⟩ := h
  have whole := flatMap_glyphs_segments known gs
  rw [split, List.flatMap_append, List.flatMap_cons] at whole
  rw [← whole]
  simp only [List.length_append, Segment.glyphs, List.length_cons]
  omega

theorem EndsAt.spelled (h : EndsAt known gs earlier token stop) :
    token.spelling.toList <:+ (gs.take stop).map Glyph.char := by
  obtain ⟨before, p, later, split, -, sighted, rfl⟩ := h
  have whole := flatMap_glyphs_segments known gs
  rw [split, List.flatMap_append, List.flatMap_cons, ← List.append_assoc] at whole
  obtain ⟨kind, -, same⟩ := p.sighting_eq sighted
  have spelling : token.spelling = String.ofList p.chars := congrArg Sighting.spelling same
  conv => rhs; rw [← whole]
  rw [List.take_left, List.map_append, spelling, String.toList_ofList]
  exact List.suffix_append _ _

end

namespace TokenStream

section

variable {σ : Type} [CharSource σ] {known : String → Option Kind} {s s' : TokenStream σ}

/-- Between two moments of a stream the lexemes of these tokens are passed. -/
def Passes (known : String → Option Kind) (s : TokenStream σ) (tokens : List Token)
    (s' : TokenStream σ) : Prop :=
  ∃ past, segments known s.pending = past ++ segments known s'.pending ∧
    past.filterMap Segment.sighting? = tokens.map Token.sighting

theorem Passes.refl (s : TokenStream σ) : s.Passes known [] s := ⟨[], rfl, rfl⟩

theorem Passes.trans {tokens more : List Token} {s'' : TokenStream σ} (h : s.Passes known tokens s')
    (h' : s'.Passes known more s'') : s.Passes known (tokens ++ more) s'' := by
  obtain ⟨past, split, found⟩ := h
  obtain ⟨past', split', found'⟩ := h'
  refine ⟨past ++ past', ?_, ?_⟩
  · rw [split, split', List.append_assoc]
  · rw [List.filterMap_append, found, found', List.map_append]

/-- A pull passes over segments without a lexeme, up to the one of the token if there is one. -/
theorem next_hits {found : Option Token} (follows : s.symbols.Follows known)
    (h : s.next = .ok (found, s')) :
    ∃ (skipped : List Segment) (hit : Option Segment),
      segments known s.pending = skipped ++ (hit.toList ++ segments known s'.pending) ∧
      skipped.filterMap Segment.sighting? = [] ∧
      hit.map Segment.sighting? = found.map fun token => some token.sighting := by
  -- A segment without a lexeme is skipped, and the first one with a lexeme is the hit.
  generalize hgs : s.pending = gs
  induction gs using segments_induction known generalizing s with
  | nil =>
      rw [next_of_end hgs] at h
      cases h
      refine ⟨[], none, ?_, rfl, rfl⟩
      rw [pending_close]
      rfl
  | @step g gs p rest cuts ih =>
      rw [cuts.segments_eq]
      cases hp : p.kind? with
      | none =>
          obtain ⟨after, left, hnext⟩ := next_of_other follows hgs cuts hp
          obtain ⟨skipped, hit, split, silent, sighted⟩ :=
            ih (left.symbols ▸ follows_register cuts follows) (hnext ▸ h) left.pending
          refine ⟨p :: skipped, hit, congrArg (p :: ·) split, ?_, sighted⟩
          rw [List.filterMap_cons_none (Segment.sighting?_of_other hp), silent]
      | some kind =>
          obtain ⟨after, left, hnext⟩ := next_of_lexeme follows hgs cuts hp
          obtain ⟨token, held, same⟩ := ok_of_map (hnext.symm.trans h)
          cases same
          refine ⟨[], some p, ?_, rfl, ?_⟩
          · rw [left.pending]
            rfl
          · exact congrArg some (cuts.sighting_of_token hp follows held)

theorem passes_next {found : Option Token} (follows : s.symbols.Follows known)
    (h : s.next = .ok (found, s')) : s.Passes known found.toList s' := by
  obtain ⟨skipped, hit, split, silent, sighted⟩ := next_hits follows h
  refine ⟨skipped ++ hit.toList, split.trans (List.append_assoc _ _ _).symm, ?_⟩
  rw [List.filterMap_append, silent, List.nil_append]
  cases found with
  | none =>
      rw [Option.map_eq_none_iff.mp sighted]
      rfl
  | some token =>
      obtain ⟨p, rfl, same⟩ := Option.map_eq_some_iff.mp sighted
      exact List.filterMap_cons_some same

theorem passes_pullAll {tokens : Array Token} {pulled : Array Token × TokenStream σ}
    (follows : s.symbols.Follows known) (h : s.pullAll tokens = .ok pulled) :
    ∃ more, pulled.1.toList = tokens.toList ++ more ∧ s.Passes known more pulled.2 := by
  fun_induction pullAll tokens s with
  | case1 => cases h
  | case2 tokens s s' ended =>
      cases h
      exact ⟨[], (List.append_nil _).symm, passes_next follows ended⟩
  | case3 tokens s token s' found ih =>
      obtain ⟨more, pulled, later⟩ := ih ((draws_next found).follows follows) h
      refine ⟨token :: more, ?_, (passes_next follows found).trans later⟩
      rw [pulled, Array.toList_push, List.append_assoc, List.singleton_append]

/-- The tokens in a reply are those whose lexemes were passed, unless the stream was closed. -/
theorem passes_answer {request : Request} {reply : Reply} (follows : s.symbols.Follows known)
    (never : request ≠ .close) (h : s.answer request = .ok (reply, s')) :
    s.Passes known reply.drawn s' := by
  cases answers_of_answer h with
  | token pulled => exact passes_next follows pulled
  | noToken pulled => exact passes_next follows pulled
  | rest pulled =>
      obtain ⟨more, all, passed⟩ := passes_pullAll follows pulled
      rw [Reply.drawn, all]
      exact passed
  | close => exact absurd rfl never
  | diagnostics => exact .refl s
  | takeDiagnostics => exact .refl s

theorem passes_converse {requests : List Request} {turns : List (Reply × TokenStream σ)}
    (follows : s.symbols.Follows known) (never : .close ∉ requests)
    (h : s.converse requests = .ok turns) : s.Passes known (handed turns) (s.lastOf turns) := by
  induction requests generalizing s turns with
  | nil =>
      cases h
      exact .refl s
  | cons request requests ih =>
      obtain ⟨here, later⟩ := not_or.mp (mt List.mem_cons.mpr never)
      obtain ⟨turn, rest, answered, conversed, rfl⟩ := converse_cons h
      rw [handed_cons, lastOf_cons]
      exact (passes_answer follows (Ne.symm here) answered).trans
        (ih (follows_answer follows answered) later conversed)

theorem Passes.length_le {tokens : List Token} (h : s.Passes known tokens s') :
    tokens.length + s'.pending.length ≤ s.pending.length := by
  obtain ⟨past, split, found⟩ := h
  have whole := congrArg (List.flatMap Segment.glyphs) split
  rw [List.flatMap_append, flatMap_glyphs_segments, flatMap_glyphs_segments] at whole
  have few := Segment.length_sighted_le past
  rw [found, List.length_map] at few
  rw [whole, List.length_append]
  exact Nat.add_le_add_right few _

theorem Passes.endsAt {tokens : List Token} {s'' : TokenStream σ} {token : Token}
    (h : s.Passes known tokens s') (follows : s'.symbols.Follows known)
    (pulled : s'.next = .ok (some token, s'')) :
    ∃ stop, EndsAt known s.pending tokens token stop ∧
      stop + s''.pending.length = s.pending.length := by
  obtain ⟨past, split, found⟩ := h
  obtain ⟨skipped, hit, split', silent, sighted⟩ := next_hits follows pulled
  obtain ⟨p, rfl, same⟩ := Option.map_eq_some_iff.mp sighted
  have all : segments known s.pending = (past ++ skipped) ++ p :: segments known s''.pending := by
    rw [split, split', List.append_assoc]
    rfl
  refine ⟨_, ⟨past ++ skipped, p, _, all, ?_, same, rfl⟩, ?_⟩
  · rw [List.filterMap_append, silent, List.append_nil, found]
  · have whole := congrArg (List.flatMap Segment.glyphs) all
    rw [List.flatMap_append, List.flatMap_cons, flatMap_glyphs_segments,
      flatMap_glyphs_segments] at whole
    conv => rhs; rw [whole]
    simp only [List.length_append]
    omega

theorem open_of_token {requests : List Request} {turns : List (Reply × TokenStream σ)}
    (h : s.converse requests = .ok turns) {i : Nat} {token : Token} {after : TokenStream σ}
    (told : turns[i]? = some (.token token, after)) :
    (s.lastOf (turns.take i)).next = .ok (some token, after) ∧ .close ∉ requests.take i := by
  obtain ⟨request, asked⟩ := asked_of_told h told
  cases answers_of_answer (answer_of_converse h asked told) with
  | token pulled =>
      refine ⟨pulled, ?_⟩
      intro closed
      rw [next_of_atEnd (atEnd_of_close_mem h closed)] at pulled
      cases pulled

theorem length_handed_le {requests : List Request} {turns : List (Reply × TokenStream σ)}
    (h : s.converse requests = .ok turns) : (handed turns).length ≤ s.pending.length := by
  have follows := SymbolTable.Follows.refl s.symbols
  by_cases closed : .close ∈ requests
  · obtain ⟨before, later, split, never⟩ := List.eq_append_cons_of_mem closed
    have asked : requests[before.length]? = some .close := by simp [split]
    obtain ⟨ended, same, -⟩ := settled_of_close h asked
    have past : before.length + 1 ≤ turns.length := by
      rw [length_converse h, split]
      simp
    obtain ⟨final, -⟩ := settled_of_atEnd h past ended
    rw [List.take_length] at final
    rw [final, same]
    have opened := converse_take h before.length
    rw [split, List.take_left] at opened
    exact (Nat.le_add_right _ _).trans (passes_converse follows never opened).length_le
  · exact (Nat.le_add_right _ _).trans (passes_converse follows closed h).length_le

end

section

variable {σ : Type} [CharSource σ] {s : TokenStream (Metered σ)} {n : Nat}

/-- The source was read once more than the stream consumed characters, and is held as long as there
is a lookahead. -/
def Ahead (n : Nat) (s : TokenStream (Metered σ)) : Prop :=
  s.source.reads + s.pending.length = n + 1 ∧ (s.lookahead ≠ none → s.released = false)

/-- Each step forward consumes one character and reads one. -/
theorem kept_ahead (n : Nat) : Kept (Ahead (σ := σ) n) where
  advance := by
    rintro s g hg ⟨total, held⟩
    obtain ⟨gs, hs⟩ := exists_pending hg
    have open' := held (by simp [hg])
    constructor
    · rw [pending_advance hs, advance_of_held open', source_receive]
      rw [hs, List.length_cons] at total
      change s.source.reads + 1 + gs.length = n + 1
      omega
    · intro _
      rw [advance_of_held open', released_receive]
      exact open'
  found := fun _ _ _ h => h
  ended := by
    rintro s hs ⟨total, -⟩
    have reads : s.close.source.reads = s.source.reads := by
      rw [close]
      split <;> rfl
    constructor
    · rw [pending_close, reads]
      rwa [pending_of_lookahead hs] at total
    · intro some
      exact absurd (by rw [lookahead_eq, pending_close, List.head?_nil]) some

theorem ahead_ofSource (source : σ) (table : SymbolTable) :
    (ofSource (⟨source, 0, 0⟩ : Metered σ) table).source.reads = 1 ∧
      Ahead (CharSource.glyphs source).length (ofSource (⟨source, 0, 0⟩ : Metered σ) table) := by
  have reads : (ofSource (⟨source, 0, 0⟩ : Metered σ) table).source.reads = 1 := by
    rw [ofSource, advance_of_held rfl, source_receive]
    rfl
  refine ⟨reads, ?_, ?_⟩
  · rw [reads, (opened_ofSource _ table).1, (Metered.glyphs_eq _).1]
    exact Nat.add_comm _ _
  · intro _
    rw [ofSource, advance_of_held rfl, released_receive]

theorem ahead_converse {requests : List Request} {turns : List (Reply × TokenStream (Metered σ))}
    (h : s.converse requests = .ok turns) (never : .close ∉ requests) (start : s.Ahead n) :
    (s.lastOf turns).Ahead n :=
  holds_last (fun asked kept answered => (kept_ahead n).answer
    (fun closing => absurd (closing ▸ asked) never) kept answered) h start

/-- A drain reads up to the first read without a character. -/
theorem reads_of_rest {source : σ} {table : SymbolTable}
    {drained : List Token × TokenStream (Metered σ)}
    (h : (ofSource (⟨source, 0, 0⟩ : Metered σ) table).rest = .ok drained) :
    drained.2.source.reads = (CharSource.glyphs source).length + 1 := by
  obtain ⟨pulled, hpulled, rfl⟩ := ok_of_map h
  have total := ((kept_ahead _).pullAll (ahead_ofSource source table).2 hpulled).1
  rwa [atEnd_iff.mp (atEnd_of_pullAll hpulled)] at total

/-- A stream reads one character ahead of its tokens. It answers all requests unless a drain faults,
with no more tokens than there are characters. -/
theorem converse_reads (source : σ) (table : SymbolTable) :
    let gs := CharSource.glyphs source
    let s := ofSource (⟨source, 0, 0⟩ : Metered σ) table
    s.source.reads = 1 ∧
      (∀ t, Tokenization.ofSource source table = .ok t →
        ∀ requests, ∃ turns, s.converse requests = .ok turns) ∧
      ∀ requests turns, s.converse requests = .ok turns →
        (∀ i token after, turns[i]? = some (.token token, after) →
          ∃ m, EndsAt table.kind? gs (handed (turns.take i)) token m ∧ 1 ≤ m ∧ m ≤ gs.length ∧
            token.spelling.toList <:+ (gs.take m).map Glyph.char ∧ after.source.reads = m + 1 ∧
            (s.lastOf (turns.take i)).source.reads < after.source.reads) ∧
        (∀ i after, .close ∉ requests.take i → turns[i]? = some (.noToken, after) →
          after.source.reads = gs.length + 1) ∧
        (handed turns).length ≤ gs.length := by
  intro gs s
  obtain ⟨once, start⟩ : s.source.reads = 1 ∧ s.Ahead gs.length := ahead_ofSource source table
  have pending : s.pending = gs := (opened_ofSource _ table).1.trans (Metered.glyphs_eq _).1
  refine ⟨once, ?_, ?_⟩
  · intro t drained requests
    have same : Tokenization.ofSource (⟨source, 0, 0⟩ : Metered σ) table = .ok t := by
      rw [← drained, Tokenization.ofSource_eq (.refl table), Tokenization.ofSource_eq (.refl table),
        (Metered.glyphs_eq _).1, (Metered.glyphs_eq _).2]
    obtain ⟨turns, conversed, -⟩ := (owes_ofSource same).converse requests
    exact ⟨turns, conversed⟩
  · intro requests turns h
    have follows : s.symbols.Follows table.kind? := by
      rw [symbols_ofSource]
      exact .refl table
    refine ⟨?_, ?_, ?_⟩
    · intro i token after told
      obtain ⟨pulled, never⟩ := open_of_token h told
      have before := converse_take h i
      have passed := passes_converse follows never before
      have follows' := (draws_converse h i).follows follows
      obtain ⟨m, ends, total⟩ := passed.endsAt follows' pulled
      have ahead := ahead_converse before never start
      have ahead' := (kept_ahead gs.length).next ahead pulled
      have consumed := (passes_next follows' pulled).length_le
      rw [pending] at ends total
      refine ⟨m, ends, ends.bounds.1, ends.bounds.2, ends.spelled, ?_, ?_⟩
      · have reads := ahead'.1
        omega
      · have reads := ahead.1
        have reads' := ahead'.1
        rw [Option.toList_some, List.length_singleton] at consumed
        omega
    · intro i after never told
      obtain ⟨request, asked⟩ := asked_of_told h told
      have ahead := ahead_converse (converse_take h i) never start
      cases answers_of_answer (answer_of_converse h asked told) with
      | noToken pulled =>
          have reads := ((kept_ahead gs.length).next ahead pulled).1
          rwa [atEnd_iff.mp (atEnd_of_next pulled)] at reads
    · rw [← pending]
      exact length_handed_le h

end

/-- The last token ends with a dot, and there the source fails. -/
theorem converse_reads_failing :
    let source : Script := ⟨[.char ⟨'a', 1, 0⟩, .char ⟨' ', 1, 1⟩, .char ⟨'3', 1, 2⟩,
      .char ⟨'.', 1, 3⟩, .failure .notUtf8]⟩
    let s := ofSource (⟨source, 0, 0⟩ : Metered Script) .standard
    ∃ turns, s.converse [.next, .next, .next] = .ok turns ∧
      (∃ after m, turns[1]? = some (.token ⟨⟨52, "3.", .floatLiteral⟩, 1, 2, 3⟩, after) ∧
        EndsAt SymbolTable.standard.kind? (CharSource.glyphs source) (handed (turns.take 1))
          ⟨⟨52, "3.", .floatLiteral⟩, 1, 2, 3⟩ m ∧ after.source.reads = m + 1) ∧
      ∃ after, turns[2]? = some (.noToken, after) ∧ after.source.reads = 5 := by
  intro source s
  have replies : (s.converse [.next, .next, .next]).map (List.map Prod.fst) =
      .ok [.token ⟨⟨51, "a", .identifier⟩, 1, 0, 0⟩,
        .token ⟨⟨52, "3.", .floatLiteral⟩, 1, 2, 3⟩, .noToken] := by
    decide +kernel
  obtain ⟨turns, conversed, told⟩ := ok_of_map replies
  obtain ⟨found, ended, -⟩ := (converse_reads source .standard).2.2 _ _ conversed
  have turn {i : Nat} {reply : Reply} (h : (turns.map Prod.fst)[i]? = some reply) :
      ∃ after, turns[i]? = some (reply, after) := by
    rw [List.getElem?_map] at h
    obtain ⟨⟨_, after⟩, there, rfl⟩ := Option.map_eq_some_iff.mp h
    exact ⟨after, there⟩
  refine ⟨turns, conversed, ?_, ?_⟩
  · obtain ⟨after, second⟩ := turn (i := 1) (by rw [told]; rfl)
    obtain ⟨m, ends, -, -, -, reads, -⟩ := found 1 _ after second
    exact ⟨after, m, second, ends, reads⟩
  · obtain ⟨after, last⟩ := turn (i := 2) (by rw [told]; rfl)
    have all : (CharSource.glyphs source).length = 4 := by decide +kernel
    have reads : after.source.reads = (CharSource.glyphs source).length + 1 :=
      ended 2 after (by decide) last
    exact ⟨after, last, reads.trans (congrArg (· + 1) all)⟩

end TokenStream
end Lexis
