import Lexis.Proofs.SymbolTable.Registration
import Lexis.Proofs.TokenStream.Pulling
import Lexis.TokenStream.Requests

/-! What a token stream registers while tokens are drawn from it: the words and numbers among these
tokens, and nothing else. -/

namespace Lexis

open CharClass

/-- What a token has its stream register: a word or number, with the kind of its shape. The spelling
of an operator or separator is looked up only. -/
def Token.registration? (t : Token) : Option (String × Kind) :=
  if t.spelling.toList.head?.any opensShape then some (t.spelling, Shape.kindOf t.spelling.toList)
  else none

section

variable {known : String → Option Kind} {table : SymbolTable} {g : Glyph} {gs rest : List Glyph}
  {p : Segment}

theorem Token.fst_of_registration? {t : Token} {entry : String × Kind}
    (h : t.registration? = some entry) : entry.1 = t.spelling := by
  rw [registration?] at h
  split at h
  · cases h
    rfl
  · cases h

theorem Token.registration?_of_shape {t : Token} {shape : Kind} (h : Shape t.spelling.toList shape) :
    t.registration? = some (t.spelling, shape) := by
  obtain ⟨c, cs, spelled, opens⟩ := h.opens
  rw [registration?, if_pos (by rw [spelled]; exact opens), ← h.kind_eq]

theorem Token.registration?_of_bare {t : Token} {c : Char} {cs : List Char}
    (spelled : t.spelling.toList = c :: cs) (bare : opensShape c = false) :
    t.registration? = none := by
  rw [registration?, if_neg]
  simp [spelled, bare]

/-- The token of a lexeme stands for all that is registered. -/
theorem Cuts.register_eq (h : Cuts known g gs p rest) (follows : table.Follows known) {kind : Kind}
    (role : p.role = .lexeme kind) {token : Token}
    (same : token.symbol = (table.intern p.spelling kind).1) :
    p.register table = table.internAll token.registration?.toList ∧
      ∀ entry ∈ token.registration?, Shape entry.1.toList entry.2 := by
  have spelled : token.spelling = p.spelling := by
    rw [Token.spelling, same, SymbolTable.intern_spelling]
  have chars : token.spelling.toList = p.chars := by
    rw [spelled, Segment.spelling, String.toList_ofList]
  rw [Segment.register, Segment.kind?, role]
  rcases h.lexeme role with ⟨shape, hshape, rfl⟩ | ⟨bare, hk⟩
  · rw [Token.registration?_of_shape (chars ▸ hshape)]
    constructor
    · have given := follows.intern_shaped hshape
      rw [spelled]
      exact congrArg Prod.snd given.symm
    · intro entry hentry
      cases hentry
      exact chars ▸ hshape
  · rw [Token.registration?_of_bare chars bare]
    constructor
    · rw [Segment.spelling, Segment.chars, Segment.glyphs, List.map_cons] at hk ⊢
      obtain ⟨symbol, hsymbol, -⟩ := follows.resolve?_bare bare hk
      simp only [SymbolTable.intern_of_resolve hsymbol]
      rfl
    · intro entry absent
      cases absent

end

namespace TokenStream

variable {σ : Type} [CharSource σ] {known : String → Option Kind} {s s' : TokenStream σ}

/-- Drawing tokens registers just these, and consumes the characters they stand in. -/
structure Draws (s : TokenStream σ) (tokens : List Token) (s' : TokenStream σ) : Prop where
  symbols : s'.symbols = s.symbols.internAll (tokens.filterMap Token.registration?)
  resolved : ∀ token ∈ tokens, s'.symbols.resolve? token.spelling = some token.symbol
  shaped : ∀ token ∈ tokens, ∀ entry ∈ token.registration?, Shape entry.1.toList entry.2
  placed : ∀ token ∈ tokens, token.StandsIn s.pending
  pending : s'.pending <:+ s.pending

namespace Draws

theorem none (symbols : s'.symbols = s.symbols) (pending : s'.pending <:+ s.pending) :
    s.Draws [] s' :=
  ⟨symbols, nofun, nofun, nofun, pending⟩

theorem refl (s : TokenStream σ) : s.Draws [] s := none rfl List.suffix_rfl

theorem trans {tokens more : List Token} {s'' : TokenStream σ} (h : s.Draws tokens s')
    (h' : s'.Draws more s'') : s.Draws (tokens ++ more) s'' := by
  constructor
  · rw [h'.symbols, h.symbols, List.filterMap_append, SymbolTable.internAll_append]
  · intro token mem
    rcases List.mem_append.mp mem with first | later
    · rw [h'.symbols]
      exact SymbolTable.resolve?_internAll (h.resolved token first) _
    · exact h'.resolved token later
  · intro token mem
    rcases List.mem_append.mp mem with first | later
    · exact h.shaped token first
    · exact h'.shaped token later
  · intro token mem
    rcases List.mem_append.mp mem with first | later
    · exact h.placed token first
    · exact (h'.placed token later).of_suffix h.pending
  · exact h'.pending.trans h.pending

end Draws

theorem Left.suffix {p : Segment} {rest : List Glyph} (left : s.Left p rest s')
    (hs : s.pending = p.glyphs ++ rest) : s'.pending <:+ s.pending := by
  rw [left.pending, hs]
  exact List.suffix_append _ _

theorem Left.draws_other {p : Segment} {rest : List Glyph} (left : s.Left p rest s')
    (hs : s.pending = p.glyphs ++ rest) (hp : p.kind? = none) : s.Draws [] s' := by
  apply Draws.none ?_ (left.suffix hs)
  rw [left.symbols, Segment.register, hp]

theorem Left.draws_lexeme {g : Glyph} {gs rest : List Glyph} {p : Segment} {kind : Kind}
    {token : Token} (left : s.Left p rest s') (follows : s.symbols.Follows known)
    (hs : s.pending = g :: gs) (cuts : Cuts known g gs p rest) (hp : p.kind? = some kind)
    (held : p.token (s.symbols.intern p.spelling kind).1 = .ok token) : s.Draws [token] s' := by
  have consumed : s.pending = p.glyphs ++ rest := hs.trans cuts.glyphs_append.symm
  have given := Segment.token_eq held
  have symbol : token.symbol = (s.symbols.intern p.spelling kind).1 := by rw [given]
  have spelled : token.spelling = p.spelling := by
    rw [Token.spelling, symbol, SymbolTable.intern_spelling]
  obtain ⟨registered, shaped⟩ := cuts.register_eq follows (Segment.kind?_eq_some hp) symbol
  constructor
  · rw [left.symbols, registered]
    cases h : token.registration? <;> simp [h]
  · intro t mem
    cases List.mem_singleton.mp mem
    rw [left.symbols, Segment.register, hp, spelled, symbol]
    exact SymbolTable.resolve?_intern_self _ _ _
  · intro t mem
    cases List.mem_singleton.mp mem
    exact shaped
  · intro t mem
    cases List.mem_singleton.mp mem
    rw [given, consumed]
    exact Segment.standsIn (SymbolTable.intern_spelling _ _ _) rest
  · exact left.suffix consumed

theorem draws_close (s : TokenStream σ) : s.Draws [] s.close := by
  apply Draws.none (symbols_close s)
  rw [pending_close]
  exact List.nil_suffix

/-- A pull draws the token it gives. -/
theorem draws_next {found : Option Token} (h : s.next = .ok (found, s')) :
    s.Draws found.toList s' := by
  have follows := SymbolTable.Follows.refl s.symbols
  generalize s.symbols.kind? = known at follows
  generalize hgs : s.pending = gs
  induction gs using segments_induction known generalizing s with
  | nil =>
      rw [next_of_end hgs] at h
      cases h
      exact draws_close s
  | @step g gs p rest cuts ih =>
      cases hp : p.kind? with
      | none =>
          obtain ⟨after, left, hnext⟩ := next_of_other follows hgs cuts hp
          have first := left.draws_other (hgs.trans cuts.glyphs_append.symm) hp
          have same : after.symbols = s.symbols := first.symbols
          exact first.trans (ih (hnext ▸ h) (same ▸ follows) left.pending)
      | some kind =>
          obtain ⟨after, left, hnext⟩ := next_of_lexeme follows hgs cuts hp
          obtain ⟨token, held, same⟩ := ok_of_map (hnext.symm.trans h)
          cases same
          exact left.draws_lexeme follows hgs cuts hp held

theorem draws_pullAll {tokens : Array Token} {pulled : Array Token × TokenStream σ}
    (h : s.pullAll tokens = .ok pulled) :
    ∃ more, pulled.1.toList = tokens.toList ++ more ∧ s.Draws more pulled.2 := by
  fun_induction pullAll tokens s with
  | case1 => cases h
  | case2 tokens s s' ended =>
      cases h
      exact ⟨[], (List.append_nil _).symm, draws_next ended⟩
  | case3 tokens s token s' found ih =>
      obtain ⟨more, pulled, later⟩ := ih h
      refine ⟨token :: more, ?_, (draws_next found).trans later⟩
      rw [pulled, Array.toList_push, List.append_assoc, List.singleton_append]

def Reply.drawn : Reply → List Token
  | .token t => [t]
  | .tokens ts => ts
  | .done | .noToken | .diagnostics _ => []

/-- All that a request can be answered, with what the stream does for it. -/
inductive Answers (s : TokenStream σ) : Request → Reply → TokenStream σ → Prop
  | token {token : Token} {after : TokenStream σ} : s.next = .ok (some token, after) →
      Answers s .next (.token token) after
  | noToken {after : TokenStream σ} : s.next = .ok (none, after) → Answers s .next .noToken after
  | rest {pulled : Array Token × TokenStream σ} : s.pullAll #[] = .ok pulled →
      Answers s .rest (.tokens pulled.1.toList) pulled.2
  | close : Answers s .close .done s.close
  | diagnostics : Answers s .diagnostics (.diagnostics s.diagnostics.toList) s
  | takeDiagnostics :
      Answers s .takeDiagnostics (.diagnostics s.diagnostics.toList) s.takeDiagnostics.2

theorem answers_of_answer {request : Request} {reply : Reply}
    (h : s.answer request = .ok (reply, s')) : s.Answers request reply s' := by
  cases request with
  | next =>
      obtain ⟨⟨found, after⟩, hpulled, same⟩ := ok_of_map h
      cases same
      cases found with
      | none => exact .noToken hpulled
      | some token => exact .token hpulled
  | rest =>
      obtain ⟨drained, hdrained, same⟩ := ok_of_map h
      obtain ⟨pulled, hpulled, rfl⟩ := ok_of_map hdrained
      cases same
      exact .rest hpulled
  | close =>
      cases h
      exact .close
  | diagnostics =>
      cases h
      exact .diagnostics
  | takeDiagnostics =>
      cases h
      exact .takeDiagnostics

theorem draws_answer {request : Request} {reply : Reply} (h : s.answer request = .ok (reply, s')) :
    s.Draws reply.drawn s' := by
  cases answers_of_answer h with
  | token pulled => exact draws_next pulled
  | noToken pulled => exact draws_next pulled
  | rest pulled =>
      obtain ⟨more, all, drawn⟩ := draws_pullAll pulled
      rw [Reply.drawn, all]
      exact drawn
  | close => exact draws_close s
  | diagnostics => exact .refl s
  | takeDiagnostics => exact .none rfl List.suffix_rfl

end TokenStream
end Lexis
