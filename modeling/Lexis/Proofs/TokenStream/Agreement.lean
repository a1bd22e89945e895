import Lexis.Proofs.TokenStream.Drawing

/-! Two token streams over the same characters, with tables that give the same kinds where it
matters, find the same. Only the numbers of the symbols may differ. -/

namespace Lexis

/-- A symbol as it is in every table that gives its spelling this kind. -/
def Symbol.unnumbered (symbol : Symbol) : Symbol := { symbol with id := 0 }

def Token.unnumbered (t : Token) : Token := { t with symbol := t.symbol.unnumbered }

theorem SymbolTable.unnumbered_intern (table : SymbolTable) (spelling : String) (kind : Kind) :
    (table.intern spelling kind).1.unnumbered =
      ⟨0, spelling, (table.intern spelling kind).1.kind⟩ := by
  rw [Symbol.unnumbered, intern_spelling]

namespace TokenStream

def Reply.unnumbered : Reply → Reply
  | .token t => .token t.unnumbered
  | .tokens ts => .tokens (ts.map Token.unnumbered)
  | .done => .done
  | .noToken => .noToken
  | .diagnostics ds => .diagnostics ds

theorem drawn_unnumbered (reply : Reply) :
    reply.unnumbered.drawn = reply.drawn.map Token.unnumbered := by
  cases reply <;> rfl

variable {σ τ : Type} [CharSource σ] [CharSource τ] {known : String → Option Kind}

/-- The same is pending and on record, and both tables give the known kinds. -/
structure Alike (known : String → Option Kind) (s : TokenStream σ) (s' : TokenStream τ) : Prop where
  pending : s.pending = s'.pending
  ending : s.pending ≠ [] → s.ending = s'.ending
  diagnostics : s.diagnostics.toList = s'.diagnostics.toList
  left : s.symbols.Follows known
  right : s'.symbols.Follows known

section

variable {s : TokenStream σ} {s' : TokenStream τ}

omit [CharSource τ] in
theorem diagnostics_close (s : TokenStream σ) : s.close.diagnostics = s.diagnostics := by
  rw [close]
  split <;> rfl

theorem Alike.close (h : Alike known s s') : Alike known s.close s'.close := by
  constructor
  · rw [pending_close, pending_close]
  · intro some
    exact absurd (pending_close s) some
  · rw [diagnostics_close, diagnostics_close]
    exact h.diagnostics
  · rw [symbols_close]
    exact h.left
  · rw [symbols_close]
    exact h.right

theorem Alike.after (h : Alike known s s') {g : Glyph} {gs rest : List Glyph} {p : Segment}
    (hs : s.pending = g :: gs) (cuts : Cuts known g gs p rest) {t : TokenStream σ}
    {t' : TokenStream τ} (left : s.Left p rest t) (right : s'.Left p rest t') :
    Alike known t t' := by
  have ending : s.ending = s'.ending := by
    apply h.ending
    rw [hs]
    exact List.cons_ne_nil g gs
  constructor
  · rw [left.pending, right.pending]
  · intro more
    rw [left.pending] at more
    rw [left.ending more, right.ending more, ending]
  · rw [left.diagnostics, right.diagnostics, h.diagnostics, ending]
  · rw [left.symbols]
    exact follows_register cuts h.left
  · rw [right.symbols]
    exact follows_register cuts h.right

theorem Alike.token (h : Alike known s s') {g : Glyph} {gs rest : List Glyph} {p : Segment}
    (cuts : Cuts known g gs p rest) {kind : Kind} (role : p.role = .lexeme kind) :
    Agree (fun a b => a.unnumbered = b.unnumbered)
      (p.token (s.symbols.intern p.spelling kind).1)
      (p.token (s'.symbols.intern p.spelling kind).1) := by
  have symbol : (s.symbols.intern p.spelling kind).1.unnumbered =
      (s'.symbols.intern p.spelling kind).1.unnumbered := by
    rw [SymbolTable.unnumbered_intern, SymbolTable.unnumbered_intern, (cuts.intern role h.left).1,
      (cuts.intern role h.right).1]
  rw [Segment.token, Segment.token]
  cases addWords p.place.column p.glyphs.length with
  | error fault => exact .fault fault
  | ok stop =>
      apply Agree.ok
      simp only [Token.unnumbered, symbol]

theorem Alike.next (h : Alike known s s') :
    Agree (fun a b => a.1.map Token.unnumbered = b.1.map Token.unnumbered ∧ Alike known a.2 b.2)
      s.next s'.next := by
  generalize hgs : s.pending = gs
  induction gs using segments_induction known generalizing s s' with
  | nil =>
      rw [next_of_end hgs, next_of_end (h.pending ▸ hgs)]
      exact .ok ⟨rfl, h.close⟩
  | @step g gs p rest cuts ih =>
      have hgs' : s'.pending = g :: gs := h.pending ▸ hgs
      cases hp : p.kind? with
      | none =>
          obtain ⟨t, left, hnext⟩ := next_of_other h.left hgs cuts hp
          obtain ⟨t', right, hnext'⟩ := next_of_other h.right hgs' cuts hp
          rw [hnext, hnext']
          exact ih (h.after hgs cuts left right) left.pending
      | some kind =>
          obtain ⟨t, left, hnext⟩ := next_of_lexeme h.left hgs cuts hp
          obtain ⟨t', right, hnext'⟩ := next_of_lexeme h.right hgs' cuts hp
          rw [hnext, hnext']
          apply (h.token cuts (Segment.kind?_eq_some hp)).map
          intro a b same
          exact ⟨congrArg some same, h.after hgs cuts left right⟩

theorem Alike.pullAll (h : Alike known s s') {tokens tokens' : Array Token}
    (same : tokens.toList.map Token.unnumbered = tokens'.toList.map Token.unnumbered) :
    Agree (fun a b => a.1.toList.map Token.unnumbered = b.1.toList.map Token.unnumbered ∧
      Alike known a.2 b.2) (s.pullAll tokens) (s'.pullAll tokens') := by
  fun_induction TokenStream.pullAll tokens s generalizing s' tokens' with
  | case1 tokens s fault failed =>
      have other := (failed ▸ h.next).of_fault
      rw [pullAll_eq_match, other]
      exact .fault fault
  | case2 tokens s t ended =>
      obtain ⟨⟨found', t'⟩, other, absent, alike⟩ := (ended ▸ h.next).of_ok
      have none : found' = none := Option.map_eq_none_iff.mp absent.symm
      rw [pullAll_eq_match, other, none]
      exact .ok ⟨same, alike⟩
  | case3 tokens s token t found ih =>
      obtain ⟨⟨found', t'⟩, other, both, alike⟩ := (found ▸ h.next).of_ok
      obtain ⟨token', given, twin⟩ := Option.map_eq_some_iff.mp both.symm
      rw [pullAll_eq_match tokens', other, show found' = some token' from given]
      apply ih alike
      rw [Array.toList_push, Array.toList_push, List.map_append, List.map_append, same]
      simp only [List.map_cons, List.map_nil, twin]

theorem Alike.rest (h : Alike known s s') :
    Agree (fun a b => a.1.map Token.unnumbered = b.1.map Token.unnumbered ∧ Alike known a.2 b.2)
      s.rest s'.rest := by
  have start : (#[] : Array Token).toList.map Token.unnumbered =
      (#[] : Array Token).toList.map Token.unnumbered := rfl
  exact (h.pullAll start).map id

theorem Alike.answer (h : Alike known s s') (request : Request) :
    Agree (fun a b => a.1.unnumbered = b.1.unnumbered ∧ Alike known a.2 b.2)
      (s.answer request) (s'.answer request) := by
  cases request with
  | next =>
      apply h.next.map
      rintro ⟨found, t⟩ ⟨found', t'⟩ ⟨same, alike⟩
      refine ⟨?_, alike⟩
      cases found with
      | none =>
          have absent : found' = none := Option.map_eq_none_iff.mp same.symm
          rw [absent]
      | some token =>
          obtain ⟨token', given, twin⟩ := Option.map_eq_some_iff.mp same.symm
          rw [show found' = some token' from given]
          exact congrArg Reply.token twin.symm
  | rest =>
      apply h.rest.map
      intro a b both
      exact ⟨congrArg Reply.tokens both.1, both.2⟩
  | close => exact .ok ⟨rfl, h.close⟩
  | diagnostics => exact .ok ⟨congrArg Reply.diagnostics h.diagnostics, h⟩
  | takeDiagnostics =>
      exact .ok ⟨congrArg Reply.diagnostics h.diagnostics, h.pending, h.ending, rfl, h.left, h.right⟩

/-- What a turn of a conversation tells, whatever the numbers of symbols. -/
def shown (turn : Reply × TokenStream σ) : Reply × List Diagnostic :=
  (turn.1.unnumbered, turn.2.diagnostics.toList)

/-- The same requests are answered alike, with the same diagnostics after each. -/
theorem Alike.converse (h : Alike known s s') (requests : List Request) :
    Agree (fun a b => a.map shown = b.map shown) (s.converse requests) (s'.converse requests) := by
  induction requests generalizing s s' with
  | nil => exact .ok rfl
  | cons request requests ih =>
      have answers := h.answer request
      rw [TokenStream.converse, TokenStream.converse]
      cases first : s.answer request with
      | error fault =>
          rw [first] at answers
          rw [answers.of_fault]
          exact .fault fault
      | ok turn =>
          rw [first] at answers
          obtain ⟨turn', second, reply, alike⟩ := answers.of_ok
          have same : shown turn = shown turn' := by rw [shown, shown, reply, alike.diagnostics]
          rw [second]
          apply (ih alike).map
          intro later later' both
          rw [List.map_cons, List.map_cons, same, both]

end

end TokenStream
end Lexis
