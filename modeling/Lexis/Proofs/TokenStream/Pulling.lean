import Lexis.Proofs.TokenStream.Simulation

/-! Draining a token stream comes to collecting the lexemes among the segments of its pending
characters. -/

namespace Lexis

theorem Cuts.more_of_comment {known : String → Option Kind} {g : Glyph} {gs rest : List Glyph}
    {p : Segment} (h : Cuts known g gs p rest) (role : p.role = .comment) : p.more ≠ [] := by
  cases h with
  | comment => simp
  | _ => cases role

namespace TokenStream

open CharClass

variable {σ : Type} [CharSource σ] {known : String → Option Kind}

@[simp] theorem symbols_close (s : TokenStream σ) : s.close.symbols = s.symbols := by
  rw [close]
  split <;> rfl

theorem pending_close (s : TokenStream σ) : s.close.pending = [] := by
  apply pending_of_lookahead
  rw [close]
  split <;> rfl

theorem next_of_end {s : TokenStream σ} (hs : s.pending = []) : s.next = .ok (none, s.close) := by
  have nothing : s.lookahead = none := by rw [lookahead_eq, hs, List.head?_nil]
  rw [next]
  split
  next => rfl
  next some => cases nothing.symm.trans some

theorem next_of_blank {s : TokenStream σ} {g : Glyph} (hg : s.lookahead = some g)
    (blank : isBlank g.char = true) : s.next = s.advance.next := by
  rw [next]
  split
  next nothing => cases hg.symm.trans nothing
  next given =>
    cases hg.symm.trans given
    rw [if_pos blank]

theorem next_of_piece {s : TokenStream σ} {g : Glyph} (hg : s.lookahead = some g)
    (blank : isBlank g.char = false) :
    s.next = match s.scanPiece g with
      | .error fault => .error fault
      | .ok (some token, s') => .ok (some token, s')
      | .ok (none, s') => s'.next := by
  rw [next]
  split
  next nothing => cases hg.symm.trans nothing
  next given =>
    cases hg.symm.trans given
    rw [if_neg (by simp [blank])]
    split <;> next piece => rw [piece]

/-- A pull deals with the first segment, and goes on if that is no token. -/
theorem next_of_cuts {s : TokenStream σ} {g : Glyph} {gs rest : List Glyph} {p : Segment}
    (follows : s.symbols.Follows known) (hs : s.pending = g :: gs) (h : Cuts known g gs p rest) :
    s.next = match s.deal p with
      | .error fault => .error fault
      | .ok (some token, s') => .ok (some token, s')
      | .ok (none, s') => s'.next := by
  have first := lookahead_of_pending hs
  cases blank : isBlank g.char with
  | true =>
      obtain ⟨rfl, -⟩ := Prod.ext_iff.mp (h.cut_eq.symm.trans (Cuts.blank blank).cut_eq)
      exact next_of_blank first blank
  | false => rw [next_of_piece first blank, scanPiece_eq follows hs h blank]

theorem next_of_other {s : TokenStream σ} {g : Glyph} {gs rest : List Glyph} {p : Segment}
    (follows : s.symbols.Follows known) (hs : s.pending = g :: gs) (h : Cuts known g gs p rest)
    (hp : p.kind? = none) : ∃ s', s.Left p rest s' ∧ s.next = s'.next := by
  obtain ⟨s', left, dealt⟩ := deal_other (hs.trans h.glyphs_append.symm) hp h.more_of_comment
  refine ⟨s', left, ?_⟩
  rw [next_of_cuts follows hs h, dealt]

theorem next_of_lexeme {s : TokenStream σ} {g : Glyph} {gs rest : List Glyph} {p : Segment}
    {kind : Kind} (follows : s.symbols.Follows known) (hs : s.pending = g :: gs)
    (h : Cuts known g gs p rest) (hp : p.kind? = some kind) :
    ∃ s', s.Left p rest s' ∧
      s.next = (p.token (s.symbols.intern p.spelling kind).1).map fun t => (some t, s') := by
  obtain ⟨s', left, dealt⟩ :=
    deal_lexeme (hs.trans h.glyphs_append.symm) (Segment.kind?_eq_some hp)
  refine ⟨s', left, ?_⟩
  rw [next_of_cuts follows hs h, dealt]
  cases p.token (s.symbols.intern p.spelling kind).1 <;> rfl

theorem pullAll_eq_match (tokens : Array Token) (s : TokenStream σ) :
    s.pullAll tokens = match s.next with
      | .error fault => .error fault
      | .ok (none, s') => .ok (tokens, s')
      | .ok (some token, s') => s'.pullAll (tokens.push token) := by
  rw [pullAll]
  split <;> next pulled => rw [pulled]

theorem follows_register {table : SymbolTable} {g : Glyph} {gs rest : List Glyph} {p : Segment}
    (h : Cuts known g gs p rest) (follows : table.Follows known) :
    (p.register table).Follows known := by
  rw [Segment.register]
  split
  next kind hp => exact (h.intern (Segment.kind?_eq_some hp) follows).2
  next => exact follows

/-- What a drained stream leaves: the tokens pulled, its diagnostics and its table. -/
def drained (tokens : Array Token) (s : TokenStream σ) :
    Except Fault (List Token × List Diagnostic × SymbolTable) :=
  (s.pullAll tokens).map fun pulled =>
    (pulled.1.toList, pulled.2.diagnostics.toList, pulled.2.symbols)

theorem drained_of_end {s : TokenStream σ} (hs : s.pending = []) (tokens : Array Token) :
    s.drained tokens = .ok (tokens.toList, s.diagnostics.toList, s.symbols) := by
  rw [drained, pullAll_eq_match, next_of_end hs]
  simp only [Except.map, close]
  split <;> rfl

theorem drained_congr {s s' : TokenStream σ} (h : s.next = s'.next) (tokens : Array Token) :
    s.drained tokens = s'.drained tokens := by
  rw [drained, drained, pullAll_eq_match, h, ← pullAll_eq_match]

theorem drained_of_token {s s' : TokenStream σ} {token : Token}
    (h : s.next = .ok (some token, s')) (tokens : Array Token) :
    s.drained tokens = s'.drained (tokens.push token) := by
  rw [drained, drained, pullAll_eq_match, h]

theorem drained_of_fault {s : TokenStream σ} {fault : Fault} (h : s.next = .error fault)
    (tokens : Array Token) : s.drained tokens = .error fault := by
  rw [drained, pullAll_eq_match, h]
  rfl

theorem Left.recorded {s s' : TokenStream σ} {p : Segment} {rest : List Glyph}
    (left : s.Left p rest s') : s'.diagnostics.toList ++ recorded s'.ending (segments known rest) =
      s.diagnostics.toList ++ recorded s.ending (p :: segments known rest) := by
  rw [left.diagnostics, Lexis.recorded]
  cases rest with
  | nil => simp [Lexis.recorded]
  | cons g gs =>
      rw [left.ending (by simp), if_neg (by simp), if_neg (by simp [segments_cons])]
      simp only [List.append_assoc]

/-- A stream whose table is in step collects the lexemes of its pending characters. -/
theorem drained_eq {s : TokenStream σ} (follows : s.symbols.Follows known) (tokens : Array Token) :
    s.drained tokens = (collect s.symbols (segments known s.pending)).map fun found =>
      (tokens.toList ++ found.1,
        s.diagnostics.toList ++ recorded s.ending (segments known s.pending), found.2) := by
  generalize hgs : s.pending = gs
  induction gs using segments_induction known generalizing s tokens with
  | nil =>
      rw [drained_of_end hgs]
      simp [collect, Lexis.recorded, Except.map]
  | @step g gs p rest h ih =>
      rw [h.segments_eq]
      cases hp : p.kind? with
      | none =>
          obtain ⟨s', left, hnext⟩ := next_of_other follows hgs h hp
          have same : s'.symbols = s.symbols := by rw [left.symbols, Segment.register, hp]
          rw [drained_congr hnext, ih (same ▸ follows) tokens left.pending, left.recorded, same,
            collect_of_other hp]
      | some kind =>
          obtain ⟨s', left, hnext⟩ := next_of_lexeme follows hgs h hp
          have after : s'.symbols = (s.symbols.intern p.spelling kind).2 := by
            rw [left.symbols, Segment.register, hp]
          have later : s'.symbols.Follows known := left.symbols ▸ follows_register h follows
          rw [collect_of_lexeme hp]
          cases held : p.token (s.symbols.intern p.spelling kind).1 with
          | error fault =>
              rw [held] at hnext
              rw [drained_of_fault hnext]
              rfl
          | ok token =>
              rw [held] at hnext
              rw [drained_of_token hnext, ih later _ left.pending, left.recorded, after]
              simp only [Array.toList_push, List.append_assoc, List.singleton_append, Except.bind]
              cases collect (s.symbols.intern p.spelling kind).2 (segments known rest) <;> rfl

end TokenStream
end Lexis
