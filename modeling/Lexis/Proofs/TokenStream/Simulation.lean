import Lexis.Proofs.TokenStream.Advance
import Lexis.TokenStream.Next

/-! A token stream deals with the segments of its pending characters, one after another. -/

namespace Lexis

open CharClass

namespace TokenStream

variable {σ : Type} [CharSource σ] {known : String → Option Kind}

/-- What a stream makes of the segment it stands before. -/
def deal (s : TokenStream σ) (p : Segment) : Piece σ :=
  match p.role with
  | .blank => .ok (none, s.advanceBy p.glyphs.length)
  | .comment =>
    let opened := s.advance.record (.skippedComment p.first.position.line)
    .ok (none, opened.advanceBy p.more.length)
  | .lexeme kind => (s.advanceBy p.glyphs.length).emitLexeme p.spelling kind p.first.position
  | .problem problem => .ok (none, (s.advanceBy p.glyphs.length).report problem p.first.position)

omit [CharSource σ] in
theorem emitLexeme_shaped {s : TokenStream σ} (follows : s.symbols.Follows known) {cs : List Char}
    {shape : Kind} (hcs : Shape cs shape) (start : Position) :
    s.emitLexeme (String.ofList cs) shape start =
      s.emitLexeme (String.ofList cs) ((known (String.ofList cs)).getD shape) start := by
  simp only [emitLexeme]
  rw [follows.intern_shaped hcs]

omit [CharSource σ] in
theorem emitLexeme_of_resolve {s : TokenStream σ} {cs : List Char} {symbol : Symbol}
    (h : s.symbols.resolve? (String.ofList cs) = some symbol) (kind : Kind) (start : Position) :
    s.emitLexeme (String.ofList cs) kind start = s.emit symbol start cs.length := by
  simp only [emitLexeme]
  rw [SymbolTable.intern_of_resolve h, String.length_ofList]

theorem takeRun_advance {s : TokenStream σ} {g : Glyph} {gs : List Glyph}
    (hs : s.pending = g :: gs) (p : Char → Bool) (lexeme : List Char) :
    s.advance.takeRun p (String.ofList lexeme) =
      (String.ofList (lexeme ++ (gs.takeWhile (ofClass p)).map Glyph.char),
        s.advanceBy (g :: gs.takeWhile (ofClass p)).length) := by
  rw [takeRun_eq, pending_advance hs, ← String.ofList_append]
  rfl

theorem scanWord_eq {s : TokenStream σ} {g : Glyph} {run rest : List Glyph}
    (follows : s.symbols.Follows known) (hs : s.pending = g :: (run ++ rest))
    (hg : isIdentifierStart g.char = true) (hrun : Stretch (ofClass isIdentifierPart) run rest) :
    s.scanWord g = s.deal (.shaped known .identifier g run) := by
  rw [scanWord, String.singleton_eq_ofList]
  simp only [takeRun_advance hs, hrun.takeWhile_eq]
  exact emitLexeme_shaped (by rwa [symbols_advanceBy]) (shape_word hg hrun.1) _

theorem scanNumber_integer {s : TokenStream σ} {g : Glyph} {run rest : List Glyph}
    (follows : s.symbols.Follows known) (hs : s.pending = g :: (run ++ rest))
    (hg : isDigit g.char = true) (hrun : Stretch (ofClass isDigit) run rest)
    (hdot : ∀ h ∈ rest.head?, h.char ≠ '.') :
    s.scanNumber g = s.deal (.shaped known .integerLiteral g run) := by
  have after : (s.advanceBy (g :: run).length).pending = rest := pending_advanceBy hs
  rw [scanNumber, String.singleton_eq_ofList]
  simp only [takeRun_advance hs, hrun.takeWhile_eq, lookahead_eq, after]
  split
  next place heq => exact absurd rfl (hdot _ heq)
  next => exact emitLexeme_shaped (by rwa [symbols_advanceBy]) (shape_integer hg hrun.1) _

theorem scanNumber_decimal {s : TokenStream σ} {g dot : Glyph} {run part rest : List Glyph}
    (follows : s.symbols.Follows known) (hs : s.pending = g :: (run ++ dot :: (part ++ rest)))
    (hg : isDigit g.char = true) (hrun : ∀ h ∈ run, isDigit h.char = true) (hdot : dot.char = '.')
    (hpart : Stretch (ofClass isDigit) part rest) :
    s.scanNumber g = s.deal (.shaped known .floatLiteral g (run ++ dot :: part)) := by
  have whole : Stretch (ofClass isDigit) run (dot :: (part ++ rest)) := by
    refine ⟨hrun, ?_⟩
    intro d hd
    cases hd
    rw [ofClass, hdot]
    decide
  have after : (s.advanceBy (g :: run).length).pending = dot :: (part ++ rest) :=
    pending_advanceBy hs
  rw [scanNumber, String.singleton_eq_ofList]
  simp only [takeRun_advance hs, whole.takeWhile_eq, lookahead_eq, after, List.head?_cons]
  obtain ⟨c, place⟩ := dot
  obtain rfl : c = '.' := hdot
  have push (cs : List Char) : (String.ofList cs).push '.' = String.ofList (cs ++ ['.']) := by
    rw [← String.toList_inj]
    simp
  simp only [push, takeRun_advance after, hpart.takeWhile_eq, ← advanceBy_add]
  have spelled : [g.char] ++ run.map Glyph.char ++ ['.'] ++ part.map Glyph.char =
      (g :: (run ++ ⟨'.', place⟩ :: part)).map Glyph.char := by simp
  have consumed : (g :: run).length + ((⟨'.', place⟩ : Glyph) :: part).length =
      (g :: (run ++ ⟨'.', place⟩ :: part)).length := by
    simp only [List.length_cons, List.length_append]
    omega
  rw [spelled, consumed]
  exact emitLexeme_shaped (by rwa [symbols_advanceBy]) (shape_decimal hg hrun rfl hpart.1) _

theorem scanFraction_eq {s : TokenStream σ} {g : Glyph} {part rest : List Glyph}
    (follows : s.symbols.Follows known) (hs : s.pending = g :: (part ++ rest))
    (hg : g.char = '.') (hne : part ≠ []) (hpart : Stretch (ofClass isDigit) part rest) :
    s.scanFraction g = s.deal (.shaped known .floatLiteral g part) := by
  have digits : String.ofList (['.'] ++ part.map Glyph.char) ≠ "." := by
    intro same
    rw [← String.toList_inj, String.toList_ofList] at same
    exact hne (by simpa using same)
  rw [scanFraction, show "." = String.ofList ['.'] from rfl]
  simp only [takeRun_advance hs, hpart.takeWhile_eq]
  rw [if_neg digits, ← hg, List.singleton_append, ← List.map_cons]
  exact emitLexeme_shaped (by rwa [symbols_advanceBy]) (shape_fraction hg hne hpart.1) _

theorem scanFraction_malformed {s : TokenStream σ} {g : Glyph} {rest : List Glyph}
    (hs : s.pending = g :: rest) (hrest : Stretch (ofClass isDigit) [] rest) :
    s.scanFraction g = s.deal (.malformed g) := by
  rw [scanFraction, show "." = String.ofList ['.'] from rfl]
  have none := hrest.takeWhile_eq
  rw [List.nil_append] at none
  simp only [takeRun_advance hs, none, List.map_nil, List.append_nil, if_true]
  rfl

theorem scanSingle_known {s : TokenStream σ} {g : Glyph} {kind : Kind}
    (follows : s.symbols.Follows known) (bare : Bare g)
    (hk : known (String.singleton g.char) = some kind) :
    s.advance.scanSingle g = s.deal ⟨.lexeme kind, g, []⟩ := by
  rw [String.singleton_eq_ofList] at hk
  obtain ⟨symbol, hsymbol, -⟩ := follows.resolve?_bare bare.2 hk
  rw [scanSingle, symbols_advance, String.singleton_eq_ofList, hsymbol]
  have after : (s.advanceBy [g].length).symbols.resolve? (String.ofList [g.char]) = some symbol := by
    rwa [symbols_advanceBy]
  exact (emitLexeme_of_resolve after kind g.position).symm

theorem scanSingle_illegal {s : TokenStream σ} {g : Glyph} (follows : s.symbols.Follows known)
    (bare : Bare g) (hk : known (String.singleton g.char) = none) :
    s.advance.scanSingle g = s.deal (.illegal g) := by
  rw [String.singleton_eq_ofList] at hk
  have absent := follows.resolve?_bare_none bare.2 hk
  simp only [scanSingle, symbols_advance, String.singleton_eq_ofList, absent]
  rfl

theorem scanOperator_alone {s : TokenStream σ} {g : Glyph} {rest : List Glyph}
    (follows : s.symbols.Follows known) (hs : s.pending = g :: rest) (bare : Bare g)
    (alone : Alone known g rest) : s.scanOperator g = s.advance.scanSingle g := by
  simp only [scanOperator, lookahead_eq, pending_advance hs]
  cases rest with
  | nil => rfl
  | cons h rest =>
      obtain ⟨slashes, hk⟩ := alone h rfl
      have absent := follows.resolve?_bare_none bare.2 hk
      simp only [List.head?_cons, if_neg slashes, symbols_advance, absent]

theorem scanOperator_pair {s : TokenStream σ} {g h : Glyph} {rest : List Glyph} {kind : Kind}
    (follows : s.symbols.Follows known) (hs : s.pending = g :: h :: rest) (bare : Bare g)
    (slashes : ¬ (g.char = '/' ∧ h.char = '/'))
    (hk : known (String.ofList [g.char, h.char]) = some kind) :
    s.scanOperator g = s.deal ⟨.lexeme kind, g, [h]⟩ := by
  obtain ⟨symbol, hsymbol, -⟩ := follows.resolve?_bare bare.2 hk
  simp only [scanOperator, lookahead_eq, pending_advance hs, List.head?_cons, if_neg slashes,
    symbols_advance, hsymbol]
  have after : (s.advanceBy [g, h].length).symbols.resolve? (String.ofList [g.char, h.char]) =
      some symbol := by rwa [symbols_advanceBy]
  exact (emitLexeme_of_resolve after kind g.position).symm

theorem scanOperator_comment {s : TokenStream σ} {g h : Glyph} {body rest : List Glyph}
    (hs : s.pending = g :: h :: (body ++ rest)) (hg : g.char = '/') (hh : h.char = '/')
    (hbody : Stretch (onLine g.position.line) body rest) :
    s.scanOperator g = s.deal ⟨.comment, g, h :: body⟩ := by
  have first := pending_advance hs
  have opened : (s.advance.record (.skippedComment g.position.line)).advance.pending =
      body ++ rest := pending_advance (s := s.advance.record _) first
  simp only [scanOperator, lookahead_eq, first, List.head?_cons, if_pos (And.intro hg hh),
    skipComment, dropLine_eq, opened, hbody.takeWhile_eq]
  rfl

/-- A stream that stands before a segment deals with it. -/
theorem scanPiece_eq {s : TokenStream σ} {g : Glyph} {gs rest : List Glyph} {p : Segment}
    (follows : s.symbols.Follows known) (hs : s.pending = g :: gs) (h : Cuts known g gs p rest)
    (blank : isBlank g.char = false) : s.scanPiece g = s.deal p := by
  cases h with
  | blank hg => rw [hg] at blank; cases blank
  | word hg run => rw [scanPiece, if_pos hg, scanWord_eq follows hs hg run]
  | integer hg run hdot =>
      rw [scanPiece, if_neg (by simp [isIdentifierStart_of_isDigit hg]), if_pos hg,
        scanNumber_integer follows hs hg run hdot]
  | decimal hg hrun hdot part =>
      rw [scanPiece, if_neg (by simp [isIdentifierStart_of_isDigit hg]), if_pos hg,
        scanNumber_decimal follows hs hg hrun hdot part]
  | fraction hg hne part =>
      rw [scanPiece, if_neg (by rw [hg]; decide), if_neg (by rw [hg]; decide), if_pos hg,
        scanFraction_eq follows hs hg hne part]
  | malformed hg part =>
      rw [scanPiece, if_neg (by rw [hg]; decide), if_neg (by rw [hg]; decide), if_pos hg,
        scanFraction_malformed hs part]
  | comment hg hh body =>
      rw [scanPiece, if_neg (by rw [hg]; decide), if_neg (by rw [hg]; decide),
        if_neg (by rw [hg]; decide), scanOperator_comment hs hg hh body]
  | pair bare slashes hk =>
      obtain ⟨start, digit, dot⟩ := bare.classes
      rw [scanPiece, if_neg start, if_neg digit, if_neg dot,
        scanOperator_pair follows hs bare slashes hk]
  | single bare alone hk =>
      obtain ⟨start, digit, dot⟩ := bare.classes
      rw [scanPiece, if_neg start, if_neg digit, if_neg dot,
        scanOperator_alone follows hs bare alone, scanSingle_known follows bare hk]
  | illegal bare alone hk =>
      obtain ⟨start, digit, dot⟩ := bare.classes
      rw [scanPiece, if_neg start, if_neg digit, if_neg dot,
        scanOperator_alone follows hs bare alone, scanSingle_illegal follows bare hk]

/-- What is left of a stream once it has dealt with a segment. -/
structure Left (s : TokenStream σ) (p : Segment) (rest : List Glyph) (s' : TokenStream σ) : Prop where
  pending : s'.pending = rest
  symbols : s'.symbols = p.register s.symbols
  ending : rest ≠ [] → s'.ending = s.ending
  diagnostics : s'.diagnostics.toList = s.diagnostics.toList ++
    ((if rest = [] then endDiagnostics s.ending p.last.position else []) ++ p.diagnostic?.toList)

theorem left_advanceBy {s : TokenStream σ} {p : Segment} {rest : List Glyph}
    (hs : s.pending = p.glyphs ++ rest) :
    (s.advanceBy p.glyphs.length).pending = rest ∧
      (rest ≠ [] → (s.advanceBy p.glyphs.length).ending = s.ending) ∧
      (s.advanceBy p.glyphs.length).diagnostics.toList = s.diagnostics.toList ++
        if rest = [] then endDiagnostics s.ending p.last.position else [] :=
  ⟨pending_advanceBy hs, fun hrest => ending_advanceBy hrest hs, diagnostics_advanceBy hs⟩

theorem deal_lexeme {s : TokenStream σ} {p : Segment} {rest : List Glyph} {kind : Kind}
    (hs : s.pending = p.glyphs ++ rest) (role : p.role = .lexeme kind) :
    ∃ s', s.Left p rest s' ∧
      s.deal p = (p.token (s.symbols.intern p.spelling kind).1).map fun t => (some t, s') := by
  obtain ⟨hpending, hending, hdiagnostics⟩ := left_advanceBy hs
  have registered : (s.symbols.intern p.spelling kind).2 = p.register s.symbols := by
    rw [Segment.register, Segment.kind?, role]
  have reported : p.diagnostic? = none := by rw [Segment.diagnostic?, role]
  have left (log : Array LogEvent) : s.Left p rest
      { s.advanceBy p.glyphs.length with
        symbols := (s.symbols.intern p.spelling kind).2, log } := by
    refine ⟨hpending, registered, hending, ?_⟩
    rw [reported, Option.toList_none, List.append_nil]
    exact hdiagnostics
  simp only [deal, role, emitLexeme, emit, Segment.token, Segment.place, symbols_advanceBy,
    Segment.length_spelling]
  cases addWords p.first.position.column p.glyphs.length with
  | error fault => exact ⟨_, left #[], rfl⟩
  | ok stop => exact ⟨_, left _, rfl⟩

/-- The event of a comment is logged at its second slash, where the source goes on. -/
theorem deal_comment {s : TokenStream σ} {p : Segment} {rest : List Glyph}
    (hs : s.pending = p.glyphs ++ rest) (role : p.role = .comment) (more : p.more ≠ []) :
    ∃ s', s.Left p rest s' ∧ s.deal p = .ok (none, s') := by
  have registered : p.register s.symbols = s.symbols := by
    rw [Segment.register, Segment.kind?, role]
  have reported : p.diagnostic? = none := by rw [Segment.diagnostic?, role]
  obtain ⟨h, body, hmore⟩ := List.exists_cons_of_ne_nil more
  rw [Segment.glyphs, hmore, List.cons_append, List.cons_append] at hs
  obtain ⟨source, hsame, hsecond, hstop⟩ := advance_of_pending hs
  -- The comment is logged at its second slash, where the source is read on.
  let opened := s.advance.record (.skippedComment p.first.position.line)
  have hopened : opened.pending = h :: (body ++ rest) := hsecond
  refine ⟨opened.advanceBy p.more.length, ⟨?_, ?_, ?_, ?_⟩, by rw [deal, role]⟩
  · rw [hmore]
    exact pending_advanceBy hopened
  · rw [symbols_advanceBy, registered]
    exact symbols_advance s
  · intro hrest
    rw [hmore]
    have kept : (opened.advanceBy (h :: body).length).ending = opened.ending :=
      ending_advanceBy hrest hopened
    exact kept.trans hstop
  · have carried : opened.diagnostics = s.diagnostics := by
      simp only [opened, record]
      rw [hsame]
    have going : opened.ending = s.ending := hstop
    rw [reported, Option.toList_none, List.append_nil, hmore, diagnostics_advanceBy hopened,
      carried, going, Segment.last, hmore, List.getLastD_cons]

theorem deal_other {s : TokenStream σ} {p : Segment} {rest : List Glyph}
    (hs : s.pending = p.glyphs ++ rest) (hp : p.kind? = none)
    (hcomment : p.role = .comment → p.more ≠ []) :
    ∃ s', s.Left p rest s' ∧ s.deal p = .ok (none, s') := by
  obtain ⟨hpending, hending, hdiagnostics⟩ := left_advanceBy hs
  have registered : p.register s.symbols = s.symbols := by rw [Segment.register, hp]
  cases role : p.role with
  | blank =>
      have reported : p.diagnostic? = none := by rw [Segment.diagnostic?, role]
      refine ⟨s.advanceBy p.glyphs.length, ⟨hpending, ?_, hending, ?_⟩, by rw [deal, role]⟩
      · rw [symbols_advanceBy, registered]
      · rw [hdiagnostics, reported, Option.toList_none, List.append_nil]
  | lexeme kind => rw [Segment.kind?, role] at hp; cases hp
  | problem problem =>
      have reported : p.diagnostic? = some ⟨problem, p.place⟩ := by rw [Segment.diagnostic?, role]
      refine ⟨(s.advanceBy p.glyphs.length).report problem p.first.position,
        ⟨hpending, ?_, hending, ?_⟩, by rw [deal, role]⟩
      · exact (symbols_advanceBy s _).trans registered.symm
      · rw [reported, Option.toList_some, ← List.append_assoc, ← hdiagnostics]
        exact Array.toList_push
  | comment => exact deal_comment hs role (hcomment role)

end TokenStream
end Lexis
