import Lexis.Proofs.Lexing.Extent

/-! Every character of a text is accounted for once: by a token, by a diagnostic, as a blank, or as
part of a comment. -/

namespace Lexis

open CharClass

def Token.Covers (t : Token) (place : Position) : Prop :=
  place.line = t.line ∧ t.left ≤ place.column ∧ place.column ≤ t.right

/-- Who accounts for a character: a token or a diagnostic of the list, or nobody in particular. -/
inductive Share where
  | token (index : Nat)
  | diagnostic (index : Nat)
  | blank
  | comment
deriving DecidableEq, Repr

namespace Tokenization

/-- A place of a text falls to a share. -/
def Falls (t : Tokenization) (text : String) (place : Position) : Share → Prop
  | .token i => ∃ token, t.tokens[i]? = some token ∧ token.Covers place
  | .diagnostic i => ∃ d, t.diagnostics[i]? = some d ∧ d.position = place
  | .blank => (∃ c, Text.charAt? text place = some c ∧ isBlank c = true) ∧
    ¬ Text.InComment text place
  | .comment => Text.InComment text place

/-- Tokens and diagnostics stand in the text as they say, in order and apart, and nothing of the
text is left out. -/
structure Accounts (t : Tokenization) (text : String) : Prop where
  spelled : ∀ token ∈ t.tokens, 1 ≤ token.line ∧ token.line ≤ (Text.lines text).length ∧
    token.left ≤ token.right ∧ ∃ line, Text.lineAt? text token.line = some line ∧
      token.right < line.length ∧
      (line.toList.drop token.left).take (token.right - token.left + 1) = token.spelling.toList
  shown : ∀ d ∈ t.diagnostics, 1 ≤ d.position.line ∧
    d.position.line ≤ (Text.lines text).length ∧ ∃ c, Text.charAt? text d.position = some c ∧
      (d.problem = .illegalCharacter (String.singleton c) ∨
        d.problem = .malformedLeadingDotLiteral (String.singleton c))
  ordered : t.tokens.Pairwise fun a b => a.line < b.line ∨ a.line = b.line ∧ a.right < b.left
  reported : t.diagnostics.Pairwise fun a b => a.position.Before b.position
  apart : ∀ token ∈ t.tokens, ∀ d ∈ t.diagnostics, ¬ token.Covers d.position
  shared : ∀ {place : Position} {c : Char}, Text.charAt? text place = some c →
    ∃! share, t.Falls text place share

end Tokenization

section

variable {text : String} {q q' : Segment} {token token' : Token} {d d' : Diagnostic}

def Segment.Gives (q : Segment) (token : Token) : Prop := q.sighting? = some token.sighting

theorem Segment.Gives.token_eq (h : q.Gives token) : ∃ kind, q.role = .lexeme kind ∧
    token.spelling = String.ofList q.chars ∧ token.line = q.place.line ∧
    token.left = q.place.column ∧ token.right = q.place.column + q.chars.length - 1 := by
  obtain ⟨kind, role, same⟩ := q.sighting_eq h
  simp only [Token.sighting, Sighting.mk.injEq] at same
  obtain ⟨spelling, -, line, left, right⟩ := same
  exact ⟨kind, role, spelling, line, left, right⟩

theorem Text.covers_iff (hq : q ∈ pieces text) (gives : q.Gives token) {place : Position} :
    token.Covers place ↔ ∃ g ∈ q.glyphs, g.position = place := by
  obtain ⟨kind, role, -, line, left, right⟩ := gives.token_eq
  have pos := q.length_pos
  rw [lexeme_extent hq role]
  unfold Token.Covers
  constructor
  · rintro ⟨hline, hleft, hright⟩
    refine ⟨_, List.mem_mapIdx.mpr ⟨place.column - token.left, by omega, rfl⟩, ?_⟩
    simp only [← line, ← left, ← hline]
    rw [Nat.add_sub_cancel' hleft]
  · rintro ⟨g, hg, rfl⟩
    obtain ⟨i, hi, rfl⟩ := List.mem_mapIdx.mp hg
    simp only
    omega

theorem Text.problem_extent (hq : q ∈ pieces text) {problem : Problem}
    (role : q.role = .problem problem) :
    q = ⟨.problem (problemAt q.first.char), q.first, []⟩ ∧ isBlank q.first.char = false := by
  obtain ⟨_, g, _, _, -, cuts⟩ := cuts_of_mem_segments hq
  obtain ⟨rfl, -⟩ := cuts.problem role
  refine ⟨rfl, ?_⟩
  by_contra blank
  rw [Bool.not_eq_false] at blank
  exact cuts.not_skips (by simp) (by simp) (.inl ⟨g.char, rfl, blank⟩)

theorem Text.blank_of_mem (hq : q ∈ pieces text) (role : q.role = .blank) {g : Glyph}
    (hg : g ∈ q.glyphs) : isBlank g.char = true := by
  obtain ⟨_, first, _, _, -, cuts⟩ := cuts_of_mem_segments hq
  obtain ⟨rfl, blank⟩ := cuts.of_blank role
  rw [Segment.glyphs, List.mem_singleton] at hg
  rwa [hg]

theorem Text.shown_of_diagnostic (hq : q ∈ pieces text) (given : q.diagnostic? = some d) :
    (∃ problem, q.role = .problem problem) ∧ q.place = d.position ∧
      charAt? text d.position = some q.first.char ∧ d.problem = problemAt q.first.char := by
  obtain ⟨problem, role, rfl⟩ := Segment.diagnostic_eq given
  obtain ⟨same, blank⟩ := problem_extent hq role
  refine ⟨⟨problem, role⟩, rfl, charAt?_of_mem_placed (mem_pieces hq List.mem_cons_self) blank, ?_⟩
  rw [same] at role
  cases role
  rfl

end

theorem exists_char_of_tokenize {text : String} {table : SymbolTable} (scanned : table.Scanned)
    {t : Tokenization} (h : tokenize text table = .ok t) {d : Diagnostic} (hd : d ∈ t.diagnostics) :
    ∃ line c, Text.lineAt? text d.position.line = some line ∧
      line.toList[d.position.column]? = some c := by
  rw [(sightings_of_tokenize scanned.follows h).2] at hd
  obtain ⟨q, hq, given⟩ := List.mem_filterMap.mp hd
  obtain ⟨-, -, shown, -⟩ := Text.shown_of_diagnostic hq given
  obtain ⟨line, found, here⟩ := Option.bind_eq_some_iff.mp shown
  exact ⟨line, _, found, here⟩

inductive Share.Suits : Share → Role → Prop
  | token {i : Nat} {kind : Kind} : Suits (.token i) (.lexeme kind)
  | diagnostic {i : Nat} {problem : Problem} : Suits (.diagnostic i) (.problem problem)
  | blank : Suits .blank .blank
  | comment : Suits .comment .comment

structure Tokenization.Stems (t : Tokenization) (text : String) : Prop where
  tokens : t.tokens.map Token.sighting = (Text.pieces text).filterMap Segment.sighting?
  diagnostics : t.diagnostics = (Text.pieces text).filterMap Segment.diagnostic?

namespace Tokenization.Stems

open Text

variable {text : String} {t : Tokenization} {q : Segment} {token : Token} {d : Diagnostic}

theorem gives (stems : t.Stems text) (h : token ∈ t.tokens) :
    ∃ q ∈ pieces text, q.Gives token := by
  have sighted : token.sighting ∈ t.tokens.map Token.sighting := List.mem_map_of_mem h
  rw [stems.tokens] at sighted
  exact List.mem_filterMap.mp sighted

theorem given (stems : t.Stems text) (hq : q ∈ pieces text) {kind : Kind}
    (role : q.role = .lexeme kind) : ∃ token ∈ t.tokens, q.Gives token := by
  have found := Segment.sighting?_of_lexeme role
  have sighted := List.mem_filterMap.mpr ⟨q, hq, found⟩
  rw [← stems.tokens] at sighted
  obtain ⟨token, htoken, same⟩ := List.mem_map.mp sighted
  exact ⟨token, htoken, found.trans (congrArg some same.symm)⟩

theorem reports (stems : t.Stems text) (h : d ∈ t.diagnostics) :
    ∃ q ∈ pieces text, q.diagnostic? = some d := by
  rw [stems.diagnostics] at h
  exact List.mem_filterMap.mp h

theorem reported (stems : t.Stems text) (hq : q ∈ pieces text) {problem : Problem}
    (role : q.role = .problem problem) : ⟨problem, q.place⟩ ∈ t.diagnostics := by
  rw [stems.diagnostics]
  refine List.mem_filterMap.mpr ⟨q, hq, ?_⟩
  rw [Segment.diagnostic?, role]

theorem spelled (stems : t.Stems text) (h : token ∈ t.tokens) :
    1 ≤ token.line ∧ token.line ≤ (lines text).length ∧ token.left ≤ token.right ∧
      ∃ line, lineAt? text token.line = some line ∧ token.right < line.length ∧
        (line.toList.drop token.left).take (token.right - token.left + 1) =
          token.spelling.toList := by
  obtain ⟨q, hq, gives⟩ := stems.gives h
  obtain ⟨kind, role, spelling, hline, hleft, hright⟩ := gives.token_eq
  have pos := q.length_pos
  obtain ⟨line, found, -⟩ := Option.bind_eq_some_iff.mp (charAt?_lexeme hq role pos)
  have shows {i : Nat} (hi : i < q.chars.length) :
      line.toList[q.place.column + i]? = some q.chars[i] := by
    have shown := charAt?_lexeme hq role hi
    rw [charAt?, found] at shown
    exact shown
  have width : token.right - token.left + 1 = q.chars.length := by omega
  obtain ⟨low, high⟩ := line_bounds found
  refine ⟨hline ▸ low, hline ▸ high, by omega, line, hline ▸ found, ?_, ?_⟩
  · obtain ⟨inside, -⟩ := List.getElem?_eq_some_iff.mp
      (shows (i := q.chars.length - 1) (Nat.sub_lt pos Nat.one_pos))
    rw [String.length_toList] at inside
    omega
  · rw [width, spelling, String.toList_ofList]
    apply List.ext_getElem?
    intro i
    rw [List.getElem?_take]
    split
    next hi => rw [List.getElem?_drop, hleft, shows hi, List.getElem?_eq_getElem hi]
    next hi => rw [List.getElem?_eq_none (Nat.not_lt.mp hi)]

theorem shown (stems : t.Stems text) (h : d ∈ t.diagnostics) :
    1 ≤ d.position.line ∧ d.position.line ≤ (lines text).length ∧
      ∃ c, charAt? text d.position = some c ∧
        (d.problem = .illegalCharacter (String.singleton c) ∨
          d.problem = .malformedLeadingDotLiteral (String.singleton c)) := by
  obtain ⟨q, hq, given⟩ := stems.reports h
  obtain ⟨-, -, shown, hproblem⟩ := shown_of_diagnostic hq given
  obtain ⟨line, found, -⟩ := Option.bind_eq_some_iff.mp shown
  obtain ⟨low, high⟩ := line_bounds found
  refine ⟨low, high, q.first.char, shown, ?_⟩
  rw [hproblem, problemAt]
  split
  next dot =>
    rw [dot]
    exact .inr rfl
  next => exact .inl rfl

theorem ordered (stems : t.Stems text) :
    t.tokens.Pairwise fun a b => a.line < b.line ∨ a.line = b.line ∧ a.right < b.left := by
  have sightings : (t.tokens.map Token.sighting).Pairwise fun a b =>
      a.line < b.line ∨ a.line = b.line ∧ a.right < b.left := by
    rw [stems.tokens, List.pairwise_filterMap]
    apply (pairwise_pieces text).imp_of_mem
    intro q q' hq _ before s hs s' hs'
    obtain ⟨kind, role, rfl⟩ := q.sighting_eq hs
    obtain ⟨kind', role', rfl⟩ := q'.sighting_eq hs'
    -- The last character of the first lexeme stands before the first one of the second.
    have pos := q.length_pos
    have last : ⟨q.chars[q.chars.length - 1], q.place.line,
        q.place.column + (q.chars.length - 1)⟩ ∈ q.glyphs := by
      rw [lexeme_extent hq role]
      exact List.mem_mapIdx.mpr ⟨q.chars.length - 1, by omega, rfl⟩
    have apart := before _ last q'.first List.mem_cons_self
    unfold Position.Before at apart
    simp only at apart ⊢
    unfold Segment.place at *
    omega
  exact List.pairwise_map.mp sightings

theorem inOrder (stems : t.Stems text) :
    t.diagnostics.Pairwise fun a b => a.position.Before b.position := by
  rw [stems.diagnostics, List.pairwise_filterMap]
  apply (pairwise_pieces text).imp_of_mem
  intro q q' hq hq' before d hd d' hd'
  rw [← (shown_of_diagnostic hq hd).2.1, ← (shown_of_diagnostic hq' hd').2.1]
  exact before q.first List.mem_cons_self q'.first List.mem_cons_self

theorem apart (stems : t.Stems text) (h : token ∈ t.tokens) (hd : d ∈ t.diagnostics) :
    ¬ token.Covers d.position := by
  intro covers
  obtain ⟨q, hq, gives⟩ := stems.gives h
  obtain ⟨kind, role, -⟩ := gives.token_eq
  obtain ⟨q', hq', given⟩ := stems.reports hd
  obtain ⟨⟨problem, role'⟩, first, -⟩ := shown_of_diagnostic hq' given
  obtain ⟨g, hg, place⟩ := (covers_iff hq gives).mp covers
  obtain rfl := piece_unique hq hq' hg List.mem_cons_self (place.trans first.symm)
  cases role.symm.trans role'

theorem role_of_falls (stems : t.Stems text) (hq : q ∈ pieces text) {place : Position} {c : Char}
    (hg : ⟨c, place⟩ ∈ q.glyphs) (hc : charAt? text place = some c) {share : Share}
    (falls : t.Falls text place share) : share.Suits q.role := by
  -- No place is taken twice, so whoever accounts for it stems from this segment.
  cases share with
  | token i =>
      obtain ⟨token, htoken, covers⟩ := falls
      obtain ⟨q', hq', gives⟩ := stems.gives (List.mem_of_getElem? htoken)
      obtain ⟨kind, role, -⟩ := gives.token_eq
      obtain ⟨g, hg', same⟩ := (covers_iff hq' gives).mp covers
      rw [piece_unique hq hq' hg hg' same.symm, role]
      constructor
  | diagnostic i =>
      obtain ⟨d, hd, rfl⟩ := falls
      obtain ⟨q', hq', given⟩ := stems.reports (List.mem_of_getElem? hd)
      obtain ⟨⟨problem, role⟩, first, -⟩ := shown_of_diagnostic hq' given
      rw [piece_unique hq hq' hg List.mem_cons_self first.symm, role]
      constructor
  | blank =>
      obtain ⟨⟨c', hc', blank⟩, outside⟩ := falls
      obtain rfl := Option.some.inj (hc.symm.trans hc')
      cases role : q.role with
      | blank => constructor
      | comment => exact absurd ((inComment_iff hq hg).mpr role) outside
      | lexeme kind =>
          obtain ⟨_, _, _, _, -, cuts⟩ := cuts_of_mem_segments hq
          cases blank.symm.trans (cuts.not_blank role (List.mem_map_of_mem hg))
      | problem problem =>
          obtain ⟨same, visible⟩ := problem_extent hq role
          rw [same, Segment.glyphs, List.mem_singleton] at hg
          rw [← hg] at visible
          cases blank.symm.trans visible
  | comment =>
      rw [(inComment_iff hq hg).mp falls]
      constructor

theorem index_unique {α : Type} {R : α → α → Prop} {xs : List α} (h : xs.Pairwise R) {i j : Nat}
    {x y : α} (hi : xs[i]? = some x) (hj : xs[j]? = some y) (before : ¬ R x y)
    (behind : ¬ R y x) : i = j := by
  obtain ⟨hi', rfl⟩ := List.getElem?_eq_some_iff.mp hi
  obtain ⟨hj', rfl⟩ := List.getElem?_eq_some_iff.mp hj
  rw [List.pairwise_iff_getElem] at h
  rcases Nat.lt_trichotomy i j with lt | eq | gt
  · exact absurd (h i j hi' hj' lt) before
  · exact eq
  · exact absurd (h j i hj' hi' gt) behind

theorem falls_unique (stems : t.Stems text) {place : Position} {share other : Share} {role : Role}
    (falls : t.Falls text place share) (falls' : t.Falls text place other)
    (suits : share.Suits role) (suits' : other.Suits role) : share = other := by
  cases suits with
  | blank =>
      cases suits'
      rfl
  | comment =>
      cases suits'
      rfl
  | @token i =>
      cases suits' with
      | @token j =>
          obtain ⟨token, hi, covers⟩ := falls
          obtain ⟨token', hj, covers'⟩ := falls'
          unfold Token.Covers at covers covers'
          congr 1
          apply index_unique stems.ordered hi hj <;> omega
  | @diagnostic i =>
      cases suits' with
      | @diagnostic j =>
          obtain ⟨d, hi, rfl⟩ := falls
          obtain ⟨d', hj, same⟩ := falls'
          congr 1
          apply index_unique stems.inOrder hi hj
          · rw [same]
            exact Position.Before.irrefl _
          · rw [same]
            exact Position.Before.irrefl _

/-- Whatever a segment was taken for accounts for its characters. -/
theorem exists_falls (stems : t.Stems text) (hq : q ∈ pieces text) {place : Position} {c : Char}
    (hg : ⟨c, place⟩ ∈ q.glyphs) (hc : charAt? text place = some c) :
    ∃ share, t.Falls text place share := by
  cases role : q.role with
  | blank =>
      have outside : ¬ InComment text place := by
        rw [inComment_iff hq hg, role]
        simp
      exact ⟨.blank, ⟨c, hc, blank_of_mem hq role hg⟩, outside⟩
  | comment => exact ⟨.comment, (inComment_iff hq hg).mpr role⟩
  | lexeme kind =>
      obtain ⟨token, htoken, gives⟩ := stems.given hq role
      obtain ⟨i, hi⟩ := List.getElem?_of_mem htoken
      exact ⟨.token i, token, hi, (covers_iff hq gives).mpr ⟨_, hg, rfl⟩⟩
  | problem problem =>
      obtain ⟨i, hi⟩ := List.getElem?_of_mem (stems.reported hq role)
      have here : q.place = place := by
        rw [(problem_extent hq role).1, Segment.glyphs, List.mem_singleton] at hg
        rw [Segment.place, ← hg]
      exact ⟨.diagnostic i, _, hi, here⟩

/-- Every character that the lines of a text show has its share, and no other. -/
theorem shared (stems : t.Stems text) {place : Position} {c : Char}
    (hc : charAt? text place = some c) : ∃! share, t.Falls text place share := by
  obtain ⟨q, hq, hg⟩ := exists_piece (mem_placed_of_charAt? hc)
  obtain ⟨share, falls⟩ := stems.exists_falls hq hg hc
  refine ⟨share, falls, ?_⟩
  intro other falls'
  exact stems.falls_unique falls' falls (stems.role_of_falls hq hg hc falls')
    (stems.role_of_falls hq hg hc falls)

theorem accounts (stems : t.Stems text) : t.Accounts text where
  spelled _ h := stems.spelled h
  shown _ h := stems.shown h
  ordered := stems.ordered
  reported := stems.inOrder
  apart _ h _ hd := stems.apart h hd
  shared hc := stems.shared hc

end Tokenization.Stems

/-- Scanning accounts for every character of a text, unless a column is no machine word. -/
theorem tokenize_accounts {table : SymbolTable} (scanned : table.Scanned) (text : String) :
    (∀ t, tokenize text table = .ok t → t.Accounts text) ∧
      (text.length < wordLimit → ∃ t, tokenize text table = .ok t) := by
  constructor
  · intro t ht
    obtain ⟨htokens, hdiagnostics⟩ := sightings_of_tokenize scanned.follows ht
    exact Tokenization.Stems.accounts ⟨htokens, hdiagnostics⟩
  · exact tokenize_returns scanned.follows

/-- Two slashes after an operator open a comment that runs over the carriage return. -/
theorem tokenize_accounts_comment :
    SymbolTable.standard.Scanned ∧
      ∃ t, tokenize "é+// =\r\n.\t=" .standard = .ok t ∧
        t.Accounts "é+// =\r\n.\t=" := by
  obtain ⟨accounts, returns⟩ := tokenize_accounts .standard "é+// =\r\n.\t="
  obtain ⟨t, ht⟩ := returns (by decide)
  exact ⟨.standard, t, ht, accounts t ht⟩

end Lexis
