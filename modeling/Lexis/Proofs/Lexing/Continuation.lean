import Lexis.Proofs.Lexing.Comments
import Lexis.Proofs.Lexing.Composition

/-! A text that goes on: what was found in it stays, except for its last piece. -/

namespace Lexis

open CharClass

section

variable {known : String → Option Kind} {gs : List Glyph} {ps qs : List Segment} {p : Segment}
  {table : SymbolTable} {found front : List Token × SymbolTable}

/-- Behind every segment but the last one stood a character already, and a segment depends on no
other one beyond its end. -/
theorem segments_append_of_concat (h : segments known gs = ps ++ [p]) (hs : List Glyph) :
    ∃ qs, segments known (gs ++ hs) = ps ++ qs := by
  induction gs using segments_induction known generalizing ps with
  | nil =>
      rw [segments_nil] at h
      exact absurd h.symm (by simp)
  | @step g gs q rest cuts ih =>
      rw [cuts.segments_eq] at h
      cases ps with
      | nil => exact ⟨_, rfl⟩
      | cons first ps =>
          obtain ⟨rfl, later⟩ := List.cons.inj h
          -- The segment is not the last one, so what it is cut off from is there already.
          have more : rest ≠ [] := by
            rintro rfl
            rw [segments_nil] at later
            exact absurd later.symm (by simp)
          have whole : Cuts known g (gs ++ hs) q (rest ++ hs) :=
            cuts.append fun nil => absurd nil more
          obtain ⟨qs, further⟩ := ih later
          refine ⟨qs, ?_⟩
          rw [List.cons_append, whole.segments_eq, further, List.cons_append]

theorem collect_front (h : collect table ps = .ok front)
    (whole : collect table (ps ++ qs) = .ok found) : front.1 <+: found.1 := by
  rw [collect_append, h] at whole
  obtain ⟨more, -, rfl⟩ := ok_of_map whole
  exact List.prefix_append _ _

theorem collect_concat (h : collect table (ps ++ [p]) = .ok found) :
    ∃ front, ∃ token? : Option Token, collect table ps = .ok front ∧
      found.1 = front.1 ++ token?.toList ∧ (p.kind? = none → token? = none) := by
  rw [collect_append] at h
  obtain ⟨front, begun, ended⟩ := ok_of_bind h
  obtain ⟨last, added, rfl⟩ := ok_of_map ended
  cases hp : p.kind? with
  | none =>
      rw [collect_of_other hp] at added
      cases added
      exact ⟨front, none, begun, rfl, fun _ => rfl⟩
  | some kind =>
      rw [collect_of_lexeme hp] at added
      obtain ⟨token, -, single⟩ := ok_of_bind added
      cases single
      exact ⟨front, some token, begun, rfl, nofun⟩

/-- What goes on after a list may replace its last element, if that is an addition. -/
theorem append_toList_keeps {α : Type} {xs whole : List α} (kept : xs <+: whole) (x? : Option α) :
    (xs ++ x?.toList).dropLast <+: whole ∧ (x? = none → xs ++ x?.toList <+: whole) := by
  cases x? with
  | none =>
      rw [Option.toList_none, List.append_nil]
      exact ⟨(List.dropLast_prefix xs).trans kept, fun _ => kept⟩
  | some x =>
      rw [Option.toList_some, List.dropLast_concat]
      exact ⟨kept, nofun⟩

theorem Segment.kind?_or_diagnostic? (p : Segment) : p.kind? = none ∨ p.diagnostic? = none := by
  obtain ⟨role, first, more⟩ := p
  cases role with
  | blank => exact .inl rfl
  | comment => exact .inl rfl
  | lexeme kind => exact .inr rfl
  | problem problem => exact .inl rfl

end

theorem Cuts.isSilent_of_isBlank {g : Glyph} {gs rest : List Glyph} {p : Segment}
    (h : Cuts Kind.ofSpelling? g gs p rest) (blank : isBlank p.last.char = true) :
    p.isSilent = true := by
  cases role : p.role with
  | blank => rw [Segment.isSilent, role]
  | comment => rw [Segment.isSilent, role]
  | lexeme kind => cases (h.not_blank role p.last_char_mem).symm.trans blank
  | problem problem =>
      have single := h.of_problem role
      have first : isBlank g.char = true := by rwa [single] at blank
      rcases h.role_of_skips (.inl ⟨g.char, rfl, first⟩) with other | other
      · cases role.symm.trans other
      · cases role.symm.trans other

theorem Text.isSilent_of_isBlank {cs : List Char} {ps : List Segment} {p : Segment}
    (h : Text.segments Kind.ofSpelling? cs = ps ++ [p])
    (blank : ∀ c ∈ cs.getLast?, isBlank c = true) : p.isSilent = true := by
  obtain ⟨_, _, _, cuts⟩ := cuts_of_concat h
  apply cuts.isSilent_of_isBlank
  apply blank
  rw [← map_char_placed .first cs, List.getLast?_map, getLast?_of_concat h]
  rfl

/-- When a text goes on, the tokens and diagnostics found in it stay, except perhaps the last one.
Behind a blank all of them stay. -/
theorem tokenize_append_keeps {table : SymbolTable} (scanned : table.Scanned) (a b : String) :
    ((a ++ b).length < wordLimit → ∃ t whole, tokenize a table = .ok t ∧
      tokenize (a ++ b) table = .ok whole) ∧
    ∀ t whole, tokenize a table = .ok t → tokenize (a ++ b) table = .ok whole →
      t.tokens.dropLast <+: whole.tokens ∧ t.diagnostics.dropLast <+: whole.diagnostics ∧
      (t.tokens <+: whole.tokens ∨ t.diagnostics <+: whole.diagnostics) ∧
      ((∀ c ∈ a.toList.getLast?, isBlank c = true) →
        t.tokens <+: whole.tokens ∧ t.diagnostics <+: whole.diagnostics) := by
  constructor
  · intro short
    have shorter : a.length < wordLimit := by
      rw [String.length_append] at short
      omega
    obtain ⟨t, first⟩ := tokenize_returns scanned.follows shorter
    obtain ⟨whole, all⟩ := tokenize_returns scanned.follows short
    exact ⟨t, whole, first, all⟩
  · intro t whole first all
    rw [tokenize_eq scanned.follows] at first all
    obtain ⟨found, hfound, rfl⟩ := ok_of_map first
    obtain ⟨found', hfound', rfl⟩ := ok_of_map all
    rcases List.eq_nil_or_concat (Text.segments Kind.ofSpelling? a.toList) with none | ⟨ps, p, concat⟩
    · rw [none] at hfound ⊢
      cases hfound
      exact ⟨List.nil_prefix, List.nil_prefix, .inl List.nil_prefix,
        fun _ => ⟨List.nil_prefix, List.nil_prefix⟩⟩
    · rw [List.concat_eq_append] at concat
      obtain ⟨qs, continued⟩ := segments_append_of_concat concat
        (Text.placed (Position.first.past a.toList) b.toList)
      rw [← Text.placed_append, ← String.toList_append] at continued
      rw [concat] at hfound ⊢
      rw [Text.segments, continued] at hfound' ⊢
      obtain ⟨front, token?, begun, tokens, tokenless⟩ := collect_concat hfound
      have kept : ps.filterMap Segment.diagnostic? <+: (ps ++ qs).filterMap Segment.diagnostic? := by
        rw [List.filterMap_append]
        exact List.prefix_append _ _
      obtain ⟨butLast, all⟩ := append_toList_keeps (collect_front begun hfound') token?
      obtain ⟨butLast', all'⟩ := append_toList_keeps kept p.diagnostic?
      rw [← tokens] at butLast all
      rw [← filterMap_diagnostic?_concat] at butLast' all'
      refine ⟨butLast, butLast', ?_, ?_⟩
      -- The last segment came to a token or to a diagnostic, so the other list is kept as a whole.
      · exact p.kind?_or_diagnostic?.imp (fun none => all (tokenless none)) all'
      · intro blank
        have silent := Text.isSilent_of_isBlank concat blank
        exact ⟨all (tokenless (Segment.kind?_of_isSilent silent)),
          all' (Segment.diagnostic?_of_isSilent silent)⟩

/-- A slash that turns into a comment, and a number that does not go on behind a blank. -/
theorem tokenize_append_keeps_slash :
    SymbolTable.standard.Scanned ∧
      (∃ t whole, tokenize "a=#/" .standard = .ok t ∧
        tokenize ("a=#/" ++ "/3") .standard = .ok whole ∧
        t.tokens.map Token.spelling = ["a", "=", "/"] ∧
        whole.tokens.map Token.spelling = ["a", "="] ∧
        t.tokens.dropLast <+: whole.tokens ∧ t.diagnostics <+: whole.diagnostics) ∧
      ∃ t whole, tokenize "#3. " .standard = .ok t ∧
        tokenize ("#3. " ++ "14") .standard = .ok whole ∧
        t.tokens <+: whole.tokens ∧ t.diagnostics <+: whole.diagnostics := by
  refine ⟨.standard, ?_, ?_⟩
  · obtain ⟨returns, keeps⟩ := tokenize_append_keeps .standard "a=#/" "/3"
    obtain ⟨t, whole, first, all⟩ := returns (by decide)
    have spelled : (tokenize "a=#/" .standard).map (·.tokens.map Token.spelling) =
        .ok ["a", "=", "/"] := by decide +kernel
    have spelled' : (tokenize ("a=#/" ++ "/3") .standard).map (·.tokens.map Token.spelling) =
        .ok ["a", "="] := by decide +kernel
    rw [first] at spelled
    rw [all] at spelled'
    have three : t.tokens.map Token.spelling = ["a", "=", "/"] := Except.ok.inj spelled
    have two : whole.tokens.map Token.spelling = ["a", "="] := Except.ok.inj spelled'
    obtain ⟨butLast, -, either, -⟩ := keeps t whole first all
    refine ⟨t, whole, first, all, three, two, butLast, either.resolve_left fun kept => ?_⟩
    have fewer := (kept.map Token.spelling).length_le
    rw [three, two] at fewer
    exact absurd fewer (by decide)
  · obtain ⟨returns, keeps⟩ := tokenize_append_keeps .standard "#3. " "14"
    obtain ⟨t, whole, first, all⟩ := returns (by decide)
    obtain ⟨-, -, -, blank⟩ := keeps t whole first all
    have last : "#3. ".toList.getLast? = some ' ' := by decide
    refine ⟨t, whole, first, all, blank ?_⟩
    rw [last]
    rintro c ⟨rfl⟩
    rfl

end Lexis
