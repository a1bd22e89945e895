import Lexis.Proofs.Lexing.Lexemes
import Lexis.Proofs.Lexing.Tokenize
import Lexis.Proofs.Text.Columns

/-! The places that the segments of a text take up. -/

namespace Lexis

open CharClass

section

variable {known : String → Option Kind} {gs : List Glyph} {q : Segment}

theorem cuts_of_mem_segments (h : q ∈ segments known gs) :
    ∃ before g gs' rest, gs = before ++ g :: gs' ∧ Cuts known g gs' q rest := by
  induction gs using segments_induction known with
  | nil => simp at h
  | @step g gs p rest cuts ih =>
      rw [cuts.segments_eq] at h
      rcases List.mem_cons.mp h with rfl | later
      · exact ⟨[], g, gs, rest, rfl, cuts⟩
      · obtain ⟨before, g', gs', rest', rfl, cuts'⟩ := ih later
        refine ⟨p.glyphs ++ before, g', gs', rest', ?_, cuts'⟩
        rw [← cuts.glyphs_append, List.append_assoc]

theorem cuts_of_concat {ps : List Segment} (concat : segments known gs = ps ++ [q]) :
    ∃ g gs' rest, Cuts known g gs' q rest := by
  have mem : q ∈ segments known gs := by
    rw [concat]
    exact List.mem_append_right ps List.mem_cons_self
  obtain ⟨_, g, gs', rest, -, cuts⟩ := cuts_of_mem_segments mem
  exact ⟨g, gs', rest, cuts⟩

end

section

variable {g : Glyph} {gs rest : List Glyph} {q : Segment}

theorem not_blank_of_isSign {c : Char} (h : isSign c = true) : isBlank c = false := by
  simp only [isSign, Bool.and_eq_true, Bool.not_eq_true'] at h
  exact h.1

theorem Shape.not_blank {cs : List Char} {kind : Kind} (h : Shape cs kind) {c : Char}
    (hc : c ∈ cs) : isBlank c = false := by
  by_contra blank
  rw [Bool.not_eq_false] at blank
  rcases h.part_or_dot c hc with part | rfl
  · cases part.symm.trans (isIdentifierPart_of_isBlank blank)
  · cases blank

theorem Shape.ne_slash {cs : List Char} {kind : Kind} (h : Shape cs kind) : '/' ∉ cs := by
  intro slash
  rcases h.part_or_dot _ slash with part | dot
  · have : isIdentifierPart '/' = false := by decide
    cases part.symm.trans this
  · cases dot

theorem Lexeme.not_blank_of_mem {cs : List Char} {kind : Kind} (h : Lexeme cs kind) {c : Char}
    (hc : c ∈ cs) : isBlank c = false := by
  obtain ⟨d, ds, rfl⟩ := List.exists_cons_of_ne_nil h.ne_nil
  cases opens : opensShape d with
  | true =>
      obtain ⟨kind', shape⟩ := h.shape opens
      exact shape.not_blank hc
  | false =>
      obtain ⟨sign, more⟩ := Kind.signs_of_ofSpelling? (h.bare opens) opens
      rcases List.mem_cons.mp hc with rfl | later
      · exact not_blank_of_isSign sign
      · rcases more with rfl | ⟨e, rfl, second, -⟩
        · cases later
        · rw [List.mem_singleton.mp later]
          exact not_blank_of_isSign second

theorem Lexeme.ne_slash {c : Char} {cs : List Char} {kind : Kind} (h : Lexeme (c :: cs) kind) :
    '/' ∉ cs := by
  intro slash
  cases opens : opensShape c with
  | true =>
      obtain ⟨kind', shape⟩ := h.shape opens
      exact shape.ne_slash (List.mem_cons_of_mem _ slash)
  | false =>
      rcases (Kind.signs_of_ofSpelling? (h.bare opens) opens).2 with rfl | ⟨d, rfl, -, ne⟩
      · cases slash
      · exact ne (List.mem_singleton.mp slash).symm

theorem Cuts.not_blank (h : Cuts Kind.ofSpelling? g gs q rest) {kind : Kind}
    (role : q.role = .lexeme kind) {c : Char} (hc : c ∈ q.chars) : isBlank c = false :=
  (h.holds role).not_blank_of_mem hc

theorem Cuts.ne_slash (h : Cuts Kind.ofSpelling? g gs q rest) (role : q.role ≠ .comment)
    {x : Glyph} (hx : x ∈ q.more) : x.char ≠ '/' := by
  have hchar : x.char ∈ q.more.map Glyph.char := List.mem_map_of_mem hx
  cases hrole : q.role with
  | blank =>
      obtain ⟨rfl, -⟩ := h.of_blank hrole
      cases hx
  | comment => exact absurd hrole role
  | problem problem =>
      obtain ⟨rfl, -⟩ := h.problem hrole
      cases hx
  | lexeme kind =>
      intro slash
      rw [slash] at hchar
      exact (h.holds hrole).ne_slash hchar

end

section

variable {text : String} {q q' : Segment} {g g' : Glyph}

abbrev Text.pieces (text : String) : List Segment := Text.segments Kind.ofSpelling? text.toList

theorem Text.mem_pieces (hq : q ∈ pieces text) (hg : g ∈ q.glyphs) :
    g ∈ placed .first text.toList := by
  rw [← flatMap_glyphs_segments Kind.ofSpelling? (placed .first text.toList)]
  exact List.mem_flatMap.mpr ⟨q, hq, hg⟩

theorem Text.exists_piece (hg : g ∈ placed .first text.toList) :
    ∃ q ∈ pieces text, g ∈ q.glyphs := by
  rw [← flatMap_glyphs_segments Kind.ofSpelling? (placed .first text.toList)] at hg
  exact List.mem_flatMap.mp hg

theorem Text.pairwise_pieces (text : String) : (pieces text).Pairwise fun p q =>
    ∀ g ∈ p.glyphs, ∀ h ∈ q.glyphs, g.position.Before h.position := by
  have placed := pairwise_placed .first text.toList
  rw [← flatMap_glyphs_segments Kind.ofSpelling? (Text.placed .first text.toList),
    List.pairwise_flatMap] at placed
  exact placed.2

theorem eq_or_of_pairwise {α : Type} {R : α → α → Prop} {xs : List α} (h : xs.Pairwise R) {x y : α}
    (hx : x ∈ xs) (hy : y ∈ xs) : x = y ∨ R x y ∨ R y x := by
  induction h with
  | nil => cases hx
  | cons first _ ih =>
      rcases List.mem_cons.mp hx with rfl | hx'
      · rcases List.mem_cons.mp hy with rfl | hy'
        · exact .inl rfl
        · exact .inr (.inl (first y hy'))
      · rcases List.mem_cons.mp hy with rfl | hy'
        · exact .inr (.inr (first x hx'))
        · exact ih hx' hy'

/-- No place is taken twice. -/
theorem Text.piece_unique (hq : q ∈ pieces text) (hq' : q' ∈ pieces text) (hg : g ∈ q.glyphs)
    (hg' : g' ∈ q'.glyphs) (same : g.position = g'.position) : q = q' := by
  rcases eq_or_of_pairwise (pairwise_pieces text) hq hq' with eq | before | before
  · exact eq
  · exact absurd (same ▸ before g hg g' hg') (Position.Before.irrefl _)
  · exact absurd (same ▸ before g' hg' g hg) (Position.Before.irrefl _)

/-- A place where a line shows two slashes, or a later one on that line. -/
def Text.InComment (text : String) (place : Position) : Prop :=
  ∃ column ≤ place.column, charAt? text ⟨place.line, column⟩ = some '/' ∧
    charAt? text ⟨place.line, column + 1⟩ = some '/'

theorem Text.head?_of_next {p : Position} {cs : List Char} {before after : List Glyph}
    (split : placed p cs = before ++ g :: after) (hg : g.char ≠ '\n') (mem : g' ∈ placed p cs)
    (next : g'.position = ⟨g.position.line, g.position.column + 1⟩) : after.head? = some g' := by
  have order := pairwise_placed p cs
  rw [split] at order mem
  obtain ⟨-, ordered, crossed⟩ := List.pairwise_append.mp order
  have ahead : g.position.Before g'.position := by
    rw [next]
    exact .inr ⟨rfl, Nat.lt_succ_self _⟩
  rcases List.mem_append.mp mem with earlier | later
  · have back := crossed g' earlier g List.mem_cons_self
    exact absurd (ahead.trans back) (Position.Before.irrefl _)
  · rcases List.mem_cons.mp later with rfl | later
    · exact absurd ahead (Position.Before.irrefl _)
    · cases after with
      | nil => cases later
      | cons x xs =>
          -- The first glyph of the rest stands where the second one is said to stand.
          obtain ⟨-, hrest⟩ := placed_eq_append split
          simp only [List.map_cons, placed_cons] at hrest
          have hx := congrArg Glyph.position (List.cons.inj (List.cons.inj hrest).2).1
          have first := congrArg Glyph.position (List.cons.inj hrest).1
          simp only at hx first
          rw [← first, Position.after_of_ne hg, ← next] at hx
          rcases List.mem_cons.mp later with rfl | further
          · rfl
          · have again := (List.pairwise_cons.mp (List.pairwise_cons.mp ordered).2).1 g' further
            rw [hx] at again
            exact absurd again (Position.Before.irrefl _)

theorem Text.comment_extent (hq : q ∈ pieces text) (role : q.role = .comment) :
    q.first.char = '/' ∧ (∃ second ∈ q.glyphs, second.char = '/' ∧
      second.position = ⟨q.place.line, q.place.column + 1⟩) ∧
      ∀ g ∈ q.glyphs, g.position.line = q.place.line ∧ q.place.column ≤ g.position.column := by
  obtain ⟨-, -, -, -, hglyphs⟩ := mem_segments hq
  obtain ⟨before, first, gs, rest, -, cuts⟩ := cuts_of_mem_segments hq
  obtain ⟨second, body, rfl, hfirst, hsecond, hbody⟩ := cuts.of_comment role
  have order := pairwise_placed (Segment.place ⟨.comment, first, second :: body⟩)
    (Segment.chars ⟨.comment, first, second :: body⟩)
  rw [← hglyphs] at order
  have next : second.position = ⟨first.position.line, first.position.column + 1⟩ := by
    simp only [Segment.chars, Segment.glyphs, List.map_cons, placed_cons, hfirst,
      Segment.place] at hglyphs
    rw [congrArg Glyph.position (List.cons.inj (List.cons.inj hglyphs).2).1]
    rfl
  have line : ∀ g ∈ (first :: second :: body), g.position.line = first.position.line := by
    intro g hg
    rcases List.mem_cons.mp hg with rfl | hg
    · rfl
    · rcases List.mem_cons.mp hg with rfl | hg
      · rw [next]
      · simpa [onLine] using hbody.1 g hg
  refine ⟨hfirst, ⟨second, by simp [Segment.glyphs], hsecond, next⟩, ?_⟩
  intro g hg
  refine ⟨line g hg, ?_⟩
  rcases List.mem_cons.mp hg with rfl | later
  · exact Nat.le_refl _
  · have after := (List.pairwise_cons.mp order).1 g later
    have same : g.position.line = first.position.line := line g hg
    change first.position.Before g.position at after
    change first.position.column ≤ g.position.column
    unfold Position.Before at after
    omega

theorem Text.comment_reaches (hq : q ∈ pieces text) (role : q.role = .comment)
    (hg : g ∈ placed .first text.toList) (line : g.position.line = q.place.line)
    (column : q.place.column ≤ g.position.column) : g ∈ q.glyphs := by
  obtain ⟨before, first, gs, rest, split, cuts⟩ := cuts_of_mem_segments hq
  have order := pairwise_placed .first text.toList
  rw [split, ← cuts.glyphs_append] at order hg
  obtain ⟨-, ordered, crossed⟩ := List.pairwise_append.mp order
  rcases List.mem_append.mp hg with earlier | hg
  · have back := crossed g earlier q.first (by simp [Segment.glyphs])
    unfold Position.Before at back
    unfold Segment.place at line column
    omega
  · rcases List.mem_append.mp hg with inside | later
    · exact inside
    · obtain ⟨second, body, rfl, -, -, hbody⟩ := cuts.of_comment role
      obtain ⟨-, ends, beyond⟩ := List.pairwise_append.mp ordered
      cases rest with
      | nil => cases later
      | cons x xs =>
          have away : x.position.line ≠ first.position.line := by simpa [onLine] using hbody.2 x rfl
          have below := beyond first (by simp [Segment.glyphs]) x List.mem_cons_self
          have order : x = g ∨ x.position.Before g.position := by
            rcases List.mem_cons.mp later with rfl | further
            · exact .inl rfl
            · exact .inr ((List.pairwise_cons.mp ends).1 g further)
          unfold Position.Before at below order
          unfold Segment.place at line
          rcases order with rfl | order <;> simp only at line <;> omega

theorem Text.comment_of_slashes {line column : Nat} (hq : q ∈ pieces text)
    (first : ⟨'/', line, column⟩ ∈ q.glyphs)
    (second : ⟨'/', line, column + 1⟩ ∈ placed .first text.toList) : q.role = .comment := by
  obtain ⟨before, g, gs, rest, split, cuts⟩ := cuts_of_mem_segments hq
  have starts := cuts.glyphs_append
  by_contra other
  -- The first slash opens its segment, and so the second one is the next glyph.
  have opening : g.char = '/' ∧ g.position = ⟨line, column⟩ := by
    rcases List.mem_cons.mp first with here | later
    · rw [Segment.glyphs, List.cons_append, ← here] at starts
      rw [← (List.cons.inj starts).1]
      exact ⟨rfl, rfl⟩
    · exact absurd rfl (cuts.ne_slash other later)
  have next : gs.head? = some ⟨'/', line, column + 1⟩ := by
    apply head?_of_next split (by rw [opening.1]; decide) second
    rw [opening.2]
  have slashes : Skips ((g :: gs).map Glyph.char) := by
    obtain ⟨gs', rfl⟩ := List.head?_eq_some_iff.mp next
    right
    rw [List.map_cons, List.map_cons, opening.1]
    exact ⟨_, rfl⟩
  rcases cuts.role_of_skips slashes with blank | comment
  · have isBlank := (cuts.of_blank blank).2
    rw [opening.1] at isBlank
    cases isBlank
  · exact other comment

/-- The comments of a text are what stands at or after the first two slashes of a line. -/
theorem Text.inComment_iff (hq : q ∈ pieces text) (hg : g ∈ q.glyphs) :
    InComment text g.position ↔ q.role = .comment := by
  constructor
  · rintro ⟨column, le, first, second⟩
    obtain ⟨q', hq', hslash⟩ := exists_piece (mem_placed_of_charAt? first)
    have role := comment_of_slashes hq' hslash (mem_placed_of_charAt? second)
    obtain ⟨-, -, extent⟩ := comment_extent hq' role
    obtain ⟨line, start⟩ := extent _ hslash
    have inside := comment_reaches hq' role (mem_pieces hq hg) line (Nat.le_trans start le)
    rw [piece_unique hq hq' hg inside rfl]
    exact role
  · intro role
    obtain ⟨first, ⟨second, hsecond, slash, next⟩, extent⟩ := comment_extent hq role
    obtain ⟨line, start⟩ := extent g hg
    refine ⟨q.place.column, start, ?_, ?_⟩
    · apply charAt?_of_mem_placed _ (by decide)
      rw [line, ← first]
      exact mem_pieces hq List.mem_cons_self
    · apply charAt?_of_mem_placed _ (by decide)
      rw [line, ← next, ← slash]
      exact mem_pieces hq hsecond

theorem Text.lexeme_extent (hq : q ∈ pieces text) {kind : Kind} (role : q.role = .lexeme kind) :
    q.glyphs = q.chars.mapIdx fun i c => ⟨c, q.place.line, q.place.column + i⟩ := by
  obtain ⟨-, -, -, -, hglyphs⟩ := mem_segments hq
  obtain ⟨_, _, _, _, -, cuts⟩ := cuts_of_mem_segments hq
  have unbroken : '\n' ∉ q.chars := by
    intro newline
    cases cuts.not_blank role newline
  rw [← placed_of_newline_notMem unbroken]
  exact hglyphs

theorem Text.charAt?_lexeme (hq : q ∈ pieces text) {kind : Kind} (role : q.role = .lexeme kind)
    {i : Nat} (hi : i < q.chars.length) :
    charAt? text ⟨q.place.line, q.place.column + i⟩ = some q.chars[i] := by
  obtain ⟨_, _, _, _, -, cuts⟩ := cuts_of_mem_segments hq
  apply charAt?_of_mem_placed
  · apply mem_pieces hq
    rw [lexeme_extent hq role, List.mem_mapIdx]
    exact ⟨i, hi, rfl⟩
  · exact cuts.not_blank role (List.getElem_mem hi)

end

end Lexis
