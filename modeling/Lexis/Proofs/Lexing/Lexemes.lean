import Lexis.Proofs.Lexing.Spellings
import Lexis.Proofs.Lexing.Tokens

/-! Lexemes, and the longest one that a text begins with. -/

namespace Lexis

open CharClass

/-- What counts as one piece of program text: a fixed spelling, or a word or number with the kind of
its shape. -/
inductive Lexeme : List Char → Kind → Prop
  | fixed {cs : List Char} {kind : Kind} : Kind.ofSpelling? (String.ofList cs) = some kind →
      Lexeme cs kind
  | shaped {cs : List Char} {kind : Kind} : Kind.ofSpelling? (String.ofList cs) = none →
      Shape cs kind → Lexeme cs kind

/-- The lexeme that a text begins with, when no longer one does. -/
structure Longest (text lexeme : List Char) (kind : Kind) : Prop where
  starts : lexeme <+: text
  holds : Lexeme lexeme kind
  longest : ∀ {other : List Char} {kind' : Kind}, other <+: text → Lexeme other kind' →
    other.length ≤ lexeme.length

namespace Lexeme

variable {c : Char} {cs : List Char} {kind kind' : Kind}

theorem unique (h : Lexeme cs kind) (h' : Lexeme cs kind') : kind = kind' := by
  cases h with
  | fixed known =>
      cases h' with
      | fixed known' => exact Option.some.inj (known.symm.trans known')
      | shaped unknown => cases known.symm.trans unknown
  | shaped unknown shape =>
      cases h' with
      | fixed known => cases unknown.symm.trans known
      | shaped _ shape' => exact shape.unique shape'

theorem bare (h : Lexeme (c :: cs) kind) (hc : opensShape c = false) :
    Kind.ofSpelling? (String.ofList (c :: cs)) = some kind := by
  cases h with
  | fixed known => exact known
  | shaped _ shape =>
      obtain ⟨d, ds, same, opens⟩ := shape.opens
      cases same
      cases hc.symm.trans opens

theorem shape (h : Lexeme (c :: cs) kind) (hc : opensShape c = true) :
    ∃ kind', Shape (c :: cs) kind' := by
  cases h with
  | fixed known => exact ⟨_, Kind.shape_of_ofSpelling? known hc⟩
  | shaped _ shape => exact ⟨kind, shape⟩

theorem ne_nil (h : Lexeme cs kind) : cs ≠ [] := by
  rintro rfl
  cases h with
  | fixed known => cases Kind.isWordOrSigns_of_ofSpelling? known
  | shaped _ shape =>
      obtain ⟨_, _, absurd, _⟩ := shape.opens
      cases absurd

theorem not_blank (h : Lexeme (c :: cs) kind) : isBlank c = false := by
  by_contra blank
  rw [Bool.not_eq_false] at blank
  have sign := (Kind.signs_of_ofSpelling? (h.bare (opensShape_of_isBlank blank))
    (opensShape_of_isBlank blank)).1
  simp [isSign, blank] at sign

theorem word_part (h : Lexeme (c :: cs) kind) (hc : isIdentifierStart c = true) :
    ∀ d ∈ cs, isIdentifierPart d = true := by
  obtain ⟨kind', shape⟩ := h.shape (by simp [opensShape, hc])
  generalize hcs : c :: cs = all at shape
  cases shape with
  | word _ part =>
      cases hcs
      exact part
  | @integer ds _ digits =>
      subst hcs
      cases hc.symm.trans (isIdentifierStart_of_isDigit (digits c List.mem_cons_self))
  | @decimal ds es ne digits =>
      obtain ⟨d, ds, rfl⟩ := List.exists_cons_of_ne_nil ne
      cases hcs
      cases hc.symm.trans (isIdentifierStart_of_isDigit (digits c List.mem_cons_self))
  | fraction =>
      cases hcs
      cases hc.symm.trans isIdentifierStart_dot

theorem number_part (h : Lexeme (c :: cs) kind) (hc : isDigit c = true) :
    (∀ d ∈ cs, isDigit d = true ∨ d = '.') ∧ cs.count '.' ≤ 1 := by
  obtain ⟨kind', shape⟩ := h.shape (by simp [opensShape, hc])
  generalize hcs : c :: cs = all at shape
  cases shape with
  | word start _ =>
      cases hcs
      cases start.symm.trans (isIdentifierStart_of_isDigit hc)
  | @integer ds _ digits =>
      subst hcs
      have digits := (List.forall_mem_cons.mp digits).2
      rw [List.count_eq_zero_of_not_mem (Shape.dot_notMem digits)]
      exact ⟨fun d hd => .inl (digits d hd), Nat.zero_le 1⟩
  | @decimal ds es ne digits part =>
      obtain ⟨d, ds, rfl⟩ := List.exists_cons_of_ne_nil ne
      rw [List.cons_append] at hcs
      obtain ⟨rfl, rfl⟩ := List.cons.inj hcs
      have digits := (List.forall_mem_cons.mp digits).2
      constructor
      · intro d hd
        rcases List.mem_append.mp hd with whole | later
        · exact .inl (digits d whole)
        · rcases List.mem_cons.mp later with rfl | fraction
          · exact .inr rfl
          · exact .inl (part d fraction)
      · rw [List.count_append, List.count_cons_self,
          List.count_eq_zero_of_not_mem (Shape.dot_notMem digits),
          List.count_eq_zero_of_not_mem (Shape.dot_notMem part)]
  | fraction =>
      cases hcs
      cases hc

theorem fraction_part (h : Lexeme ('.' :: cs) kind) :
    cs ≠ [] ∧ ∀ d ∈ cs, isDigit d = true := by
  obtain ⟨kind', shape⟩ := h.shape (by decide)
  generalize hcs : '.' :: cs = all at shape
  cases shape with
  | word start _ =>
      cases hcs
      cases start.symm.trans isIdentifierStart_dot
  | @integer ds _ digits =>
      subst hcs
      cases digits '.' List.mem_cons_self
  | @decimal ds es ne digits =>
      obtain ⟨d, ds, rfl⟩ := List.exists_cons_of_ne_nil ne
      cases hcs
      cases digits '.' List.mem_cons_self
  | fraction ne digits =>
      cases hcs
      exact ⟨ne, digits⟩

end Lexeme

namespace Longest

variable {text lexeme lexeme' rest : List Char} {kind kind' : Kind}

theorem unique (h : Longest text lexeme kind) (h' : Longest text lexeme' kind') :
    lexeme = lexeme' ∧ kind = kind' := by
  have same : lexeme = lexeme' := by
    apply (List.prefix_of_prefix_length_le h.starts h'.starts ?_).eq_of_length
    · exact Nat.le_antisymm (h'.longest h.starts h.holds) (h.longest h'.starts h'.holds)
    · exact h'.longest h.starts h.holds
  subst same
  exact ⟨rfl, h.holds.unique h'.holds⟩

/-- A lexeme is the longest one when no lexeme goes on from it with the next character. -/
theorem of_stuck (h : Lexeme lexeme kind)
    (stuck : ∀ {d : Char} {ds : List Char} {kind' : Kind}, d ∈ rest.head? →
      ¬ Lexeme (lexeme ++ d :: ds) kind') : Longest (lexeme ++ rest) lexeme kind := by
  refine ⟨List.prefix_append lexeme rest, h, ?_⟩
  intro other kind' starts hother
  by_contra longer
  obtain ⟨more, rfl⟩ := List.prefix_of_prefix_length_le (List.prefix_append lexeme rest) starts
    (by omega)
  cases more with
  | nil => simp at longer
  | cons d ds =>
      rw [List.prefix_append_right_inj] at starts
      obtain ⟨after, rfl⟩ := starts
      exact stuck rfl hother

end Longest

def problemAt (c : Char) : Problem :=
  if c = '.' then .malformedLeadingDotLiteral "." else .illegalCharacter (String.singleton c)

section

variable {g : Glyph} {gs rest : List Glyph} {p : Segment}

theorem Cuts.chars_append {known : String → Option Kind} (h : Cuts known g gs p rest) :
    (g :: gs).map Glyph.char = p.chars ++ rest.map Glyph.char := by
  rw [← h.glyphs_append, List.map_append]
  rfl

/-- The lexeme of a segment is one, with its kind. -/
theorem Cuts.holds (h : Cuts Kind.ofSpelling? g gs p rest) {kind : Kind}
    (role : p.role = .lexeme kind) : Lexeme p.chars kind := by
  rcases h.lexeme role with ⟨shape, hshape, rfl⟩ | ⟨-, known⟩
  · cases known : Kind.ofSpelling? p.spelling with
    | none => exact .shaped known hshape
    | some kind => exact .fixed known
  · exact .fixed known

theorem Alone.stuck (alone : Alone Kind.ofSpelling? g rest) (bare : Bare g) {d : Glyph}
    (hd : d ∈ rest.head?) {ds : List Char} {kind : Kind} :
    ¬ Lexeme ([g.char] ++ d.char :: ds) kind := by
  intro lexeme
  have known := lexeme.bare bare.2
  rcases (Kind.signs_of_ofSpelling? known bare.2).2 with nil | ⟨d', single, -, -⟩
  · cases nil
  · cases single
    cases (alone d hd).2.symm.trans known

/-- A segment that is a lexeme is the longest one there. -/
theorem Cuts.longest (h : Cuts Kind.ofSpelling? g gs p rest) {kind : Kind}
    (role : p.role = .lexeme kind) : Longest ((g :: gs).map Glyph.char) p.chars kind := by
  rw [h.chars_append]
  apply Longest.of_stuck (h.holds role)
  intro c ds kind' hc lexeme
  rw [List.head?_map] at hc
  obtain ⟨d, hd, rfl⟩ := Option.map_eq_some_iff.mp hc
  cases h with
  | blank => cases role
  | word hg run =>
      have go := lexeme.word_part hg d.char (by simp)
      cases go.symm.trans (run.2 d hd)
  | integer hg run hdot =>
      rcases (lexeme.number_part hg).1 d.char (by simp) with digit | dot
      · cases digit.symm.trans (run.2 d hd)
      · exact hdot d hd dot
  | @decimal run dot part _ hg hrun hdot hpart =>
      obtain ⟨go, once⟩ := lexeme.number_part hg
      rcases go d.char (by simp) with digit | again
      · cases digit.symm.trans (hpart.2 d hd)
      · simp only [Segment.shaped, List.map_append, List.map_cons, hdot, again, List.append_assoc,
          List.cons_append, List.append_eq, List.count_append, List.count_cons_self] at once
        omega
  | fraction hg hne part =>
      simp only [Segment.chars, Segment.glyphs, Segment.shaped, List.map_cons, hg,
        List.cons_append] at lexeme
      have go := lexeme.fraction_part.2 d.char (by simp)
      cases go.symm.trans (part.2 d hd)
  | malformed => cases role
  | comment => cases role
  | pair bare =>
      have signs := (Kind.signs_of_ofSpelling? (lexeme.bare bare.2) bare.2).2
      simp at signs
  | single bare alone => exact alone.stuck bare hd lexeme
  | illegal => cases role

theorem Cuts.of_problem {known : String → Option Kind} (h : Cuts known g gs p rest)
    {problem : Problem} (role : p.role = .problem problem) :
    p = ⟨.problem (problemAt g.char), g, []⟩ := by
  cases h with
  | malformed hg => rw [Segment.malformed, problemAt, if_pos hg]
  | illegal bare => rw [Segment.illegal, problemAt, if_neg bare.classes.2.2]
  | _ => cases role

theorem Cuts.reported {known : String → Option Kind} (h : Cuts known g gs p rest) {d : Diagnostic}
    (hd : p.diagnostic? = some d) :
    p = ⟨.problem (problemAt g.char), g, []⟩ ∧ d = ⟨problemAt g.char, g.position⟩ := by
  obtain ⟨problem, role, rfl⟩ := Segment.diagnostic_eq hd
  obtain rfl := h.of_problem role
  cases role
  exact ⟨rfl, rfl⟩

/-- Where a problem is found, no lexeme begins. -/
theorem Cuts.problem (h : Cuts Kind.ofSpelling? g gs p rest) {problem : Problem}
    (role : p.role = .problem problem) :
    p = ⟨.problem (problemAt g.char), g, []⟩ ∧
      ∀ {lexeme : List Char} {kind : Kind}, lexeme <+: (g :: gs).map Glyph.char →
        ¬ Lexeme lexeme kind := by
  refine ⟨h.of_problem role, ?_⟩
  intro lexeme kind starts holds
  obtain ⟨c, cs, rfl⟩ := List.exists_cons_of_ne_nil holds.ne_nil
  obtain ⟨rfl, more⟩ := List.cons_prefix_cons.mp starts
  cases h with
  | malformed hg part =>
      rw [hg] at holds
      obtain ⟨ne, digits⟩ := holds.fraction_part
      obtain ⟨d, ds, rfl⟩ := List.exists_cons_of_ne_nil ne
      cases gs with
      | nil => simp at more
      | cons h gs =>
          obtain ⟨rfl, -⟩ := List.cons_prefix_cons.mp more
          have stop := part.2 h rfl
          cases (digits h.char List.mem_cons_self).symm.trans stop
  | illegal bare alone absent =>
      cases cs with
      | nil =>
          rw [String.singleton_eq_ofList] at absent
          cases absent.symm.trans (holds.bare bare.2)
      | cons d ds =>
          cases gs with
          | nil => simp at more
          | cons h gs =>
              obtain ⟨rfl, -⟩ := List.cons_prefix_cons.mp more
              exact alone.stuck bare (d := h) rfl holds
  | _ => cases role

def Skips (text : List Char) : Prop :=
  (∃ c ∈ text.head?, isBlank c = true) ∨ ['/', '/'] <+: text

theorem Cuts.role_of_skips {known : String → Option Kind} (h : Cuts known g gs p rest)
    (skips : Skips ((g :: gs).map Glyph.char)) : p.role = .blank ∨ p.role = .comment := by
  rcases skips with ⟨c, hc, blank⟩ | slashes
  · cases hc
    obtain ⟨rfl, -⟩ := Prod.ext_iff.mp (h.cut_eq.symm.trans (Cuts.blank blank).cut_eq)
    exact .inl rfl
  · obtain ⟨first, more⟩ := List.cons_prefix_cons.mp slashes
    cases gs with
    | nil => simp at more
    | cons second gs =>
        obtain ⟨second_eq, -⟩ := List.cons_prefix_cons.mp more
        have begins : Cuts known g (second :: (_ ++ _)) _ _ :=
          .comment first.symm second_eq.symm (stretch_span (onLine g.position.line) gs)
        have comment := begins.cut_eq
        rw [List.takeWhile_append_dropWhile] at comment
        obtain ⟨rfl, -⟩ := Prod.ext_iff.mp (h.cut_eq.symm.trans comment)
        exact .inr rfl

theorem Cuts.not_skips {known : String → Option Kind} (h : Cuts known g gs p rest)
    (blank : p.role ≠ .blank) (comment : p.role ≠ .comment) :
    ¬ Skips ((g :: gs).map Glyph.char) := by
  intro skips
  rcases h.role_of_skips skips with role | role
  · exact blank role
  · exact comment role

theorem Cuts.skips {known : String → Option Kind} (h : Cuts known g gs p rest)
    (role : p.role = .blank ∨ p.role = .comment) : Skips ((g :: gs).map Glyph.char) := by
  rcases role with blank | comment
  · exact .inl ⟨g.char, rfl, (h.of_blank blank).2⟩
  · obtain ⟨second, body, rfl, hg, hh, -⟩ := h.of_comment comment
    right
    rw [h.chars_append, Segment.chars, Segment.glyphs, List.map_cons, List.map_cons, hg, hh]
    exact ⟨_, rfl⟩

end

end Lexis
