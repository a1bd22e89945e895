import Lexis.Diagnostic
import Lexis.Proofs.Lexing.Shape
import Mathlib.Data.List.TakeWhile

/-! A text as a sequence of segments: blanks, comments, lexemes, and characters that begin none of
these. The kinds of registered spellings are a parameter. -/

namespace Lexis

open CharClass

inductive Role where
  | blank
  | comment
  | lexeme (kind : Kind)
  | problem (problem : Problem)
deriving DecidableEq, Repr

/-- Characters that belong together. There is at least one. -/
structure Segment where
  role : Role
  first : Glyph
  more : List Glyph
deriving DecidableEq, Repr

namespace Segment

def glyphs (p : Segment) : List Glyph := p.first :: p.more

def chars (p : Segment) : List Char := p.glyphs.map Glyph.char

def spelling (p : Segment) : String := String.ofList p.chars

/-- A word or a number. It has the kind of its spelling if that is registered, and else the kind of
its shape. -/
def shaped (known : String → Option Kind) (kind : Kind) (first : Glyph) (more : List Glyph) :
    Segment :=
  ⟨.lexeme ((known (String.ofList ((first :: more).map Glyph.char))).getD kind), first, more⟩

def malformed (dot : Glyph) : Segment := ⟨.problem (.malformedLeadingDotLiteral "."), dot, []⟩

def illegal (g : Glyph) : Segment :=
  ⟨.problem (.illegalCharacter (String.singleton g.char)), g, []⟩

end Segment

def ofClass (p : Char → Bool) (g : Glyph) : Bool := p g.char

def onLine (line : Nat) (g : Glyph) : Bool := g.position.line == line

section

variable (known : String → Option Kind)

def cutWord (g : Glyph) (gs : List Glyph) : Segment × List Glyph :=
  (.shaped known .identifier g (gs.takeWhile (ofClass isIdentifierPart)),
    gs.dropWhile (ofClass isIdentifierPart))

def cutNumber (g : Glyph) (gs : List Glyph) : Segment × List Glyph :=
  let whole := gs.takeWhile (ofClass isDigit)
  match gs.dropWhile (ofClass isDigit) with
  | [] => (.shaped known .integerLiteral g whole, [])
  | dot :: rest =>
    if dot.char = '.' then
      (.shaped known .floatLiteral g (whole ++ dot :: rest.takeWhile (ofClass isDigit)),
        rest.dropWhile (ofClass isDigit))
    else (.shaped known .integerLiteral g whole, dot :: rest)

def cutFraction (dot : Glyph) (gs : List Glyph) : Segment × List Glyph :=
  let part := gs.takeWhile (ofClass isDigit)
  if part = [] then (.malformed dot, gs)
  else (.shaped known .floatLiteral dot part, gs.dropWhile (ofClass isDigit))

def cutSingle (g : Glyph) (gs : List Glyph) : Segment × List Glyph :=
  match known (String.singleton g.char) with
  | some kind => (⟨.lexeme kind, g, []⟩, gs)
  | none => (.illegal g, gs)

def cutOperator (g : Glyph) : List Glyph → Segment × List Glyph
  | [] => cutSingle known g []
  | h :: gs =>
    if g.char = '/' ∧ h.char = '/' then
      (⟨.comment, g, h :: gs.takeWhile (onLine g.position.line)⟩,
        gs.dropWhile (onLine g.position.line))
    else match known (String.ofList [g.char, h.char]) with
      | some kind => (⟨.lexeme kind, g, [h]⟩, gs)
      | none => cutSingle known g (h :: gs)

/-- The first segment of a text that begins with a character, and the rest of the text. -/
def cut (g : Glyph) (gs : List Glyph) : Segment × List Glyph :=
  if isBlank g.char then (⟨.blank, g, []⟩, gs)
  else if isIdentifierStart g.char then cutWord known g gs
  else if isDigit g.char then cutNumber known g gs
  else if g.char = '.' then cutFraction known g gs
  else cutOperator known g gs

end

/-- Characters with a property that the next character does not have. -/
def Stretch (q : Glyph → Bool) (run rest : List Glyph) : Prop :=
  (∀ g ∈ run, q g = true) ∧ ∀ g ∈ rest.head?, q g = false

/-- Neither a blank nor the start of a word or number. -/
def Bare (g : Glyph) : Prop := isBlank g.char = false ∧ opensShape g.char = false

/-- A character makes neither a comment nor a registered spelling with the next one. -/
def Alone (known : String → Option Kind) (g : Glyph) (rest : List Glyph) : Prop :=
  ∀ h ∈ rest.head?, ¬ (g.char = '/' ∧ h.char = '/') ∧
    known (String.ofList [g.char, h.char]) = none

/-- All that can come first in a text, with what has to hold of the characters. -/
inductive Cuts (known : String → Option Kind) : Glyph → List Glyph → Segment → List Glyph → Prop
  | blank {g rest} : isBlank g.char = true → Cuts known g rest ⟨.blank, g, []⟩ rest
  | word {g run rest} : isIdentifierStart g.char = true → Stretch (ofClass isIdentifierPart) run rest →
      Cuts known g (run ++ rest) (.shaped known .identifier g run) rest
  | integer {g run rest} : isDigit g.char = true → Stretch (ofClass isDigit) run rest →
      (∀ h ∈ rest.head?, h.char ≠ '.') →
      Cuts known g (run ++ rest) (.shaped known .integerLiteral g run) rest
  | decimal {g run dot part rest} : isDigit g.char = true → (∀ h ∈ run, isDigit h.char = true) →
      dot.char = '.' → Stretch (ofClass isDigit) part rest →
      Cuts known g (run ++ dot :: (part ++ rest))
        (.shaped known .floatLiteral g (run ++ dot :: part)) rest
  | fraction {g part rest} : g.char = '.' → part ≠ [] → Stretch (ofClass isDigit) part rest →
      Cuts known g (part ++ rest) (.shaped known .floatLiteral g part) rest
  | malformed {g rest} : g.char = '.' → Stretch (ofClass isDigit) [] rest →
      Cuts known g rest (.malformed g) rest
  | comment {g h body rest} : g.char = '/' → h.char = '/' →
      Stretch (onLine g.position.line) body rest →
      Cuts known g (h :: (body ++ rest)) ⟨.comment, g, h :: body⟩ rest
  | pair {g h rest kind} : Bare g → ¬ (g.char = '/' ∧ h.char = '/') →
      known (String.ofList [g.char, h.char]) = some kind →
      Cuts known g (h :: rest) ⟨.lexeme kind, g, [h]⟩ rest
  | single {g rest kind} : Bare g → Alone known g rest →
      known (String.singleton g.char) = some kind → Cuts known g rest ⟨.lexeme kind, g, []⟩ rest
  | illegal {g rest} : Bare g → Alone known g rest → known (String.singleton g.char) = none →
      Cuts known g rest (.illegal g) rest

theorem stretch_span (q : Glyph → Bool) (gs : List Glyph) :
    Stretch q (gs.takeWhile q) (gs.dropWhile q) := by
  refine ⟨fun g hg => List.mem_takeWhile_imp hg, ?_⟩
  intro g hg
  have head := List.head?_dropWhile_not q gs
  rw [Option.mem_def.mp hg] at head
  simpa using head

theorem Stretch.takeWhile_eq {q : Glyph → Bool} {run rest : List Glyph} (h : Stretch q run rest) :
    (run ++ rest).takeWhile q = run := by
  rw [List.takeWhile_append_of_pos h.1]
  cases rest with
  | nil => rw [List.takeWhile_nil, List.append_nil]
  | cons g rest => rw [List.takeWhile_cons_of_neg (by simp [h.2 g rfl]), List.append_nil]

theorem Stretch.dropWhile_eq {q : Glyph → Bool} {run rest : List Glyph} (h : Stretch q run rest) :
    (run ++ rest).dropWhile q = rest := by
  rw [List.dropWhile_append_of_pos h.1]
  cases rest with
  | nil => rfl
  | cons g rest => rw [List.dropWhile_cons_of_neg (by simp [h.2 g rfl])]

section

variable {known : String → Option Kind} {g : Glyph} {gs : List Glyph}

theorem cutWord_cuts (hg : isIdentifierStart g.char = true) :
    Cuts known g gs (cutWord known g gs).1 (cutWord known g gs).2 := by
  conv => arg 3; rw [← List.takeWhile_append_dropWhile (p := ofClass isIdentifierPart) (l := gs)]
  exact .word hg (stretch_span _ gs)

theorem cutNumber_cuts (hg : isDigit g.char = true) :
    Cuts known g gs (cutNumber known g gs).1 (cutNumber known g gs).2 := by
  have whole := stretch_span (ofClass isDigit) gs
  have split := List.takeWhile_append_dropWhile (p := ofClass isDigit) (l := gs)
  rw [cutNumber]
  cases hrest : gs.dropWhile (ofClass isDigit) with
  | nil =>
      rw [hrest] at whole split
      conv => arg 3; rw [← split]
      exact .integer hg whole (by simp)
  | cons dot rest =>
      rw [hrest] at whole split
      conv => arg 3; rw [← split]
      by_cases hdot : dot.char = '.'
      · simp only [if_pos hdot]
        conv =>
          arg 3
          rw [← List.takeWhile_append_dropWhile (p := ofClass isDigit) (l := rest)]
        exact .decimal hg whole.1 hdot (stretch_span _ rest)
      · simp only [if_neg hdot]
        refine .integer hg whole ?_
        intro h hh
        cases hh
        exact hdot

theorem cutFraction_cuts (hg : g.char = '.') :
    Cuts known g gs (cutFraction known g gs).1 (cutFraction known g gs).2 := by
  have part := stretch_span (ofClass isDigit) gs
  have split := List.takeWhile_append_dropWhile (p := ofClass isDigit) (l := gs)
  rw [cutFraction]
  by_cases hnil : gs.takeWhile (ofClass isDigit) = []
  · rw [hnil] at part split
    simp only [hnil, if_true]
    refine .malformed hg ?_
    rw [← split]
    exact part
  · simp only [hnil, if_false]
    conv => arg 3; rw [← split]
    exact .fraction hg hnil part

theorem cutSingle_cuts (hg : Bare g) (alone : Alone known g gs) :
    Cuts known g gs (cutSingle known g gs).1 (cutSingle known g gs).2 := by
  rw [cutSingle]
  cases h : known (String.singleton g.char) with
  | none => exact .illegal hg alone h
  | some kind => exact .single hg alone h

theorem cutOperator_cuts (hg : Bare g) :
    Cuts known g gs (cutOperator known g gs).1 (cutOperator known g gs).2 := by
  cases gs with
  | nil => exact cutSingle_cuts hg (by simp [Alone])
  | cons h gs =>
      rw [cutOperator]
      by_cases slashes : g.char = '/' ∧ h.char = '/'
      · rw [if_pos slashes]
        conv =>
          arg 3
          rw [← List.takeWhile_append_dropWhile (p := onLine g.position.line) (l := gs)]
        exact .comment slashes.1 slashes.2 (stretch_span _ gs)
      · rw [if_neg slashes]
        cases hk : known (String.ofList [g.char, h.char]) with
        | some kind => exact .pair hg slashes hk
        | none =>
            apply cutSingle_cuts hg
            intro h' hh'
            cases hh'
            exact ⟨slashes, hk⟩

theorem cut_cuts (known : String → Option Kind) (g : Glyph) (gs : List Glyph) :
    Cuts known g gs (cut known g gs).1 (cut known g gs).2 := by
  rw [cut]
  by_cases blank : isBlank g.char = true
  · rw [if_pos blank]
    exact .blank blank
  rw [if_neg blank]
  by_cases start : isIdentifierStart g.char = true
  · rw [if_pos start]
    exact cutWord_cuts start
  rw [if_neg start]
  by_cases digit : isDigit g.char = true
  · rw [if_pos digit]
    exact cutNumber_cuts digit
  rw [if_neg digit]
  by_cases dot : g.char = '.'
  · rw [if_pos dot]
    exact cutFraction_cuts dot
  rw [if_neg dot]
  refine cutOperator_cuts ⟨?_, ?_⟩
  · simpa using blank
  · simp [opensShape, start, digit, dot]

theorem Bare.not_blank (h : Bare g) : ¬ isBlank g.char = true := by simp [h.1]

theorem Bare.classes (h : Bare g) : ¬ isIdentifierStart g.char = true ∧
    ¬ isDigit g.char = true ∧ g.char ≠ '.' := by
  have := h.2
  simp only [opensShape, Bool.or_eq_false_iff, beq_eq_false_iff_ne] at this
  simp [this]

theorem not_blank_of_opensShape {c : Char} (h : opensShape c = true) : ¬ isBlank c = true := by
  intro blank
  rw [opensShape_of_isBlank blank] at h
  cases h

theorem cut_of_bare (h : Bare g) : cut known g gs = cutOperator known g gs := by
  obtain ⟨start, digit, dot⟩ := h.classes
  rw [cut, if_neg h.not_blank, if_neg start, if_neg digit, if_neg dot]

theorem cutOperator_of_alone (alone : Alone known g gs) :
    cutOperator known g gs = cutSingle known g gs := by
  cases gs with
  | nil => rfl
  | cons h gs =>
      obtain ⟨slashes, hk⟩ := alone h rfl
      rw [cutOperator, if_neg slashes, hk]

/-- What can come first in a text is what comes first. -/
theorem Cuts.cut_eq {p : Segment} {rest : List Glyph} (h : Cuts known g gs p rest) :
    cut known g gs = (p, rest) := by
  cases h with
  | blank hg => rw [cut, if_pos hg]
  | word hg run =>
      have opens : opensShape g.char = true := by simp [opensShape, hg]
      rw [cut, if_neg (not_blank_of_opensShape opens), if_pos hg, cutWord, run.takeWhile_eq,
        run.dropWhile_eq]
  | integer hg run hdot =>
      have opens : opensShape g.char = true := by simp [opensShape, hg]
      rw [cut, if_neg (not_blank_of_opensShape opens),
        if_neg (by simp [isIdentifierStart_of_isDigit hg]), if_pos hg, cutNumber,
        run.takeWhile_eq, run.dropWhile_eq]
      cases rest with
      | nil => rfl
      | cons h rest => simp only [if_neg (hdot h rfl)]
  | @decimal run dot part _ hg hrun hdot hpart =>
      have opens : opensShape g.char = true := by simp [opensShape, hg]
      have whole : Stretch (ofClass isDigit) run (dot :: (part ++ rest)) := by
        refine ⟨hrun, ?_⟩
        intro d hd
        cases hd
        rw [ofClass, hdot]
        decide
      rw [cut, if_neg (not_blank_of_opensShape opens),
        if_neg (by simp [isIdentifierStart_of_isDigit hg]), if_pos hg, cutNumber,
        whole.takeWhile_eq, whole.dropWhile_eq]
      simp only [if_pos hdot, hpart.takeWhile_eq, hpart.dropWhile_eq]
  | fraction hg hne part =>
      rw [cut, hg, if_neg (by decide), if_neg (by decide), if_neg (by decide), if_pos rfl,
        cutFraction, part.takeWhile_eq, part.dropWhile_eq]
      simp only [hne, if_false]
  | malformed hg part =>
      have none := part.takeWhile_eq
      rw [List.nil_append] at none
      rw [cut, hg, if_neg (by decide), if_neg (by decide), if_neg (by decide), if_pos rfl,
        cutFraction, none]
      simp only [if_true]
  | comment hg hh body =>
      have bare : Bare g := by rw [Bare, hg]; decide
      rw [cut_of_bare bare, cutOperator, if_pos ⟨hg, hh⟩, body.takeWhile_eq, body.dropWhile_eq]
  | pair bare slashes hk => rw [cut_of_bare bare, cutOperator, if_neg slashes, hk]
  | single bare alone hk => rw [cut_of_bare bare, cutOperator_of_alone alone, cutSingle, hk]
  | illegal bare alone hk => rw [cut_of_bare bare, cutOperator_of_alone alone, cutSingle, hk]

theorem Cuts.of_blank {p : Segment} {rest : List Glyph} (h : Cuts known g gs p rest)
    (role : p.role = .blank) : p = ⟨.blank, g, []⟩ ∧ isBlank g.char = true := by
  cases h with
  | blank hg => exact ⟨rfl, hg⟩
  | _ => cases role

theorem Cuts.of_comment {p : Segment} {rest : List Glyph} (h : Cuts known g gs p rest)
    (role : p.role = .comment) : ∃ second body, p = ⟨.comment, g, second :: body⟩ ∧
      g.char = '/' ∧ second.char = '/' ∧ Stretch (onLine g.position.line) body rest := by
  cases h with
  | comment hg hh body => exact ⟨_, _, rfl, hg, hh, body⟩
  | _ => cases role

/-- Nothing is lost and nothing is moved. -/
theorem Cuts.glyphs_append {p : Segment} {rest : List Glyph} (h : Cuts known g gs p rest) :
    p.glyphs ++ rest = g :: gs := by
  cases h with
  | decimal => simp [Segment.glyphs, Segment.shaped]
  | _ => simp [Segment.glyphs, Segment.shaped, Segment.malformed, Segment.illegal]

theorem length_cut (known : String → Option Kind) (g : Glyph) (gs : List Glyph) :
    (cut known g gs).2.length < (g :: gs).length := by
  rw [← (cut_cuts known g gs).glyphs_append, List.length_append, Segment.glyphs, List.length_cons]
  omega

def segments (known : String → Option Kind) : List Glyph → List Segment
  | [] => []
  | g :: gs => (cut known g gs).1 :: segments known (cut known g gs).2
termination_by gs => gs.length
decreasing_by exact length_cut known g gs

@[simp] theorem segments_nil : segments known [] = [] := by rw [segments]

theorem segments_cons (known : String → Option Kind) (g : Glyph) (gs : List Glyph) :
    segments known (g :: gs) = (cut known g gs).1 :: segments known (cut known g gs).2 := by
  rw [segments]

theorem segments_eq_nil : segments known gs = [] ↔ gs = [] := by
  cases gs with
  | nil => simp
  | cons g gs => simp [segments_cons]

theorem Cuts.segments_eq {p : Segment} {rest : List Glyph} (h : Cuts known g gs p rest) :
    segments known (g :: gs) = p :: segments known rest := by
  rw [segments_cons, h.cut_eq]

/-- Facts about the segments of a text follow the segments from its start to its end. -/
theorem segments_induction (known : String → Option Kind) {motive : List Glyph → Prop}
    (nil : motive [])
    (step : ∀ {g gs p rest}, Cuts known g gs p rest → motive rest → motive (g :: gs))
    (gs : List Glyph) : motive gs := by
  induction gs using segments.induct known with
  | case1 => exact nil
  | case2 g gs ih => exact step (cut_cuts known g gs) ih

theorem flatMap_glyphs_segments (known : String → Option Kind) (gs : List Glyph) :
    (segments known gs).flatMap Segment.glyphs = gs := by
  induction gs using segments_induction known with
  | nil => rw [segments_nil, List.flatMap_nil]
  | step h ih => rw [h.segments_eq, List.flatMap_cons, ih, h.glyphs_append]

end

end Lexis
