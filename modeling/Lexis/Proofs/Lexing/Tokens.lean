import Lexis.Proofs.Fault
import Lexis.Proofs.SymbolTable.Kinds
import Lexis.Source.Basic
import Lexis.Token

/-! What the segments of a text come to: tokens, diagnostics, and a table with the spellings
found. -/

namespace Lexis

/-- A token without its symbol's identity: what was found, and where. -/
structure Sighting where
  spelling : String
  kind : Kind
  line : Nat
  left : Nat
  right : Nat
deriving DecidableEq, Repr

def Token.sighting (t : Token) : Sighting := ⟨t.spelling, t.kind, t.line, t.left, t.right⟩

/-- A token is a run of the characters, and stands where the first of them does. -/
def Token.StandsIn (t : Token) (gs : List Glyph) : Prop :=
  ∃ before first more after, gs = before ++ (first :: more) ++ after ∧
    t.spelling.toList = (first :: more).map Glyph.char ∧ t.line = first.position.line ∧
    t.left = first.position.column ∧ t.right = t.left + t.spelling.length - 1

theorem Token.StandsIn.of_suffix {t : Token} {gs hs : List Glyph} (h : t.StandsIn gs)
    (later : gs <:+ hs) : t.StandsIn hs := by
  obtain ⟨start, rfl⟩ := later
  obtain ⟨before, first, more, after, rfl, spelled⟩ := h
  exact ⟨start ++ before, first, more, after, by simp only [List.append_assoc], spelled⟩

/-- The diagnostic that a source leaves behind when it ends at a place. -/
def endDiagnostics (ending : Outcome) (place : Position) : List Diagnostic :=
  match ending with
  | .failure cause => [⟨.sourceUnreadable cause.message, place⟩]
  | .endOfInput | .char _ => []

namespace Segment

def place (p : Segment) : Position := p.first.position

def last (p : Segment) : Glyph := p.more.getLastD p.first

def kind? (p : Segment) : Option Kind :=
  match p.role with
  | .lexeme kind => some kind
  | .blank | .comment | .problem _ => none

def diagnostic? (p : Segment) : Option Diagnostic :=
  match p.role with
  | .problem problem => some ⟨problem, p.place⟩
  | .blank | .comment | .lexeme _ => none

def comment? (p : Segment) : Option Nat :=
  match p.role with
  | .comment => some p.place.line
  | .blank | .lexeme _ | .problem _ => none

def sighting? (p : Segment) : Option Sighting :=
  p.kind?.map fun kind =>
    ⟨p.spelling, kind, p.place.line, p.place.column, p.place.column + p.glyphs.length - 1⟩

def Fits (p : Segment) : Prop := p.place.column + p.glyphs.length < wordLimit

def token (p : Segment) (symbol : Symbol) : Except Fault Token :=
  (addWords p.place.column p.glyphs.length).map fun stop =>
    ⟨symbol, p.place.line, p.place.column, stop - 1⟩

def register (p : Segment) (table : SymbolTable) : SymbolTable :=
  match p.kind? with
  | some kind => (table.intern p.spelling kind).2
  | none => table

section

variable {p : Segment}

theorem length_pos (p : Segment) : 0 < p.chars.length := by
  simp [chars, glyphs]

theorem length_spelling (p : Segment) : p.spelling.length = p.glyphs.length := by
  rw [spelling, String.length_ofList, chars, List.length_map]

theorem last_mem (p : Segment) : p.last ∈ p.glyphs := List.getLastD_mem_cons

theorem getLast?_glyphs (p : Segment) : p.glyphs.getLast? = some p.last := by
  rw [last, glyphs, List.getLast?_cons, List.getLastD_eq_getLast?]

theorem kind?_eq_some {kind : Kind} (h : p.kind? = some kind) : p.role = .lexeme kind := by
  unfold kind? at h
  split at h
  next role =>
    cases h
    exact role
  all_goals cases h

theorem sighting?_of_other (h : p.kind? = none) : p.sighting? = none := by
  rw [sighting?, h, Option.map_none]

theorem sighting?_of_lexeme {kind : Kind} (role : p.role = .lexeme kind) :
    p.sighting? = some ⟨String.ofList p.chars, kind, p.place.line, p.place.column,
      p.place.column + p.chars.length - 1⟩ := by
  simp only [sighting?, kind?, role, Option.map_some, spelling, chars, List.length_map]

theorem sighting_eq {s : Sighting} (h : p.sighting? = some s) :
    ∃ kind, p.role = .lexeme kind ∧ s = ⟨String.ofList p.chars, kind, p.place.line,
      p.place.column, p.place.column + p.chars.length - 1⟩ := by
  cases hk : p.kind? with
  | none => cases (sighting?_of_other hk).symm.trans h
  | some kind =>
      have role := kind?_eq_some hk
      exact ⟨kind, role, Option.some.inj (h.symm.trans (sighting?_of_lexeme role))⟩

theorem diagnostic_eq {d : Diagnostic} (h : p.diagnostic? = some d) :
    ∃ problem, p.role = .problem problem ∧ d = ⟨problem, p.place⟩ := by
  unfold diagnostic? at h
  split at h
  next problem role =>
    cases h
    exact ⟨problem, role, rfl⟩
  all_goals cases h

theorem token_eq {symbol : Symbol} {token : Token} (h : p.token symbol = .ok token) :
    token = ⟨symbol, p.place.line, p.place.column, p.place.column + p.glyphs.length - 1⟩ := by
  obtain ⟨stop, hstop, rfl⟩ := ok_of_map h
  rw [addWords_eq hstop]

theorem standsIn {symbol : Symbol} (spelled : symbol.spelling = p.spelling) (rest : List Glyph) :
    Token.StandsIn ⟨symbol, p.place.line, p.place.column, p.place.column + p.glyphs.length - 1⟩
      (p.glyphs ++ rest) := by
  refine ⟨[], p.first, p.more, rest, rfl, ?_, rfl, rfl, ?_⟩
  · rw [Token.spelling, spelled, spelling, String.toList_ofList]
    rfl
  · rw [Token.spelling, spelled, length_spelling]

end

end Segment

section

variable {known : String → Option Kind} {gs : List Glyph} {ps : List Segment} {p : Segment}

theorem eq_of_concat (concat : segments known gs = ps ++ [p]) :
    gs = ps.flatMap Segment.glyphs ++ p.glyphs := by
  rw [← flatMap_glyphs_segments known gs, concat, List.flatMap_append, List.flatMap_singleton]

theorem getLast?_of_concat (concat : segments known gs = ps ++ [p]) :
    gs.getLast? = some p.last := by
  rw [eq_of_concat concat, List.getLast?_append, p.getLast?_glyphs]
  rfl

theorem filterMap_diagnostic?_concat (ps : List Segment) (p : Segment) :
    (ps ++ [p]).filterMap Segment.diagnostic? =
      ps.filterMap Segment.diagnostic? ++ p.diagnostic?.toList := by
  rw [List.filterMap_append]
  cases h : p.diagnostic? with
  | none => rw [List.filterMap_cons_none h]; rfl
  | some d => rw [List.filterMap_cons_some h]; rfl

end

/-- The tokens of the lexemes among segments, registered one after another. -/
def collect (table : SymbolTable) : List Segment → Except Fault (List Token × SymbolTable)
  | [] => .ok ([], table)
  | p :: ps =>
    match p.kind? with
    | none => collect table ps
    | some kind =>
      let interned := table.intern p.spelling kind
      match p.token interned.1 with
      | .error fault => .error fault
      | .ok token => (collect interned.2 ps).map fun found => (token :: found.1, found.2)

section

variable {p : Segment}

theorem collect_of_other (hp : p.kind? = none) (table : SymbolTable) (ps : List Segment) :
    collect table (p :: ps) = collect table ps := by
  rw [collect, hp]

theorem collect_of_lexeme {kind : Kind} (hp : p.kind? = some kind) (table : SymbolTable)
    (ps : List Segment) :
    collect table (p :: ps) = (p.token (table.intern p.spelling kind).1).bind fun token =>
      (collect (table.intern p.spelling kind).2 ps).map fun found => (token :: found.1, found.2) := by
  rw [collect, hp]
  simp only
  cases p.token (table.intern p.spelling kind).1 <;> rfl

end

theorem Cuts.sighting_of_token {known : String → Option Kind} {table : SymbolTable} {g : Glyph}
    {gs rest : List Glyph} {p : Segment} (h : Cuts known g gs p rest) {kind : Kind}
    (hp : p.kind? = some kind) (follows : table.Follows known) {token : Token}
    (held : p.token (table.intern p.spelling kind).1 = .ok token) :
    p.sighting? = some token.sighting := by
  obtain ⟨hkind, -⟩ := h.intern (Segment.kind?_eq_some hp) follows
  rw [Segment.token_eq held, Segment.sighting?, hp, Token.sighting, Token.spelling, Token.kind,
    SymbolTable.intern_spelling, hkind]
  rfl

/-- The tokens of a text are its lexemes, each with the kind that the registered spellings give
it. -/
theorem collect_sightings {known : String → Option Kind} {table : SymbolTable}
    (follows : table.Follows known) {gs : List Glyph} {found : List Token × SymbolTable}
    (h : collect table (segments known gs) = .ok found) :
    found.1.map Token.sighting = (segments known gs).filterMap Segment.sighting? := by
  induction gs using segments_induction known generalizing table found with
  | nil =>
      simp only [segments_nil, collect] at h
      cases h
      simp
  | @step g gs p rest cuts ih =>
      rw [cuts.segments_eq] at h ⊢
      cases hp : p.kind? with
      | none =>
          rw [collect_of_other hp] at h
          rw [List.filterMap_cons_none (by rw [Segment.sighting?, hp]; rfl), ih follows h]
      | some kind =>
          rw [collect_of_lexeme hp] at h
          obtain ⟨-, later⟩ := cuts.intern (Segment.kind?_eq_some hp) follows
          obtain ⟨token, held, continued⟩ := ok_of_bind h
          obtain ⟨following, more, rfl⟩ := ok_of_map continued
          have sighted := cuts.sighting_of_token hp follows held
          rw [List.filterMap_cons_some sighted, ← ih later more]
          rfl

theorem collect_returns {ps : List Segment} (fits : ∀ p ∈ ps, p.Fits) (table : SymbolTable) :
    ∃ found, collect table ps = .ok found := by
  induction ps generalizing table with
  | nil => exact ⟨_, rfl⟩
  | cons p ps ih =>
      obtain ⟨first, later⟩ := List.forall_mem_cons.mp fits
      cases hp : p.kind? with
      | none =>
          rw [collect_of_other hp]
          exact ih later table
      | some kind =>
          obtain ⟨found, hfound⟩ := ih later (table.intern p.spelling kind).2
          rw [collect_of_lexeme hp, hfound, Segment.token, addWords_of_lt first]
          exact ⟨_, rfl⟩

/-- The diagnostics of segments. Whatever ends the source is met with the last segment, before that
is reported itself. -/
def recorded (ending : Outcome) : List Segment → List Diagnostic
  | [] => []
  | p :: ps =>
    (if ps = [] then endDiagnostics ending p.last.position else []) ++ p.diagnostic?.toList ++
      recorded ending ps

end Lexis
