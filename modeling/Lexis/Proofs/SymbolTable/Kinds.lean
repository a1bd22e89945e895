import Lexis.Proofs.Lexing.Segment
import Lexis.Symbol

/-! The kinds that a table gives to spellings, and how far they depend on what was registered. -/

namespace Lexis

open CharClass

namespace SymbolTable

def kind? (table : SymbolTable) (spelling : String) : Option Kind :=
  (table.resolve? spelling).map Symbol.kind

theorem intern_of_resolve {table : SymbolTable} {spelling : String} {symbol : Symbol}
    (h : table.resolve? spelling = some symbol) (kind : Kind) :
    table.intern spelling kind = (symbol, table) := by
  rw [intern, h]

theorem spelling_of_resolve {table : SymbolTable} {spelling : String} {symbol : Symbol}
    (h : table.resolve? spelling = some symbol) : symbol.spelling = spelling := by
  have := List.find?_some h
  simpa using this

@[simp] theorem intern_spelling (table : SymbolTable) (spelling : String) (kind : Kind) :
    (table.intern spelling kind).1.spelling = spelling := by
  cases h : table.resolve? spelling with
  | none => rw [intern, h]
  | some symbol =>
      rw [intern_of_resolve h]
      exact spelling_of_resolve h

@[simp] theorem intern_kind (table : SymbolTable) (spelling : String) (kind : Kind) :
    (table.intern spelling kind).1.kind = (table.kind? spelling).getD kind := by
  cases h : table.resolve? spelling with
  | none => rw [intern, kind?, h]; rfl
  | some symbol => rw [intern_of_resolve h, kind?, h]; rfl

theorem intern_congr {table : SymbolTable} {spelling : String} {kind kind' : Kind}
    (h : (table.kind? spelling).getD kind = (table.kind? spelling).getD kind') :
    table.intern spelling kind = table.intern spelling kind' := by
  cases hr : table.resolve? spelling with
  | some symbol => rw [intern_of_resolve hr, intern_of_resolve hr]
  | none =>
      rw [kind?, hr] at h
      rw [show kind = kind' from h]

theorem resolve?_intern_self (table : SymbolTable) (spelling : String) (kind : Kind) :
    (table.intern spelling kind).2.resolve? spelling = some (table.intern spelling kind).1 := by
  cases h : table.resolve? spelling with
  | some symbol => rw [intern_of_resolve h, h]
  | none =>
      rw [intern, h, resolve?]
      exact List.find?_cons_of_pos (by simp)

theorem resolve?_intern_of_ne {spelling other : String} (h : other ≠ spelling)
    (table : SymbolTable) (kind : Kind) :
    (table.intern spelling kind).2.resolve? other = table.resolve? other := by
  cases hr : table.resolve? spelling with
  | some symbol => rw [intern_of_resolve hr]
  | none =>
      rw [intern, hr, resolve?]
      exact List.find?_cons_of_neg (by simpa using h.symm)

theorem kind?_intern (table : SymbolTable) (spelling other : String) (kind : Kind) :
    (table.intern spelling kind).2.kind? other =
      if other = spelling then some ((table.kind? spelling).getD kind) else table.kind? other := by
  by_cases h : other = spelling
  · subst h
    rw [if_pos rfl, kind?, resolve?_intern_self, Option.map_some, intern_kind]
  · rw [if_neg h, kind?, resolve?_intern_of_ne h]
    rfl

/-- A table gives the kinds that `known` says, except that it may have more words and numbers, with
the kinds of their shapes. -/
structure Follows (known : String → Option Kind) (table : SymbolTable) : Prop where
  bare : ∀ {c : Char} {cs : List Char}, opensShape c = false →
    table.kind? (String.ofList (c :: cs)) = known (String.ofList (c :: cs))
  shaped : ∀ {cs : List Char} {kind : Kind}, Shape cs kind →
    (table.kind? (String.ofList cs)).getD kind = (known (String.ofList cs)).getD kind

namespace Follows

variable {known : String → Option Kind} {table : SymbolTable}

theorem refl (table : SymbolTable) : Follows table.kind? table := ⟨fun _ => rfl, fun _ => rfl⟩

theorem intern (h : Follows known table) {cs : List Char} {kind : Kind} (hcs : Shape cs kind) :
    Follows known
      (table.intern (String.ofList cs) ((known (String.ofList cs)).getD kind)).2 := by
  obtain ⟨c, rest, rfl, opens⟩ := hcs.opens
  constructor
  · intro d ds hd
    have different : String.ofList (d :: ds) ≠ String.ofList (c :: rest) := by
      intro same
      cases String.ofList_injective same
      rw [opens] at hd
      cases hd
    rw [kind?_intern, if_neg different]
    exact h.bare hd
  · intro ds kind' hds
    rw [kind?_intern]
    split
    next same =>
      cases String.ofList_injective same
      obtain rfl := hds.unique hcs
      rw [Option.getD_some, ← h.shaped hcs]
      cases table.kind? (String.ofList (c :: rest)) <;> rfl
    next => exact h.shaped hds

/-- A word or number may as well be registered with the kind it is known by. -/
theorem intern_shaped (h : Follows known table) {cs : List Char} {shape : Kind}
    (hcs : Shape cs shape) :
    table.intern (String.ofList cs) shape =
      table.intern (String.ofList cs) ((known (String.ofList cs)).getD shape) := by
  apply intern_congr
  rw [← h.shaped hcs]
  cases table.kind? (String.ofList cs) <;> rfl

theorem resolve?_bare (h : Follows known table) {c : Char} {cs : List Char} {kind : Kind}
    (hc : opensShape c = false) (hk : known (String.ofList (c :: cs)) = some kind) :
    ∃ symbol, table.resolve? (String.ofList (c :: cs)) = some symbol ∧ symbol.kind = kind :=
  Option.map_eq_some_iff.mp ((h.bare hc).trans hk)

theorem resolve?_bare_none (h : Follows known table) {c : Char} {cs : List Char}
    (hc : opensShape c = false) (hk : known (String.ofList (c :: cs)) = none) :
    table.resolve? (String.ofList (c :: cs)) = none :=
  Option.map_eq_none_iff.mp ((h.bare hc).trans hk)

end Follows

end SymbolTable

section

variable {known : String → Option Kind} {g : Glyph}

theorem shape_word {run : List Glyph} (hg : isIdentifierStart g.char = true)
    (hrun : ∀ h ∈ run, isIdentifierPart h.char = true) :
    Shape ((g :: run).map Glyph.char) .identifier :=
  .word hg (List.forall_mem_map.mpr hrun)

theorem shape_integer {run : List Glyph} (hg : isDigit g.char = true)
    (hrun : ∀ h ∈ run, isDigit h.char = true) :
    Shape ((g :: run).map Glyph.char) .integerLiteral :=
  .integer (by simp) (List.forall_mem_map.mpr (List.forall_mem_cons.mpr ⟨hg, hrun⟩))

theorem shape_decimal {run part : List Glyph} {dot : Glyph} (hg : isDigit g.char = true)
    (hrun : ∀ h ∈ run, isDigit h.char = true) (hdot : dot.char = '.')
    (hpart : ∀ h ∈ part, isDigit h.char = true) :
    Shape ((g :: (run ++ dot :: part)).map Glyph.char) .floatLiteral := by
  rw [← List.cons_append, List.map_append, List.map_cons (l := part), hdot]
  refine .decimal (by simp) ?_ (List.forall_mem_map.mpr hpart)
  exact List.forall_mem_map.mpr (List.forall_mem_cons.mpr ⟨hg, hrun⟩)

theorem shape_fraction {part : List Glyph} (hg : g.char = '.') (hne : part ≠ [])
    (hpart : ∀ h ∈ part, isDigit h.char = true) :
    Shape ((g :: part).map Glyph.char) .floatLiteral := by
  rw [List.map_cons, hg]
  exact .fraction (by simpa using hne) (List.forall_mem_map.mpr hpart)

theorem Cuts.lexeme {gs rest : List Glyph} {p : Segment} (h : Cuts known g gs p rest) {kind : Kind}
    (role : p.role = .lexeme kind) :
    (∃ shape, Shape p.chars shape ∧ kind = (known p.spelling).getD shape) ∨
      opensShape p.first.char = false ∧ known p.spelling = some kind := by
  cases h with
  | blank => cases role
  | word hg run =>
      cases role
      exact .inl ⟨_, shape_word hg run.1, rfl⟩
  | integer hg run =>
      cases role
      exact .inl ⟨_, shape_integer hg run.1, rfl⟩
  | decimal hg hrun hdot part =>
      cases role
      exact .inl ⟨_, shape_decimal hg hrun hdot part.1, rfl⟩
  | fraction hg hne part =>
      cases role
      exact .inl ⟨_, shape_fraction hg hne part.1, rfl⟩
  | malformed => cases role
  | comment => cases role
  | pair bare _ hk =>
      cases role
      exact .inr ⟨bare.2, hk⟩
  | single bare _ hk =>
      cases role
      rw [String.singleton_eq_ofList] at hk
      exact .inr ⟨bare.2, hk⟩
  | illegal => cases role

/-- Registering a lexeme gives it its kind, and the table goes on following the known kinds. -/
theorem Cuts.intern {gs rest : List Glyph} {p : Segment} (h : Cuts known g gs p rest) {kind : Kind}
    (role : p.role = .lexeme kind) {table : SymbolTable} (follows : table.Follows known) :
    (table.intern p.spelling kind).1.kind = kind ∧
      (table.intern p.spelling kind).2.Follows known := by
  rcases h.lexeme role with ⟨shape, hshape, rfl⟩ | ⟨bare, hk⟩
  · refine ⟨?_, follows.intern hshape⟩
    have same : (table.kind? p.spelling).getD shape = (known p.spelling).getD shape :=
      follows.shaped hshape
    rw [SymbolTable.intern_kind, ← same]
    cases table.kind? p.spelling <;> rfl
  · rw [Segment.spelling, Segment.chars, Segment.glyphs, List.map_cons] at hk ⊢
    obtain ⟨symbol, hsymbol, rfl⟩ := follows.resolve?_bare bare hk
    rw [SymbolTable.intern_of_resolve hsymbol]
    exact ⟨rfl, follows⟩

end

end Lexis
