import Lexis.Proofs.Lexing.Boundary
import Lexis.Proofs.Lexing.Extent
import Lexis.Proofs.Report.Rows
import Lexis.Proofs.SymbolTable.Scanned
import Lexis.Proofs.TokenStream.Conversation

/-! Tokens are described with their spellings, also where the description is taken from their
kinds. -/

namespace Lexis

open CharClass

namespace Token

theorem describeByKind_of_lexeme {token : Token}
    (h : Lexeme token.spelling.toList token.kind) : token.describeByKind = token.describe := by
  rw [describeByKind, describe]
  congr 1
  cases h with
  | fixed known =>
      rw [String.ofList_toList] at known
      obtain ⟨fixed, spelled⟩ := Kind.spelling?_of_ofSpelling? known
      rw [fixed, spelled, if_neg Bool.false_ne_true, Option.getD_some]
  | shaped _ shape => rw [shape.isVariable, if_pos rfl]

theorem spelling?_of_lexeme {token : Token} (h : Lexeme token.spelling.toList token.kind)
    (single : token.kind.isVariable = false) : token.kind.spelling? = some token.spelling := by
  cases h with
  | fixed known =>
      rw [String.ofList_toList] at known
      exact (Kind.spelling?_of_ofSpelling? known).2
  | shaped _ shape => cases single.symm.trans shape.isVariable

theorem notMem_describe {token : Token} (h : Lexeme token.spelling.toList token.kind) {c : Char}
    (blank : isBlank c = true) (ne : c ≠ ' ') : c ∉ token.describe.toList := by
  have digit : c.isDigit = false :=
    isDigit_of_not_isIdentifierPart (isIdentifierPart_of_isBlank blank)
  have labels : ∀ text ∈ ["  left: ", " right: ", " line: "], c ∉ text.toList := by
    have spaces : ∀ text ∈ ["  left: ", " right: ", " line: "],
        (text.toList.all fun d => !isBlank d || d == ' ') = true := by decide
    intro text mem inside
    have space := List.all_eq_true.mp (spaces text mem) c inside
    rw [blank, Bool.not_true, Bool.false_or] at space
    exact ne (eq_of_beq space)
  have spelled : c ∉ token.spelling.toList := by
    intro inside
    cases (h.not_blank_of_mem inside).symm.trans blank
  simp only [List.forall_mem_cons] at labels
  simp only [describe, describeAs, String.toList_append, List.mem_append, not_or]
  exact ⟨⟨⟨⟨⟨⟨spelled, labels.1⟩, Text.notMem_toString digit _⟩, labels.2.1⟩,
    Text.notMem_toString digit _⟩, labels.2.2.1⟩, Text.notMem_toString digit _⟩

end Token

namespace TokenStream

variable {σ : Type} [CharSource σ] {s s' : TokenStream σ}

/-- What is drawn is a lexeme with its kind, as long as the fixed spellings have theirs. -/
theorem Draws.lexeme {tokens : List Token} (h : s.Draws tokens s')
    (follows : s.symbols.Follows Kind.ofSpelling?) :
    ∀ token ∈ tokens, Lexeme token.spelling.toList token.kind := by
  intro token mem
  have later := h.follows follows
  have kind : s'.symbols.kind? token.spelling = some token.kind := by
    rw [SymbolTable.kind?, h.resolved token mem]
    rfl
  obtain ⟨-, first, more, -, -, spelled, -⟩ := h.placed token mem
  cases opens : opensShape first.char with
  | true =>
      have given : token.registration? =
          some (token.spelling, Shape.kindOf token.spelling.toList) := by
        rw [Token.registration?, if_pos]
        rw [spelled]
        exact opens
      have shape := h.shaped token mem _ given
      have same := later.shaped shape
      rw [String.ofList_toList, kind, Option.getD_some] at same
      cases known : Kind.ofSpelling? token.spelling with
      | none =>
          rw [known, Option.getD_none] at same
          rw [same]
          exact .shaped (by rwa [String.ofList_toList]) shape
      | some fixed =>
          rw [known, Option.getD_some] at same
          rw [same]
          exact .fixed (by rwa [String.ofList_toList])
  | false =>
      have same : s'.symbols.kind? (String.ofList (first.char :: more.map Glyph.char)) =
          Kind.ofSpelling? (String.ofList (first.char :: more.map Glyph.char)) := later.bare opens
      rw [← List.map_cons, ← spelled, String.ofList_toList, kind] at same
      exact .fixed (by rw [String.ofList_toList, ← same])

/-- Whatever is scanned with a table that only scanning changed, the description of a token by its
kind is the one by its spelling, and stays on one line. -/
theorem converse_labels {requests : List Request} {turns : List (Reply × TokenStream σ)}
    (scanned : s.symbols.Scanned) (h : s.converse requests = .ok turns) :
    ∀ token ∈ handed turns, token.describeByKind = token.describe ∧
      (token.kind.isVariable = false → token.kind.spelling? = some token.spelling) ∧
      '\n' ∉ token.describe.toList ∧ '\r' ∉ token.describe.toList := by
  intro token mem
  have drawn := draws_converse h turns.length
  rw [List.take_length] at drawn
  have lexeme := drawn.lexeme scanned.follows token mem
  exact ⟨token.describeByKind_of_lexeme lexeme, token.spelling?_of_lexeme lexeme,
    token.notMem_describe lexeme (by decide) (by decide),
    token.notMem_describe lexeme (by decide) (by decide)⟩

/-- A reserved word, a name, an operator and a number. -/
theorem converse_labels_word :
    SymbolTable.standard.Scanned ∧
      ∃ turns, (ofSource (LineReader.ofString "if a\r\n<=.5") .standard).converse [.next, .rest] =
          .ok turns ∧
        (handed turns).map Token.describeByKind =
          ["if  left: 0 right: 1 line: 1", "a  left: 3 right: 3 line: 1",
            "<=  left: 0 right: 1 line: 2", ".5  left: 2 right: 3 line: 2"] := by
  refine ⟨.standard, ?_⟩
  have told : ((ofSource (LineReader.ofString "if a\r\n<=.5") .standard).converse
      [.next, .rest]).map (fun turns => (handed turns).map Token.describe) =
      .ok ["if  left: 0 right: 1 line: 1", "a  left: 3 right: 3 line: 1",
        "<=  left: 0 right: 1 line: 2", ".5  left: 2 right: 3 line: 2"] := by decide +kernel
  obtain ⟨turns, conversed, described⟩ := ok_of_map told
  have scanned : (ofSource (LineReader.ofString "if a\r\n<=.5") .standard).symbols.Scanned := by
    rw [symbols_ofSource]
    exact .standard
  refine ⟨turns, conversed, ?_⟩
  rw [← described]
  apply List.map_congr_left
  intro token mem
  exact (converse_labels scanned conversed token mem).1

end TokenStream
end Lexis
