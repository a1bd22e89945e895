import Lexis.Proofs.Lexing.Extent
import Lexis.Proofs.Lexing.LongestMatch

/-! Lexemes that are printed with blanks between them are found again, and nothing else is. -/

namespace Lexis

open CharClass

structure Spaced where
  spelling : String
  kind : Kind
  gap : String

namespace Spaced

def lexeme (p : Spaced) : String × Kind := (p.spelling, p.kind)

def chars (p : Spaced) : List Char := p.spelling.toList ++ p.gap.toList

def print (pieces : List Spaced) : String := String.ofList (pieces.flatMap chars)

/-- Lexemes with blanks between them. Only after the last one there may be none. -/
structure Printable (pieces : List Spaced) : Prop where
  lexemes : ∀ p ∈ pieces, Lexeme p.spelling.toList p.kind
  blanks : ∀ p ∈ pieces, ∀ c ∈ p.gap.toList, isBlank c = true
  apart : ∀ p ∈ pieces.dropLast, p.gap ≠ ""

end Spaced

def Token.lexeme (t : Token) : String × Kind := (t.spelling, t.kind)

def Sighting.lexeme (s : Sighting) : String × Kind := (s.spelling, s.kind)

/-! A text that goes on with a blank after a lexeme. -/

section

variable {lexeme rest gap : List Char} {kind : Kind}

theorem longest_of_blank (h : Lexeme lexeme kind) (blank : ∀ c ∈ rest.head?, isBlank c = true) :
    Longest (lexeme ++ rest) lexeme kind := by
  apply Longest.of_stuck h
  intro d ds kind' hd longer
  cases (longer.not_blank_of_mem (c := d) (by simp)).symm.trans (blank d hd)

theorem not_skips_of_blank (h : Lexeme lexeme kind) (blank : ∀ c ∈ rest.head?, isBlank c = true) :
    ¬ Skips (lexeme ++ rest) := by
  obtain ⟨c, cs, rfl⟩ := List.exists_cons_of_ne_nil h.ne_nil
  rintro (⟨d, hd, first⟩ | slashes)
  · cases hd
    cases h.not_blank.symm.trans first
  · obtain ⟨rfl, second⟩ := List.cons_prefix_cons.mp slashes
    cases cs with
    | nil =>
        obtain ⟨more, rfl⟩ := second
        cases blank '/' rfl
    | cons d cs =>
        obtain ⟨rfl, -⟩ := List.cons_prefix_cons.mp second
        exact h.ne_slash List.mem_cons_self

theorem reads_blanks {p : Position} {ts : List Sighting} {ds : List Diagnostic}
    (blanks : ∀ c ∈ gap, isBlank c = true) (h : Reads (p.past gap) rest ts ds) :
    Reads p (gap ++ rest) ts ds := by
  induction gap generalizing p with
  | nil => exact h
  | cons c gap ih =>
      obtain ⟨blank, later⟩ := List.forall_mem_cons.mp blanks
      exact .blank blank (ih later h)

end

namespace Spaced

variable {piece : Spaced} {pieces : List Spaced}

theorem Printable.tail (h : Printable (piece :: pieces)) : Printable pieces := by
  refine ⟨fun p hp => h.lexemes p (List.mem_cons_of_mem _ hp),
    fun p hp => h.blanks p (List.mem_cons_of_mem _ hp), ?_⟩
  intro p hp
  apply h.apart
  cases pieces with
  | nil => cases hp
  | cons next pieces => exact List.mem_cons_of_mem _ hp

theorem Printable.blank_ahead (h : Printable (piece :: pieces)) :
    ∀ c ∈ (piece.gap.toList ++ pieces.flatMap chars).head?, isBlank c = true := by
  intro c hc
  cases gap : piece.gap.toList with
  | cons d gap' =>
      rw [gap] at hc
      cases hc
      apply h.blanks piece List.mem_cons_self
      rw [gap]
      exact List.mem_cons_self
  | nil =>
      cases pieces with
      | nil =>
          rw [gap] at hc
          cases hc
      | cons next pieces =>
          have empty : piece.gap = "" := String.toList_inj.mp gap
          exact absurd empty (h.apart piece List.mem_cons_self)

theorem Printable.cons (lexeme : Lexeme piece.spelling.toList piece.kind)
    (blanks : ∀ c ∈ piece.gap.toList, isBlank c = true) (apart : piece.gap ≠ "")
    (h : Printable pieces) : Printable (piece :: pieces) := by
  refine ⟨List.forall_mem_cons.mpr ⟨lexeme, h.lexemes⟩,
    List.forall_mem_cons.mpr ⟨blanks, h.blanks⟩, ?_⟩
  intro p hp
  cases pieces with
  | nil => cases hp
  | cons next pieces =>
      rcases List.mem_cons.mp hp with rfl | later
      · exact apart
      · exact h.apart p later

/-- Printed lexemes are read as they are. -/
theorem Printable.reads (h : Printable pieces) (p : Position) :
    ∃ ts, Reads p (pieces.flatMap chars) ts [] ∧ ts.map Sighting.lexeme = pieces.map lexeme := by
  induction pieces generalizing p with
  | nil => exact ⟨[], .done, rfl⟩
  | cons piece pieces ih =>
      have holds := h.lexemes piece List.mem_cons_self
      -- The rest is read from behind the lexeme and its gap.
      obtain ⟨ts, later, spelled⟩ := ih h.tail ((p.past piece.spelling.toList).past piece.gap.toList)
      have gap := reads_blanks (h.blanks piece List.mem_cons_self) later
      have whole := Reads.lexeme (not_skips_of_blank holds h.blank_ahead)
        (longest_of_blank holds h.blank_ahead) gap
      rw [← List.append_assoc] at whole
      refine ⟨_, whole, ?_⟩
      rw [List.map_cons, List.map_cons, spelled, Sighting.lexeme, lexeme, String.ofList_toList]

def ofTokens : List Token → List Spaced
  | [] => []
  | [t] => [⟨t.spelling, t.kind, ""⟩]
  | t :: u :: ts => ⟨t.spelling, t.kind, " "⟩ :: ofTokens (u :: ts)

theorem lexeme_ofTokens (ts : List Token) :
    (ofTokens ts).map lexeme = ts.map Token.lexeme := by
  fun_induction ofTokens ts with
  | case1 => rfl
  | case2 t => rfl
  | case3 t u ts ih =>
      rw [List.map_cons, ih]
      rfl

theorem print_ofTokens (ts : List Token) :
    print (ofTokens ts) = " ".intercalate (ts.map Token.spelling) := by
  rw [← String.toList_inj, print, String.toList_ofList, String.toList_intercalate]
  fun_induction ofTokens ts with
  | case1 => rfl
  | case2 t => simp [chars]
  | case3 t u ts ih =>
      rw [List.flatMap_cons, ih]
      simp [chars, List.intercalate_cons_cons]

theorem printable_ofTokens {ts : List Token}
    (h : ∀ t ∈ ts, Lexeme t.spelling.toList t.kind) : Printable (ofTokens ts) := by
  fun_induction ofTokens ts with
  | case1 => exact ⟨nofun, nofun, nofun⟩
  | case2 t =>
      refine ⟨?_, ?_, nofun⟩
      · rw [List.forall_mem_singleton]
        exact h t List.mem_cons_self
      · rw [List.forall_mem_singleton]
        exact nofun
  | case3 t u ts ih =>
      obtain ⟨first, later⟩ := List.forall_mem_cons.mp h
      have blank : ∀ c ∈ " ".toList, isBlank c = true := List.all_eq_true.mp (by decide)
      have some : " " ≠ "" := by decide
      exact .cons first blank some (ih later)

end Spaced

theorem lexeme_of_mem_tokens {table : SymbolTable} {text : String} {t : Tokenization}
    (scanned : table.Scanned) (h : tokenize text table = .ok t) :
    ∀ token ∈ t.tokens, Lexeme token.spelling.toList token.kind := by
  intro token mem
  have sighted : token.sighting ∈ t.tokens.map Token.sighting := List.mem_map_of_mem mem
  rw [(sightings_of_tokenize scanned.follows h).1] at sighted
  obtain ⟨q, hq, given⟩ := List.mem_filterMap.mp sighted
  obtain ⟨before, g, gs, rest, -, cuts⟩ := cuts_of_mem_segments hq
  obtain ⟨kind, hkind, same⟩ := Option.map_eq_some_iff.mp given
  have holds := cuts.holds (Segment.kind?_eq_some hkind)
  have spelling : q.spelling = token.spelling := congrArg Sighting.spelling same
  have kinds : kind = token.kind := congrArg Sighting.kind same
  rwa [← spelling, ← kinds, Segment.spelling, String.toList_ofList]

theorem tokenize_of_printable {table : SymbolTable} (scanned : table.Scanned)
    {pieces : List Spaced} (h : Spaced.Printable pieces) :
    (∀ t, tokenize (Spaced.print pieces) table = .ok t →
      t.tokens.map Token.lexeme = pieces.map Spaced.lexeme ∧ t.diagnostics = []) ∧
    ((Spaced.print pieces).length < wordLimit →
      ∃ t, tokenize (Spaced.print pieces) table = .ok t) := by
  refine ⟨?_, tokenize_returns scanned.follows⟩
  intro t ht
  obtain ⟨tokens, diagnostics⟩ := sightings_of_tokenize scanned.follows ht
  obtain ⟨ts, reads, spelled⟩ := h.reads .first
  rw [← String.toList_ofList (l := pieces.flatMap Spaced.chars)] at reads
  obtain ⟨sightings, none⟩ := reads.eq_segments
  refine ⟨?_, diagnostics.trans none.symm⟩
  have same : t.tokens.map Token.sighting = ts := tokens.trans sightings.symm
  rw [← spelled, ← same, List.map_map]
  rfl

/-- Lexemes printed with blanks between them are found again, so printing the tokens of a text and
scanning that gives the same spellings and kinds. -/
theorem tokenize_print {table : SymbolTable} (scanned : table.Scanned) :
    (∀ pieces, Spaced.Printable pieces →
      (∀ t, tokenize (Spaced.print pieces) table = .ok t →
        t.tokens.map Token.lexeme = pieces.map Spaced.lexeme ∧ t.diagnostics = []) ∧
      ((Spaced.print pieces).length < wordLimit →
        ∃ t, tokenize (Spaced.print pieces) table = .ok t)) ∧
    ∀ text before t, before.Scanned → tokenize text before = .ok t →
      let joined := " ".intercalate (t.tokens.map Token.spelling)
      (∀ t', tokenize joined table = .ok t' →
        t'.tokens.map Token.lexeme = t.tokens.map Token.lexeme ∧ t'.diagnostics = []) ∧
      (joined.length < wordLimit → ∃ t', tokenize joined table = .ok t') := by
  refine ⟨fun pieces printable => tokenize_of_printable scanned printable, ?_⟩
  intro text before t hbefore ht joined
  have printable := Spaced.printable_ofTokens (lexeme_of_mem_tokens hbefore ht)
  have again := tokenize_of_printable scanned printable
  rwa [Spaced.print_ofTokens, Spaced.lexeme_ofTokens] at again

/-- Slashes that make no comment and a dot that ends a number; and a text whose tokens touch. -/
theorem tokenize_print_slashes :
    SymbolTable.standard.Scanned ∧
      (∃ t, tokenize "/\n/\t3. 5" .standard = .ok t ∧ t.tokens.map Token.lexeme =
          [("/", .slash), ("/", .slash), ("3.", .floatLiteral), ("5", .integerLiteral)] ∧
        t.diagnostics = []) ∧
      ∃ t, tokenize "+=#1.2.3" .standard = .ok t ∧ ∃ t', tokenize "+= 1.2 .3" .standard = .ok t' ∧
        t'.tokens.map Token.lexeme = t.tokens.map Token.lexeme ∧ t'.diagnostics = [] := by
  obtain ⟨printed, joined⟩ := tokenize_print .standard
  refine ⟨.standard, ?_, ?_⟩
  · let pieces : List Spaced := [⟨"/", .slash, "\n"⟩, ⟨"/", .slash, "\t"⟩,
      ⟨"3.", .floatLiteral, " "⟩, ⟨"5", .integerLiteral, ""⟩]
    have lexemes : ∀ p ∈ pieces, Lexeme p.spelling.toList p.kind := by
      simp only [pieces, List.forall_mem_cons]
      have decimal : Shape (['3'] ++ '.' :: []) .floatLiteral :=
        .decimal (by decide) (List.forall_mem_singleton.mpr (by decide)) nofun
      have integer : Shape ['5'] .integerLiteral :=
        .integer (by decide) (List.forall_mem_singleton.mpr (by decide))
      exact ⟨.fixed (by decide), .fixed (by decide), .shaped (by decide) decimal,
        .shaped (by decide) integer, nofun⟩
    have blanks : (pieces.all fun p => p.gap.toList.all CharClass.isBlank) = true := by decide
    obtain ⟨found, returns⟩ := printed pieces ⟨lexemes,
      fun p hp => List.all_eq_true.mp (List.all_eq_true.mp blanks p hp), by decide⟩
    obtain ⟨t, ht⟩ := returns (by decide)
    obtain ⟨tokens, diagnostics⟩ := found t ht
    exact ⟨t, ht, tokens, diagnostics⟩
  · have told : (tokenize "+=#1.2.3" .standard).map (fun t => t.tokens.map Token.spelling) =
        .ok ["+=", "1.2", ".3"] := by decide +kernel
    obtain ⟨t, ht, spelled⟩ := ok_of_map told
    have again := joined _ _ t .standard ht
    rw [spelled] at again
    obtain ⟨t', ht'⟩ := again.2 (by decide)
    exact ⟨t, ht, t', ht', again.1 t' ht'⟩

end Lexis
