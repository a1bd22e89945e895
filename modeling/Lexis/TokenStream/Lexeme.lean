import Lexis.TokenStream.Basic

/-! The pieces a text is made of: words, numbers, operators, comments and characters that belong to
none of these. Each is consumed up to its last character, with one character of lookahead. -/

namespace Lexis.TokenStream

/-- What a piece of the text comes to: a token, or nothing for a comment and for what is reported;
with the stream after the piece. -/
abbrev Piece (σ : Type) := Except Fault (Option Token × TokenStream σ)

variable {σ : Type} [CharSource σ]

/-- Consumes characters as long as they are of a class, and appends them to a lexeme. -/
def takeRun (p : Char → Bool) (lexeme : String) (s : TokenStream σ) : String × TokenStream σ :=
  match _ : s.lookahead with
  | none => (lexeme, s)
  | some g => if p g.char then takeRun p (lexeme.push g.char) s.advance else (lexeme, s)
termination_by s.unread
decreasing_by exact unread_advance ‹_›

/-- Consumes characters as long as they stand on a line. -/
def dropLine (line : Nat) (s : TokenStream σ) : TokenStream σ :=
  match _ : s.lookahead with
  | none => s
  | some g => if g.position.line = line then dropLine line s.advance else s
termination_by s.unread
decreasing_by exact unread_advance ‹_›

/-- The token of a symbol whose lexeme starts at a place and has so many characters. -/
def emit (s : TokenStream σ) (symbol : Symbol) (start : Position) (length : Nat) : Piece σ :=
  match addWords start.column length with
  | .error fault => .error fault
  | .ok stop =>
    let token : Token := ⟨symbol, start.line, start.column, stop - 1⟩
    .ok (some token, s.record (.scannedToken token))

/-- The token of a lexeme, which is registered with a kind if it is new. -/
def emitLexeme (s : TokenStream σ) (lexeme : String) (kind : Kind) (start : Position) : Piece σ :=
  let interned := s.symbols.intern lexeme kind
  emit { s with symbols := interned.2 } interned.1 start lexeme.length

/-- A word runs as far as identifier characters go. Reserved words are registered already and keep
their kinds. -/
def scanWord (s : TokenStream σ) (first : Glyph) : Piece σ :=
  let word := s.advance.takeRun CharClass.isIdentifierPart (String.singleton first.char)
  word.2.emitLexeme word.1 .identifier first.position

/-- Digits, and after a dot the digits of a fraction. The fraction may be empty. -/
def scanNumber (s : TokenStream σ) (first : Glyph) : Piece σ :=
  let whole := s.advance.takeRun CharClass.isDigit (String.singleton first.char)
  match whole.2.lookahead with
  | some ⟨'.', _⟩ =>
    let number := whole.2.advance.takeRun CharClass.isDigit (whole.1.push '.')
    number.2.emitLexeme number.1 .floatLiteral first.position
  | _ => whole.2.emitLexeme whole.1 .integerLiteral first.position

/-- A dot and the digits after it. Without a digit the dot is malformed. -/
def scanFraction (s : TokenStream σ) (dot : Glyph) : Piece σ :=
  let number := s.advance.takeRun CharClass.isDigit "."
  if number.1 = "." then
    .ok (none, number.2.report (.malformedLeadingDotLiteral ".") dot.position)
  else number.2.emitLexeme number.1 .floatLiteral dot.position

def scanSingle (s : TokenStream σ) (first : Glyph) : Piece σ :=
  let spelling := String.singleton first.char
  match s.symbols.resolve? spelling with
  | some symbol => s.emit symbol first.position 1
  | none => .ok (none, s.report (.illegalCharacter spelling) first.position)

/-- A comment, after its first slash. It ends where another line begins. -/
def skipComment (s : TokenStream σ) (line : Nat) : TokenStream σ :=
  (s.record (.skippedComment line)).advance.dropLine line

/-- A comment, or a registered spelling of two characters, or else of one. -/
def scanOperator (s : TokenStream σ) (first : Glyph) : Piece σ :=
  let s := s.advance
  match s.lookahead with
  | none => s.scanSingle first
  | some second =>
    if first.char = '/' ∧ second.char = '/' then .ok (none, s.skipComment first.position.line)
    else match s.symbols.resolve? (String.ofList [first.char, second.char]) with
      | some symbol => s.advance.emit symbol first.position 2
      | none => s.scanSingle first

def scanPiece (s : TokenStream σ) (first : Glyph) : Piece σ :=
  if CharClass.isIdentifierStart first.char then s.scanWord first
  else if CharClass.isDigit first.char then s.scanNumber first
  else if first.char = '.' then s.scanFraction first
  else s.scanOperator first

/-! Every piece takes at least its first character. -/

theorem unread_takeRun (p : Char → Bool) (lexeme : String) (s : TokenStream σ) :
    (s.takeRun p lexeme).2.unread ≤ s.unread := by
  fun_induction takeRun p lexeme s with
  | case1 => exact Nat.le_refl _
  | case2 lexeme s g hg _ ih => exact Nat.le_trans ih (Nat.le_of_lt (unread_advance hg))
  | case3 => exact Nat.le_refl _

theorem unread_dropLine (line : Nat) (s : TokenStream σ) :
    (s.dropLine line).unread ≤ s.unread := by
  fun_induction dropLine line s with
  | case1 => exact Nat.le_refl _
  | case2 s g hg _ ih => exact Nat.le_trans ih (Nat.le_of_lt (unread_advance hg))
  | case3 => exact Nat.le_refl _

theorem unread_emit {s s' : TokenStream σ} {symbol : Symbol} {start : Position} {length : Nat}
    {token : Option Token} (h : s.emit symbol start length = .ok (token, s')) :
    s'.unread = s.unread := by
  simp only [emit] at h
  split at h
  · cases h
  · cases h
    rfl

theorem unread_emitLexeme {s s' : TokenStream σ} {lexeme : String} {kind : Kind}
    {start : Position} {token : Option Token}
    (h : s.emitLexeme lexeme kind start = .ok (token, s')) : s'.unread = s.unread := by
  simp only [emitLexeme] at h
  rw [unread_emit h]
  rfl

theorem unread_scanWord {s s' : TokenStream σ} {g : Glyph} {token : Option Token}
    (hg : s.lookahead = some g) (h : s.scanWord g = .ok (token, s')) : s'.unread < s.unread := by
  rw [unread_emitLexeme h]
  exact Nat.lt_of_le_of_lt (unread_takeRun _ _ _) (unread_advance hg)

theorem unread_scanNumber {s s' : TokenStream σ} {g : Glyph} {token : Option Token}
    (hg : s.lookahead = some g) (h : s.scanNumber g = .ok (token, s')) :
    s'.unread < s.unread := by
  have whole := Nat.lt_of_le_of_lt
    (unread_takeRun CharClass.isDigit (String.singleton g.char) s.advance) (unread_advance hg)
  simp only [scanNumber] at h
  split at h
  · next hdot =>
    rw [unread_emitLexeme h]
    exact Nat.lt_of_le_of_lt (unread_takeRun _ _ _) (Nat.lt_trans (unread_advance hdot) whole)
  · rw [unread_emitLexeme h]
    exact whole

theorem unread_scanFraction {s s' : TokenStream σ} {g : Glyph} {token : Option Token}
    (hg : s.lookahead = some g) (h : s.scanFraction g = .ok (token, s')) :
    s'.unread < s.unread := by
  have digits := Nat.lt_of_le_of_lt
    (unread_takeRun CharClass.isDigit "." s.advance) (unread_advance hg)
  simp only [scanFraction] at h
  split at h
  · cases h
    exact digits
  · rw [unread_emitLexeme h]
    exact digits

theorem unread_scanSingle {s s' : TokenStream σ} {g : Glyph} {token : Option Token}
    (h : s.scanSingle g = .ok (token, s')) : s'.unread = s.unread := by
  simp only [scanSingle] at h
  split at h
  · exact unread_emit h
  · cases h
    rfl

theorem unread_skipComment {s : TokenStream σ} {g : Glyph} (hg : s.lookahead = some g)
    (line : Nat) : (s.skipComment line).unread < s.unread :=
  Nat.lt_of_le_of_lt (unread_dropLine _ _)
    (unread_advance (s := s.record (.skippedComment line)) hg)

theorem unread_scanOperator {s s' : TokenStream σ} {g : Glyph} {token : Option Token}
    (hg : s.lookahead = some g) (h : s.scanOperator g = .ok (token, s')) :
    s'.unread < s.unread := by
  have first := unread_advance hg
  simp only [scanOperator] at h
  split at h
  · rw [unread_scanSingle h]
    exact first
  · next second hsecond =>
    split at h
    · cases h
      exact Nat.lt_trans (unread_skipComment hsecond _) first
    · split at h
      · rw [unread_emit h]
        exact Nat.lt_trans (unread_advance hsecond) first
      · rw [unread_scanSingle h]
        exact first

theorem unread_scanPiece {s s' : TokenStream σ} {g : Glyph} {token : Option Token}
    (hg : s.lookahead = some g) (h : s.scanPiece g = .ok (token, s')) :
    s'.unread < s.unread := by
  simp only [scanPiece] at h
  split at h
  · exact unread_scanWord hg h
  · split at h
    · exact unread_scanNumber hg h
    · split at h
      · exact unread_scanFraction hg h
      · exact unread_scanOperator hg h

end Lexis.TokenStream
