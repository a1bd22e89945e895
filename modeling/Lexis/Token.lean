import Lexis.Position
import Lexis.Symbol

/-! Tokens: interned lexemes with the columns they cover. -/

namespace Lexis

/-- A symbol found on a line, with the first and the last column of its lexeme. -/
structure Token where
  symbol : Symbol
  line : Nat
  left : Nat
  right : Nat
deriving DecidableEq, Repr

namespace Token

def kind (token : Token) : Kind := token.symbol.kind

def spelling (token : Token) : String := token.symbol.spelling

/-- A label for a token, followed by the place of the token. -/
def describeAs (token : Token) (label : String) : String :=
  label ++ "  left: " ++ toString token.left ++ " right: " ++ toString token.right
    ++ " line: " ++ toString token.line

def describe (token : Token) : String := token.describeAs token.spelling

/-- The description with the fixed spelling of the token's kind, where the kind has one. -/
def describeByKind (token : Token) : String :=
  token.describeAs <|
    if token.kind.isVariable then token.spelling else token.kind.spelling?.getD token.spelling

end Token
end Lexis
