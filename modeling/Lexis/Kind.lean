/-! The kinds of tokens, and the spellings that have a fixed kind. -/

namespace Lexis

/-- A kind per fixed spelling, and one for each of the spellings that vary. -/
inductive Kind where
  | identifier | integerLiteral | floatLiteral
  | openBracket | closeBracket | openCurly | closeCurly | openParen | closeParen
  | assignment | equals | not | notEquals
  | less | lessEquals | greater | greaterEquals
  | ampersand | pipe | or | and
  | semicolon | colon | comma | arrow
  | plusPlus | minusMinus | plusEquals | minusEquals | slashEquals | starEquals
  | plus | dash | slash | star | percent
  | kwProgram | kwInt | kwFloat | kwBoolean | kwChar | kwVoid
  | kwIf | kwThen | kwElse | kwWhile | kwDo | kwFor
  | kwFunction | kwReturn | kwBreak | kwContinue | kwTrue | kwFalse
deriving DecidableEq, Repr

namespace Kind

def isVariable : Kind → Bool
  | .identifier | .integerLiteral | .floatLiteral => true
  | _ => false

def name : Kind → String
  | .identifier => "Identifier"
  | .integerLiteral => "IntegerLiteral"
  | .floatLiteral => "FloatLiteral"
  | .openBracket => "OpenBracket"
  | .closeBracket => "CloseBracket"
  | .openCurly => "OpenCurly"
  | .closeCurly => "CloseCurly"
  | .openParen => "OpenParen"
  | .closeParen => "CloseParen"
  | .assignment => "Assignment"
  | .equals => "Equals"
  | .not => "Not"
  | .notEquals => "NotEquals"
  | .less => "Less"
  | .lessEquals => "LessEquals"
  | .greater => "Greater"
  | .greaterEquals => "GreaterEquals"
  | .ampersand => "Ampersand"
  | .pipe => "Pipe"
  | .or => "Or"
  | .and => "And"
  | .semicolon => "Semicolon"
  | .colon => "Colon"
  | .comma => "Comma"
  | .arrow => "Arrow"
  | .plusPlus => "PlusPlus"
  | .minusMinus => "MinusMinus"
  | .plusEquals => "PlusEquals"
  | .minusEquals => "MinusEquals"
  | .slashEquals => "SlashEquals"
  | .starEquals => "StarEquals"
  | .plus => "Plus"
  | .dash => "Dash"
  | .slash => "Slash"
  | .star => "Star"
  | .percent => "Percent"
  | .kwProgram => "Program"
  | .kwInt => "Int"
  | .kwFloat => "Float"
  | .kwBoolean => "Boolean"
  | .kwChar => "Char"
  | .kwVoid => "Void"
  | .kwIf => "If"
  | .kwThen => "Then"
  | .kwElse => "Else"
  | .kwWhile => "While"
  | .kwDo => "Do"
  | .kwFor => "For"
  | .kwFunction => "Function"
  | .kwReturn => "Return"
  | .kwBreak => "Break"
  | .kwContinue => "Continue"
  | .kwTrue => "True"
  | .kwFalse => "False"

/-- Every spelling with a kind of its own. The dot and the double slash are absent: a dot always
opens a float literal, and two slashes open a comment. -/
def fixed : List (String × Kind) :=
  [("program", .kwProgram), ("int", .kwInt), ("float", .kwFloat), ("boolean", .kwBoolean),
   ("char", .kwChar), ("void", .kwVoid), ("if", .kwIf), ("then", .kwThen), ("else", .kwElse),
   ("while", .kwWhile), ("do", .kwDo), ("for", .kwFor), ("function", .kwFunction),
   ("return", .kwReturn), ("break", .kwBreak), ("continue", .kwContinue), ("true", .kwTrue),
   ("false", .kwFalse),
   ("\x7b", .openCurly), ("\x7d", .closeCurly), ("(", .openParen), (")", .closeParen),
   ("[", .openBracket), ("]", .closeBracket), (",", .comma), (";", .semicolon), (":", .colon),
   ("=", .assignment), ("==", .equals), ("!=", .notEquals), ("<", .less), ("<=", .lessEquals),
   (">", .greater), (">=", .greaterEquals), ("+", .plus), ("-", .dash), ("*", .star),
   ("/", .slash), ("%", .percent), ("!", .not), ("&", .ampersand), ("|", .pipe), ("&&", .and),
   ("||", .or), ("++", .plusPlus), ("--", .minusMinus), ("+=", .plusEquals),
   ("-=", .minusEquals), ("*=", .starEquals), ("/=", .slashEquals), ("->", .arrow)]

def ofSpelling? (spelling : String) : Option Kind := fixed.lookup spelling

def spelling? (kind : Kind) : Option String :=
  (fixed.find? fun entry => entry.2 == kind).map (·.1)

end Kind
end Lexis
