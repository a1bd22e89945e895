import Lexis.Position

/-! What is wrong with a source text, where, and what might help. -/

namespace Lexis

inductive Problem where
  | illegalCharacter (spelling : String)
  /-- A dot that no digit follows. -/
  | malformedLeadingDotLiteral (spelling : String)
  /-- The rest of the source could not be read. -/
  | sourceUnreadable (reason : String)
deriving DecidableEq, Repr

namespace Problem

def name : Problem → String
  | .illegalCharacter _ => "IllegalCharacter"
  | .malformedLeadingDotLiteral _ => "MalformedLeadingDotLiteral"
  | .sourceUnreadable _ => "SourceUnreadable"

def message : Problem → String
  | .illegalCharacter spelling => "illegal character: " ++ spelling
  | .malformedLeadingDotLiteral spelling =>
    "illegal character: " ++ spelling ++ " (no digits after leading dot)"
  | .sourceUnreadable reason => "unable to read source: " ++ reason

def tip? : Problem → Option String
  | .illegalCharacter _ => none
  | .malformedLeadingDotLiteral spelling =>
    some ("`" ++ spelling ++ "` must be followed by a digit, did you mean `0" ++ spelling ++ "`?")
  | .sourceUnreadable reason => some ("Scanning stopped here: " ++ reason)

end Problem

/-- A problem and the place it was found at. -/
structure Diagnostic where
  problem : Problem
  position : Position
deriving DecidableEq, Repr

def Diagnostic.describe (d : Diagnostic) : String :=
  d.problem.message ++ " line: " ++ toString d.position.line

end Lexis
