/-! Why a source or a file cannot be read. -/

namespace Lexis

inductive Failure where
  | notFound
  | notADirectory
  | isADirectory
  | notUtf8
  | other (text : String)
deriving DecidableEq, Repr

def Failure.message : Failure → String
  | .notFound => "No such file or directory (os error 2)"
  | .notADirectory => "Not a directory (os error 20)"
  | .isADirectory => "Is a directory (os error 21)"
  | .notUtf8 => "stream did not contain valid UTF-8"
  | .other text => text

end Lexis
