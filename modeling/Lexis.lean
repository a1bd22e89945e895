import Lexis.Main
import Lexis.Session
import Lexis.Source.Requests
import Lexis.Proofs.Source.Delivery
import Lexis.Proofs.Lexing.LongestMatch
import Lexis.Proofs.Lexing.Coverage
import Lexis.Proofs.Lexing.Composition
import Lexis.Proofs.Lexing.Comments
import Lexis.Proofs.Lexing.Refinement
import Lexis.Proofs.Lexing.Printing
import Lexis.Proofs.Session.Interning
import Lexis.Proofs.Session.Independence
import Lexis.Proofs.TokenStream.Release
import Lexis.Proofs.Session.Logging
import Lexis.Proofs.Lexing.Truncation
import Lexis.Proofs.Lexing.CommentLines
import Lexis.Proofs.Report.Rows
import Lexis.Proofs.CommandLine.Run
import Lexis.Proofs.Text.Returns
import Lexis.Proofs.Lexing.LineEnds
import Lexis.Proofs.Report.Rendering
import Lexis.Proofs.Report.Showing
import Lexis.Proofs.Lexing.Continuation
import Lexis.Proofs.Lexing.Interruption
import Lexis.Proofs.TokenStream.Labels
import Lexis.Proofs.TokenStream.Overflow
import Lexis.Proofs.Report.Listing
import Lexis.Proofs.Report.Expansion
