import KaleidoscopeFrontEnd.Main
import KaleidoscopeFrontEnd.Node.Walk
import KaleidoscopeFrontEnd.Proofs.Climbing
import KaleidoscopeFrontEnd.Proofs.Spelling
import KaleidoscopeFrontEnd.Proofs.Viability
import KaleidoscopeFrontEnd.Proofs.LexicalGrammar
import KaleidoscopeFrontEnd.Proofs.Positions
import KaleidoscopeFrontEnd.Proofs.Tokenizing
import KaleidoscopeFrontEnd.Proofs.Separation
import KaleidoscopeFrontEnd.Proofs.Meaning
import KaleidoscopeFrontEnd.Proofs.Restart
import KaleidoscopeFrontEnd.Proofs.Statements
import KaleidoscopeFrontEnd.Proofs.Agreement
import KaleidoscopeFrontEnd.Proofs.Transcript
import KaleidoscopeFrontEnd.Proofs.Interleaving
import KaleidoscopeFrontEnd.Proofs.Spans
import KaleidoscopeFrontEnd.Proofs.Printing
import KaleidoscopeFrontEnd.Proofs.Yield
import KaleidoscopeFrontEnd.Proofs.Lookahead
import KaleidoscopeFrontEnd.Proofs.StreamCalls
import KaleidoscopeFrontEnd.Proofs.Relayout
import KaleidoscopeFrontEnd.Proofs.Refusals
import KaleidoscopeFrontEnd.Proofs.Appending
import KaleidoscopeFrontEnd.Proofs.Evaluation
import KaleidoscopeFrontEnd.Proofs.FileRuns
import KaleidoscopeFrontEnd.Proofs.Terminators
import KaleidoscopeFrontEnd.Proofs.Kinds
import KaleidoscopeFrontEnd.Proofs.Parentheses
import KaleidoscopeFrontEnd.Proofs.Ranges
import KaleidoscopeFrontEnd.Proofs.Renaming
import KaleidoscopeFrontEnd.Proofs.FileAnswers
import KaleidoscopeFrontEnd.Proofs.LineEnds
import KaleidoscopeFrontEnd.Proofs.Guises
import KaleidoscopeFrontEnd.Proofs.EndPlace
import KaleidoscopeFrontEnd.Proofs.Observers
import KaleidoscopeFrontEnd.Proofs.TokenEquality
import KaleidoscopeFrontEnd.Proofs.Recursion
import KaleidoscopeFrontEnd.Proofs.Regrouping
import KaleidoscopeFrontEnd.Proofs.Descent
import KaleidoscopeFrontEnd.Proofs.Returns
import KaleidoscopeFrontEnd.Proofs.Progress
import KaleidoscopeFrontEnd.Proofs.ForeignNodes
import KaleidoscopeFrontEnd.Proofs.ShownTokens
