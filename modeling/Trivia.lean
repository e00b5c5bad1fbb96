import Trivia.Scanner.Op
import Trivia.History
import Trivia.Tree.Datum
import Trivia.Tree.Debug
import Trivia.Tree.Printer
import Trivia.Proofs.Automaton
import Trivia.Proofs.Canonical
import Trivia.Proofs.Circles
import Trivia.Proofs.Locations
import Trivia.Proofs.Recoding
import Trivia.Proofs.Consumption
import Trivia.Proofs.Contracts
import Trivia.Proofs.Concatenation
import Trivia.Proofs.Deliveries
import Trivia.Proofs.Dialects
import Trivia.Proofs.Extension
import Trivia.Proofs.Histories
import Trivia.Proofs.Lines
import Trivia.Proofs.LineTails
import Trivia.Proofs.Logs
import Trivia.Proofs.Provenance
import Trivia.Proofs.Sessions
import Trivia.Proofs.Blocks
import Trivia.Proofs.Choice
import Trivia.Proofs.Suffixes
import Trivia.Proofs.WordReaders
