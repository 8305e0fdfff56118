import Polish.Capacity
import Polish.Main
import Polish.Proofs.Lexing
import Polish.Proofs.SyntaxErrors
import Polish.Proofs.Recovery
import Polish.Proofs.LayoutRefinement
import Polish.Proofs.LineByLine
import Polish.Proofs.ValueOutcome
import Polish.Proofs.Laziness
import Polish.Proofs.Causality
import Polish.Proofs.Reports
import Polish.Proofs.Alike
import Polish.Proofs.Succession
import Polish.Proofs.StandardInput
import Polish.Proofs.RoundTrip
import Polish.Proofs.Conservativity
import Polish.Proofs.Paths
import Polish.Proofs.Redirection
import Polish.Proofs.Relayout
import Polish.Proofs.FileAndInput
import Polish.Proofs.Queue
import Polish.Proofs.LineEnds
import Polish.Proofs.Derivations
import Polish.Proofs.Bounds
import Polish.Proofs.Agreement
import Polish.Proofs.Callable
import Polish.Proofs.Recognition
import Polish.Proofs.Feedback
import Polish.Proofs.Registration
import Polish.Proofs.Settings
import Polish.Proofs.Safety
import Polish.Proofs.Room
