import Reckoner.Calculator.Command
import Reckoner.Expression.Evaluate
import Reckoner.Main
import Reckoner.Proofs.Grammar.Sketch
import Reckoner.Proofs.Token.Spelling
import Reckoner.Proofs.Grammar.Soundness
import Reckoner.Proofs.Grammar.Completeness
import Reckoner.Proofs.Conversion.Acceptance
import Reckoner.Proofs.Conversion.Simulation
import Reckoner.Proofs.Conversion.Parsing
import Reckoner.Proofs.Evaluation.Literal
import Reckoner.Proofs.Evaluation.Value
import Reckoner.Proofs.Evaluation.Replay
import Reckoner.Proofs.Grammar.Relabel
import Reckoner.Proofs.Conversion.Failure
import Reckoner.Proofs.Grammar.Substitution
import Reckoner.Proofs.Evaluation.Substitution
import Reckoner.Proofs.Numeral.Packing
import Reckoner.Proofs.Numeral.Magnitude
import Reckoner.Proofs.Numeral.Display
import Reckoner.Proofs.Diagnostic.Place
import Reckoner.Proofs.Token.Lexeme
import Reckoner.Proofs.Token.Segmentation
import Reckoner.Proofs.Evaluation.Faults
import Reckoner.Proofs.Evaluation.Rendering
import Reckoner.Proofs.Diagnostic.Pointing
import Reckoner.Proofs.Journal.Outcome
import Reckoner.Proofs.Calculator.Step
import Reckoner.Proofs.Calculator.Live
import Reckoner.Proofs.Calculator.Frame
import Reckoner.Proofs.Calculator.Machine
import Reckoner.Proofs.Evaluation.PostfixText
import Reckoner.Proofs.Evaluation.Depth
import Reckoner.Proofs.Conversion.Brackets
import Reckoner.Proofs.Diagnostic.Brackets
import Reckoner.Proofs.Journal.Quiet
import Reckoner.Proofs.CommandLine.Script
import Reckoner.Proofs.Token.Blank
import Reckoner.Proofs.CommandLine.Single
import Reckoner.Proofs.Scope.Names
import Reckoner.Proofs.Journal.Reading
import Reckoner.Proofs.Evaluation.Nodes
import Reckoner.Proofs.Journal.Trace
import Reckoner.Proofs.Numeral.Reading
import Reckoner.Proofs.Calculator.Listing
import Reckoner.Proofs.Calculator.Journal
import Reckoner.Proofs.Journal.Transcript
import Reckoner.Proofs.Calculator.Rebuild
import Reckoner.Proofs.Conversion.State
import Reckoner.Proofs.Diagnostic.Column
import Reckoner.Proofs.Scope.History
