import Reckoner.Journal.Record
import Reckoner.Text.Control

/-! What a run of the program leaves behind: two streams of lines and an exit code.
Records share the error stream and are kept down to a chosen level. How a record is
written there is up to the logger. Errors in the arguments are written without control
characters, all else as it is. -/

namespace Reckoner.CommandLine

inductive Emission
  | result (line : String)
  | failure (line : String)
  | misuse (line : String)
  | journal (record : Record)

structure Outcome where
  emissions : List Emission
  exitCode : Nat

namespace Emission

def toOutput : Emission → String
  | result line => line ++ "\n"
  | failure _ | misuse _ | journal _ => ""

def plain (s : String) : String := String.ofList (Text.withoutControls s.toList)

def toErrors (logged : Record → String) (lightest : Option Level) : Emission → String
  | result _ => ""
  | failure line => line ++ "\n"
  | misuse line => plain (line ++ "\n")
  | journal record => if lightest.any record.level.isKeptAt then logged record else ""

end Emission

namespace Outcome

def output (o : Outcome) : String := String.join (o.emissions.map Emission.toOutput)

def errors (o : Outcome) (logged : Record → String) (lightest : Option Level) : String :=
  String.join (o.emissions.map (Emission.toErrors logged lightest))

end Outcome

end Reckoner.CommandLine
