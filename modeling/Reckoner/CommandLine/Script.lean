import Reckoner.Calculator.Basic
import Reckoner.CommandLine.Outcome
import Reckoner.Text.Blank
import Reckoner.Text.Lines

/-! Scripts: an expression on each line, apart from blank lines and comments. All
lines share one calculator, and a line that fails does not stop the others. -/

namespace Reckoner.CommandLine

def scriptLines (text : String) : List String :=
  ((Text.lines text.toList).map Text.trim).filter (fun cs => !cs.isEmpty && cs.head? != some '#')
    |>.map String.ofList

structure LineRun where
  emissions : List Emission
  calculator : Calculator
  succeeded : Bool

def postfixLines (showsPostfix : Bool) (c : Calculator) (index : Nat) : List Emission :=
  match showsPostfix, c.expressions[index]? with
  | true, some e => [.result e.postfixText]
  | _, _ => []

def runLine (showsPostfix : Bool) (c : Calculator) (line : String) : LineRun :=
  let added := c.addExpression line
  let before := added.records.map Emission.journal
  match added.result with
  | .error e => ⟨before ++ [.journal (.lineRejected line), .failure e.message], c, false⟩
  | .ok (index, c) =>
    let calculated := c.calculate index
    let emissions := before ++ postfixLines showsPostfix c index
      ++ calculated.records.map Emission.journal
    match calculated.result with
    | .error e => ⟨emissions ++ [.failure e.message], c, false⟩
    | .ok x => ⟨emissions ++ [.result (Numeral.display x)], c, true⟩

def runLines (showsPostfix : Bool) (c : Calculator) : List String → List Emission × Bool
  | [] => ([], true)
  | line :: lines =>
    let first := runLine showsPostfix c line
    let (emissions, succeeded) := runLines showsPostfix first.calculator lines
    (first.emissions ++ emissions, first.succeeded && succeeded)

end Reckoner.CommandLine
