import Reckoner.CommandLine.Arguments
import Reckoner.CommandLine.Script

/-! Runs of the program from its arguments and the file they name. -/

namespace Reckoner.CommandLine

inductive FileFault
  | notFound
  | notDirectory
  | isDirectory
  | notText
  | other (description : String)

def FileFault.message : FileFault → String
  | notFound => "No such file or directory (os error 2)"
  | notDirectory => "Not a directory (os error 20)"
  | isDirectory => "Is a directory (os error 21)"
  | notText => "stream did not contain valid UTF-8"
  | other description => description

def versionLine : String := "shunt 0.1.0"

def usageLine : String := "Usage: shunt [OPTIONS] <CONTENTS>"

def helpHint : String := "For more information, try '" ++ Text.highlight "--help" ++ "'."

def helpText : String :=
  "Evaluates arithmetic expressions with variables, functions and |x| absolute values\n\n" ++
    usageLine ++ "\n\n" ++
    "Arguments:\n  <CONTENTS>\n\n" ++
    "Options:\n" ++
    "  -f, --file                 Read expressions from a file, one per line\n" ++
    "  -D, --define <NAME=VALUE>  Bind a variable, may be repeated\n" ++
    "  -r, --rpn                  Print the postfix form before each result\n" ++
    "  -v, --verbose              Enable debug logging\n" ++
    "  -h, --help                 Print help\n" ++
    "  -V, --version              Print version"

def Halt.outcome : Halt → Outcome
  | help => ⟨[.result helpText], 0⟩
  | version => ⟨[.result versionLine], 0⟩
  | usage error =>
    let usage := match error with
      | .badDefinition _ _ | .definitionMissing => ""
      | _ => "\n\n" ++ usageLine
    ⟨[.misuse (error.message ++ usage ++ "\n\n" ++ helpHint)], 2⟩

namespace Arguments

/-- The lightest records to keep: what is asked for outright comes before what the
flags ask for. -/
def lightest (a : Arguments) (override : Option (Option Level)) : Option Level :=
  override.getD (some (if a.verbose then .debug else .warn))

def bind (a : Arguments) : Logged Error Calculator :=
  a.definitions.foldlM (fun c d => c.addVariable d.name d.value) Calculator.standard

def run (a : Arguments) (file : Except FileFault String) : Outcome :=
  let bound := a.bind
  let before := bound.records.map Emission.journal
  match bound.result, if a.readsFile then file else .ok a.contents with
  | .error e, _ => ⟨before ++ [.failure e.message], 1⟩
  | .ok _, .error fault =>
    ⟨before ++ [.failure s!"Failed to read the input file '{a.contents}': {fault.message}"], 1⟩
  | .ok c, .ok text =>
    let (emissions, succeeded) := runLines a.showsPostfix c (scriptLines text)
    ⟨before ++ emissions, if succeeded then 0 else 1⟩

end Arguments

end Reckoner.CommandLine
