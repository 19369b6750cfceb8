import Reckoner.Numeral.Reader
import Reckoner.Text.Blank

/-! Variables given on the command line as `NAME=VALUE`. Blanks around either side do
not count. -/

namespace Reckoner.CommandLine

structure Definition where
  name : String
  value : Float

inductive DefinitionFault
  | noEqualsSign (text : String)
  | badValue (name : String) (fault : Numeral.ReadFault)
  deriving DecidableEq

def DefinitionFault.message : DefinitionFault → String
  | noEqualsSign text => s!"expected NAME=VALUE, found '{text}'"
  | badValue name fault => s!"invalid value for '{name}': {fault.message}"

def Definition.parse (text : String) : Except DefinitionFault Definition :=
  let cs := text.toList
  match cs.dropWhile (· != '=') with
  | [] => .error (.noEqualsSign text)
  | _ :: value =>
    let name := String.ofList (Text.trim (cs.takeWhile (· != '=')))
    match Numeral.read (String.ofList (Text.trim value)) with
    | .ok value => .ok ⟨name, value⟩
    | .error fault => .error (.badValue name fault)

end Reckoner.CommandLine
