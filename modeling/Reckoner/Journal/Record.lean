import Reckoner.Numeral.Display
import Reckoner.Token.Basic

/-! What happens on the way to a result, as records of different weight. -/

namespace Reckoner

/-- From the weightiest to the lightest. -/
inductive Level
  | error
  | warn
  | info
  | debug
  | trace
  deriving DecidableEq

namespace Level

def label : Level → String
  | error => "ERROR"
  | warn => "WARN"
  | info => "INFO"
  | debug => "DEBUG"
  | trace => "TRACE"

def isKeptAt (level lightest : Level) : Bool := level.ctorIdx ≤ lightest.ctorIdx

/-- The lightest level that is kept under a name; under the name `off` no level is. -/
def lightest? (name : String) : Option (Option Level) :=
  let names := [("off", none), ("error", some error), ("warn", some warn), ("info", some info),
    ("debug", some debug), ("trace", some trace)]
  names.lookup (String.ofList (name.toList.map Char.toLower))

end Level

inductive Record
  | shunting (token : Token)
  | computed (symbol : String) (value : Float)
  | parsed (source postfixText : String)
  | variableAdded (name : String) (value : Float)
  | variableRemoved (name : String)
  | functionAdded (name : String)
  | expressionAdded (index : Nat) (source : String)
  | expressionRemoved (index : Nat) (source : String)
  | lineRejected (line : String)

namespace Record

def level : Record → Level
  | shunting _ | computed _ _ => .trace
  | lineRejected _ => .warn
  | _ => .debug

def message : Record → String
  | shunting token =>
    s!"shunting {token.category.display} '{token.text}' at {token.offset}"
  | computed symbol value => s!"'{symbol}' -> {Numeral.display value}"
  | parsed source postfixText => s!"parsed '{source}' into {postfixText}"
  | variableAdded name value => s!"variable {name} = {Numeral.display value}"
  | variableRemoved name => s!"variable {name} removed"
  | functionAdded name => s!"function {name} added"
  | expressionAdded index source => s!"expression {index} added: {source}"
  | expressionRemoved index source => s!"expression {index} removed: {source}"
  | lineRejected line => s!"rejected expression '{line}'"

end Record

end Reckoner
