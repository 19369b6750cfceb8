import Reckoner.Diagnostic.Error
import Reckoner.Scope.Function
import Reckoner.Scope.Table

/-! Named functions. A name has to be given up before it can be bound again. -/

namespace Reckoner

abbrev FunctionTable := Table UnaryFunction

namespace FunctionTable

def add (t : FunctionTable) (name : String) (function : UnaryFunction) :
    Except BindingError FunctionTable :=
  if h : Lexeme.isIdentifier name then
    if t.contains name then .error (.functionAlreadyDefined name)
    else .ok (t.insert name function h)
  else .error (.invalidName name)

def remove (t : FunctionTable) (name : String) : Except BindingError FunctionTable :=
  if t.contains name then .ok (t.erase name) else .error (.unknownFunction name)

def addAll (t : FunctionTable) (entries : List (String × UnaryFunction)) :
    Except BindingError FunctionTable :=
  entries.foldlM (fun t e => t.add e.1 e.2) t

def standard : FunctionTable :=
  .ofList UnaryFunction.standard (by simp [UnaryFunction.standard]; decide)

def listing (t : FunctionTable) : String :=
  if t.entries.isEmpty then "No functions added.\n"
  else String.join (t.names.map (· ++ "(x)\n"))

end FunctionTable

end Reckoner
