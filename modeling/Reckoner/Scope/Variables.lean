import Reckoner.Diagnostic.Error
import Reckoner.Numeral.Display
import Reckoner.Scope.Table

/-! Named numbers. A new value replaces an old one. -/

namespace Reckoner

abbrev VariableTable := Table Float

namespace VariableTable

def add (t : VariableTable) (name : String) (value : Float) :
    Except BindingError VariableTable :=
  if h : Lexeme.isIdentifier name then .ok (t.insert name value h) else .error (.invalidName name)

def remove (t : VariableTable) (name : String) : Except BindingError (Float × VariableTable) :=
  match t.get? name with
  | some value => .ok (value, t.erase name)
  | none => .error (.unknownVariable name)

def addAll (t : VariableTable) (entries : List (String × Float)) :
    Except BindingError VariableTable :=
  entries.foldlM (fun t e => t.add e.1 e.2) t

def constants : List (String × Float) := [("pi", 3.141592653589793), ("e", 2.718281828459045)]

def standard : VariableTable := .ofList constants (by simp [constants]; decide)

def listing (t : VariableTable) : String :=
  if t.entries.isEmpty then "No variables added.\n"
  else String.join (t.entries.map fun e => e.1 ++ " = " ++ Numeral.display e.2 ++ "\n")

end VariableTable

end Reckoner
