import Reckoner.Diagnostic.ParseError
import Reckoner.Diagnostic.EvalError

/-! The failures of a calculator and of its tables. -/

namespace Reckoner

inductive BindingError
  | invalidName (name : String)
  | functionAlreadyDefined (name : String)
  | unknownVariable (name : String)
  | unknownFunction (name : String)
  deriving DecidableEq

def BindingError.message : BindingError → String
  | invalidName name => s!"'{name}' is not a valid identifier."
  | functionAlreadyDefined name => s!"Function '{name}' is already defined."
  | unknownVariable name => s!"Variable '{name}' not found."
  | unknownFunction name => s!"Function '{name}' not found."

inductive Error
  | parse (error : ParseError)
  | eval (error : EvalError)
  | binding (error : BindingError)
  | indexOutOfRange (index count : Nat)
  deriving DecidableEq

namespace Error

def message : Error → String
  | parse error => error.message
  | eval error => error.message
  | binding error => error.message
  | indexOutOfRange index count =>
    s!"Expression index out of range: {index} (there are {count} expressions)."

def pointer? : Error → Option Pointer
  | parse error => some error.pointer
  | eval error => error.pointer?
  | binding _ | indexOutOfRange _ _ => none

end Error

end Reckoner
