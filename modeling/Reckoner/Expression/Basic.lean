import Reckoner.Scope.Basic
import Reckoner.Token.Basic

/-! An expression in two orders: as it was written, and with each operator behind its
operands, where no bracket is needed. -/

namespace Reckoner

structure Expression where
  source : String
  infixTokens : List Token
  postfixTokens : List Token
  deriving DecidableEq

namespace Expression

def postfixText (e : Expression) : String :=
  "RPN: [ " ++ String.join (e.postfixTokens.map (·.postfixSymbol ++ " ")) ++ "]"

def infixText (e : Expression) : String := " ".intercalate (e.infixTokens.map (·.text))

def substitute (scope : Scope) (t : Token) : String :=
  if t.category = .variableName then (scope.value? t.text).elim t.text Numeral.display
  else t.text

def substitutedText (e : Expression) (scope : Scope) : String :=
  " ".intercalate (e.infixTokens.map (substitute scope))

end Expression

end Reckoner
