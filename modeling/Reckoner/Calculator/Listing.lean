import Reckoner.Calculator.Basic

/-! What a calculator holds, as text in three sections. Expressions are numbered from
one. -/

namespace Reckoner.Calculator

def variablesListing (c : Calculator) : String :=
  "=== VARIABLES ===\n" ++ c.variableTable.listing

def functionsListing (c : Calculator) : String :=
  "=== FUNCTIONS ===\n" ++ c.functionTable.listing

def expressionLine (e : Expression) (number : Nat) : String := s!"{number}. {e.infixText}\n"

def expressionsListing (c : Calculator) : String :=
  "=== EXPRESSIONS ===\n" ++
    if c.expressions.isEmpty then "No expressions added.\n"
    else String.join ((c.expressions.zipIdx 1).map fun e => expressionLine e.1 e.2)

def listing (c : Calculator) : String :=
  c.variablesListing ++ "\n" ++ c.functionsListing ++ "\n" ++ c.expressionsListing

end Reckoner.Calculator
