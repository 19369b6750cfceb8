import Reckoner.Diagnostic.Pointer

/-! Why an expression has no value. A fault of one token has a position; the two
faults of a whole sequence have none. -/

namespace Reckoner

inductive EvalFault
  | unknownVariable (name : String)
  | unknownFunction (name : String)
  | missingOperand (symbol : String)
  | divisionByZero
  | unknownOperator (operator : String)
  | invalidNumber (literal : String)
  | unexpectedToken (lexeme : String)
  /-- A function that has no value at its argument. -/
  | domain (function reason : String)
  deriving DecidableEq

inductive EvalError
  | atToken (fault : EvalFault) (pointer : Pointer)
  | extraOperands (count : Nat)
  | emptyResult
  deriving DecidableEq

def EvalFault.message : EvalFault → String
  | unknownVariable name => s!"Unknown variable '{name}'."
  | unknownFunction name => s!"Unknown function '{name}'."
  | missingOperand symbol => s!"Missing operand for '{symbol}'."
  | divisionByZero => "Division by zero."
  | unknownOperator operator => s!"Unknown operator '{operator}'."
  | invalidNumber literal => s!"Invalid number literal '{literal}'."
  | unexpectedToken lexeme => s!"Unexpected token '{lexeme}' in postfix sequence."
  | domain function reason => s!"Function '{function}' failed: {reason}."

namespace EvalError

def pointer? : EvalError → Option Pointer
  | atToken _ pointer => some pointer
  | extraOperands _ | emptyResult => none

def message : EvalError → String
  | atToken fault pointer => fault.message ++ "\n" ++ pointer.render
  | extraOperands count =>
    s!"Extra operands left on the stack ({count} values instead of one); " ++
      "the expression structure is invalid."
  | emptyResult => "Empty expression result."

end EvalError

end Reckoner
