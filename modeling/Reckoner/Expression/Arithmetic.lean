import Reckoner.Diagnostic.EvalError

/-! The operations behind the operators. A zero divisor is a fault; all else follows
floating point arithmetic. -/

namespace Reckoner.Arithmetic

def binary (operator : String) (left right : Float) : Except EvalFault Float :=
  match operator with
  | "+" => .ok (left + right)
  | "-" => .ok (left - right)
  | "*" => .ok (left * right)
  | "/" => if right == 0 then .error .divisionByZero else .ok (left / right)
  | "^" => .ok (left ^ right)
  | _ => .error (.unknownOperator operator)

/-- An unknown sign leaves its operand as it is. -/
def unary (operator : String) (x : Float) : Float :=
  match operator with
  | "-" => -x
  | "abs" => x.abs
  | _ => x

end Reckoner.Arithmetic
