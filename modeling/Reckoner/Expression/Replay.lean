import Reckoner.Expression.Arithmetic
import Reckoner.Expression.Basic
import Reckoner.Journal.Logged
import Reckoner.Numeral.Reader

/-! The value of tokens in the order of evaluation. Each token takes its operands from
a stack of values and leaves one value there. Names are looked up when they are
reached. -/

namespace Reckoner

namespace Token

def eval (scope : Scope) (t : Token) (stack : List Float) : Except EvalFault (Float × List Float) :=
  match t.category, stack with
  | .number, stack =>
    match Numeral.read t.text with
    | .ok x => .ok (x, stack)
    | .error _ => .error (.invalidNumber t.text)
  | .variableName, stack =>
    match scope.value? t.text with
    | some x => .ok (x, stack)
    | none => .error (.unknownVariable t.text)
  | .functionName, x :: stack =>
    match scope.function? t.text with
    | none => .error (.unknownFunction t.text)
    | some f =>
      match f x with
      | .ok y => .ok (y, stack)
      | .error e => .error (.domain t.text e.reason)
  | .unary, x :: stack => .ok (Arithmetic.unary t.text x, stack)
  | .binary, right :: left :: stack => (Arithmetic.binary t.text left right).map (·, stack)
  | .functionName, _ | .unary, _ | .binary, _ => .error (.missingOperand t.postfixSymbol)
  | _, _ => .error (.unexpectedToken t.text)

def replayStep (scope : Scope) (source : String) (stack : List Float) (t : Token) :
    Logged EvalError (List Float) := do
  let (x, rest) ← .ofExcept ((t.eval scope stack).mapError (.atToken · ⟨source, t.offset⟩))
  .record (.computed t.postfixSymbol x)
  return x :: rest

end Token

def singleValue : List Float → Except EvalError Float
  | [x] => .ok x
  | [] => .error .emptyResult
  | stack => .error (.extraOperands stack.length)

def replay (scope : Scope) (source : String) (tokens : List Token) : Logged EvalError Float := do
  let stack ← tokens.foldlM (Token.replayStep scope source) []
  .ofExcept (singleValue stack)

def Expression.calculate (e : Expression) (scope : Scope) : Logged EvalError Float :=
  replay scope e.source e.postfixTokens

end Reckoner
