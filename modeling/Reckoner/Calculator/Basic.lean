import Reckoner.Diagnostic.Error
import Reckoner.Expression.Parse
import Reckoner.Expression.Replay

/-! A calculator keeps variables, functions and a numbered list of expressions. The
expressions are read once, when they are added, and see the current values whenever
they are calculated. An operation that fails has no new calculator. -/

namespace Reckoner

structure Calculator where
  variableTable : VariableTable
  functionTable : FunctionTable
  expressions : List Expression

namespace Calculator

def ofTables (values : VariableTable) (functions : FunctionTable) : Calculator :=
  ⟨values, functions, []⟩

def standard : Calculator := ofTables .standard .standard

def scope (c : Calculator) : Scope := .ofTables c.variableTable c.functionTable

def addVariable (c : Calculator) (name : String) (value : Float) : Logged Error Calculator := do
  let table ← .ofExcept ((c.variableTable.add name value).mapError .binding)
  .record (.variableAdded name value)
  return { c with variableTable := table }

def removeVariable (c : Calculator) (name : String) : Logged Error (Float × Calculator) := do
  let (value, table) ← .ofExcept ((c.variableTable.remove name).mapError .binding)
  .record (.variableRemoved name)
  return (value, { c with variableTable := table })

def addFunction (c : Calculator) (name : String) (function : UnaryFunction) :
    Logged Error Calculator := do
  let table ← .ofExcept ((c.functionTable.add name function).mapError .binding)
  .record (.functionAdded name)
  return { c with functionTable := table }

def addExpression (c : Calculator) (source : String) : Logged Error (Nat × Calculator) := do
  let e ← (Expression.parse c.scope source).mapError .parse
  let index := c.expressions.length
  .record (.expressionAdded index source)
  return (index, { c with expressions := c.expressions ++ [e] })

def expression (c : Calculator) (index : Nat) : Except Error Expression :=
  match c.expressions[index]? with
  | some e => .ok e
  | none => .error (.indexOutOfRange index c.expressions.length)

/-- The expressions behind the removed one move down. -/
def removeExpression (c : Calculator) (index : Nat) : Logged Error (Expression × Calculator) := do
  let e ← .ofExcept (c.expression index)
  .record (.expressionRemoved index e.source)
  return (e, { c with expressions := c.expressions.eraseIdx index })

def calculate (c : Calculator) (index : Nat) : Logged Error Float := do
  let e ← .ofExcept (c.expression index)
  (e.calculate c.scope).mapError .eval

def calculateAll (c : Calculator) : Logged Error (List (Except Error Float)) :=
  (List.range c.expressions.length).mapM fun index => (c.calculate index).attempt

end Calculator

end Reckoner
