import Reckoner.Diagnostic.Error
import Reckoner.Expression.Parse
import Reckoner.Expression.Replay

/-! The value of a source in a scope, in one go. -/

namespace Reckoner

def Scope.evaluate (scope : Scope) (source : String) : Logged Error Float := do
  let e ← (Expression.parse scope source).mapError .parse
  (e.calculate scope).mapError .eval

def evaluate (source : String) : Logged Error Float := Scope.standard.evaluate source

end Reckoner
