import Std.Data.HashMap
import Reckoner.Scope.Functions
import Reckoner.Scope.Variables

/-! What an expression can see of its surroundings: which names stand for numbers and
which for functions. It does not matter how they are kept. -/

namespace Reckoner

structure Scope where
  value? : String → Option Float
  function? : String → Option UnaryFunction

namespace Scope

def ofTables (values : VariableTable) (functions : FunctionTable) : Scope :=
  ⟨values.get?, functions.get?⟩

def ofMaps (values : Std.HashMap String Float) (functions : Std.HashMap String UnaryFunction) :
    Scope :=
  ⟨values.get?, functions.get?⟩

def standard : Scope := ofTables VariableTable.standard FunctionTable.standard

end Scope

end Reckoner
