/-! The parts that a token can play in an expression, and which of them may stand
next to each other. An identifier or an operator sign gets its part from its
surroundings; until then its category is provisional. What may follow depends on
whether an operand is due or has just ended. -/

namespace Reckoner

inductive Category
  | start
  | finish
  | number
  | opening
  | closing
  | separator
  | binary
  | unary
  | variableName
  | functionName
  | identifier
  | operator
  deriving DecidableEq

namespace Category

def all : List Category :=
  [start, finish, number, opening, closing, separator, binary, unary, variableName, functionName,
    identifier, operator]

def index (c : Category) : Nat := c.ctorIdx

def display : Category → String
  | start => "start of expression"
  | finish => "end of expression"
  | number => "number"
  | opening => "opening bracket"
  | closing => "closing bracket"
  | separator => "separator"
  | binary => "binary operator"
  | unary => "unary operator"
  | variableName => "variable"
  | functionName => "function"
  | identifier => "identifier"
  | operator => "operator"

def isProvisional : Category → Bool
  | identifier | operator => true
  | _ => false

def awaitsOperand : Category → Bool
  | start | opening | binary | unary => true
  | _ => false

def endsOperand : Category → Bool
  | number | closing | variableName => true
  | _ => false

def beginsOperand : Category → Bool
  | number | opening | unary | variableName | functionName => true
  | _ => false

def continuesOperand : Category → Bool
  | finish | closing | binary => true
  | _ => false

/-- A sign after these is in front of its operand. -/
def admitsPrefix (c : Category) : Bool := c.awaitsOperand || c == separator

/-- Where an operand is due one begins, behind an operand the expression goes on, and
a function is called. Nothing may stand next to a separator. -/
def canFollow (previous next : Category) : Bool :=
  previous.awaitsOperand && next.beginsOperand
    || previous.endsOperand && next.continuesOperand
    || previous == functionName && next == opening

def followers (c : Category) : List Category := all.filter c.canFollow

end Category

end Reckoner
