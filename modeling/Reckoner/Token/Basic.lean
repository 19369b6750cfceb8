import Reckoner.Token.Category

/-! Tokens: a piece of the source with its category and the byte at which it starts. -/

namespace Reckoner

structure Token where
  category : Category
  text : String
  offset : Nat
  deriving DecidableEq

namespace Token

def resolve (t : Token) (category : Category) : Token := { t with category }

/-- The first character, or the null character of an empty text. -/
def firstChar (t : Token) : Char := t.text.toList.headD '\x00'

/-- Negation in a sequence without brackets, where a bare minus sign is subtraction. -/
def negationSymbol : String := "u-"

def postfixSymbol (t : Token) : String :=
  if t.category = .unary ∧ t.text = "-" then negationSymbol else t.text

/-- How tightly an operator holds its operands. -/
def precedence (t : Token) : Nat :=
  match t.category with
  | .functionName => 5
  | .unary => 4
  | .binary =>
    if t.text = "^" then 3
    else if t.text = "*" ∨ t.text = "/" then 2
    else if t.text = "+" ∨ t.text = "-" then 1
    else 0
  | _ => 0

def isRightAssociative (t : Token) : Bool := t.category == .unary || t.text == "^"

end Token

/-- The sign `|` closes what it opens. -/
def isMatchingPair (opening closing : Char) : Bool :=
  [('(', ')'), ('[', ']'), ('{', '}'), ('|', '|')].contains (opening, closing)

end Reckoner
