import Reckoner.Token.Category

/-! The lexemes of expressions. The first character of a lexeme decides its category;
a number and an identifier go on as far as they can. -/

namespace Reckoner.Lexeme

def isSkipped (c : Char) : Bool := c == ' ' || c == '\t' || c == '\x0c'

def isLetter (c : Char) : Bool := c.isAlpha || c == '_'

def isWordChar (c : Char) : Bool := c.isAlphanum || c == '_'

/-- The category of the lexemes that begin with a character. -/
def category? (c : Char) : Option Category :=
  if c.isDigit then some .number
  else if isLetter c then some .identifier
  else if ['(', '[', '{'].contains c then some .opening
  else if [')', ']', '}'].contains c then some .closing
  else if c == ',' then some .separator
  else if ['+', '-', '*', '/', '^', '|'].contains c then some .operator
  else none

/-- A number has at most one point, and digits may be missing after it. -/
def spanFraction : List Char → List Char × List Char
  | '.' :: cs => ('.' :: cs.takeWhile Char.isDigit, cs.dropWhile Char.isDigit)
  | cs => ([], cs)

/-- What continues a lexeme of a category after its first character, and the rest. -/
def spanTail : Category → List Char → List Char × List Char
  | .number, cs =>
    let fraction := spanFraction (cs.dropWhile Char.isDigit)
    (cs.takeWhile Char.isDigit ++ fraction.1, fraction.2)
  | .identifier, cs => (cs.takeWhile isWordChar, cs.dropWhile isWordChar)
  | _, cs => ([], cs)

theorem spanFraction_append (cs : List Char) :
    (spanFraction cs).1 ++ (spanFraction cs).2 = cs := by
  unfold spanFraction
  split <;> simp

theorem spanTail_append (category : Category) (cs : List Char) :
    (spanTail category cs).1 ++ (spanTail category cs).2 = cs := by
  unfold spanTail
  split <;> simp [spanFraction_append]

theorem length_spanTail_le (category : Category) (cs : List Char) :
    (spanTail category cs).2.length ≤ cs.length := by
  have h := congrArg List.length (spanTail_append category cs)
  simp only [List.length_append] at h
  omega

/-- A letter or underscore, then letters, digits and underscores. -/
def isIdentifier (name : String) : Bool :=
  match name.toList with
  | [] => false
  | c :: cs => isLetter c && cs.all isWordChar

end Reckoner.Lexeme
