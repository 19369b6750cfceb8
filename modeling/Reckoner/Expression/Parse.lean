import Reckoner.Expression.Conversion
import Reckoner.Journal.Logged
import Reckoner.Token.Scan

/-! Expressions from their sources. Each token is classified and converted before the
next one is looked at, so that the first fault in the source is the one reported; a
character that belongs to no lexeme comes before all others. -/

namespace Reckoner

def ParseFault.locate (fault : ParseFault) (source : String) (offset : Nat) : ParseError :=
  ⟨fault, source, offset⟩

namespace Conversion

def step (scope : Scope) (source : String) (c : Conversion) (t : Token) :
    Logged ParseError Conversion := do
  let classified ← .ofExcept ((t.classify scope c.previous).mapError (·.locate source t.offset))
  .record (.shunting classified)
  .ofExcept ((c.accept classified).mapError (·.locate source t.offset))

end Conversion

namespace Expression

/-- Reads an expression without leaving a record of the whole. -/
def convert (scope : Scope) (source : String) : Logged ParseError Expression := do
  let tokens ← .ofExcept (Token.tokenize source)
  let conversion ← tokens.foldlM (Conversion.step scope source) {}
  .ofExcept (conversion.finish source)

def parse (scope : Scope) (source : String) : Logged ParseError Expression := do
  let e ← convert scope source
  .record (.parsed source e.postfixText)
  return e

end Expression

end Reckoner
