import Reckoner.Numeral.Shortest
import Reckoner.Numeral.Word

/-! The text of a number: the shortest digits that name it, in positional notation
however large or small it is. Zero keeps its sign and no number has none. -/

namespace Reckoner.Numeral

def Word.display (w : Word) : List Char :=
  let sign := if w.negative then ['-'] else []
  if Binary.infinityBits < w.magnitude then ['N', 'a', 'N']
  else if w.magnitude = Binary.infinityBits then sign ++ ['i', 'n', 'f']
  else if w.magnitude = 0 then sign ++ ['0']
  else sign ++ (Binary.ofBits w.magnitude).shortest.positional

def display (x : Float) : String := String.ofList (Word.ofFloat x).display

end Reckoner.Numeral
