import Reckoner.Numeral.Word

/-! Numbers read from text: an optional sign before a name for infinity or no number,
or before decimal digits with at most one point and an optional exponent. There is at
least one digit before the exponent, on either side of the point. -/

namespace Reckoner.Numeral

inductive ReadFault
  | empty
  | malformed
  deriving DecidableEq

def ReadFault.message : ReadFault → String
  | .empty => "cannot parse float from empty string"
  | .malformed => "invalid float literal"

def splitSign : List Char → Bool × List Char
  | '-' :: cs => (true, cs)
  | '+' :: cs => (false, cs)
  | cs => (false, cs)

def readNatural? (cs : List Char) : Option Nat :=
  if !cs.isEmpty && cs.all Char.isDigit then some (Nat.ofDigitChars 10 cs 0) else none

def readExponent? : List Char → Option Int
  | [] => some 0
  | mark :: cs =>
    if mark = 'e' ∨ mark = 'E' then
      let (negative, cs) := splitSign cs
      (readNatural? cs).map fun (n : Nat) => if negative then -n else n
    else none

def splitFraction : List Char → List Char × List Char
  | '.' :: cs => cs.span Char.isDigit
  | cs => ([], cs)

def readDecimal? (cs : List Char) : Option Decimal := do
  let (whole, cs) := cs.span Char.isDigit
  let (fraction, cs) := splitFraction cs
  let coefficient ← readNatural? (whole ++ fraction)
  let exponent ← readExponent? cs
  return ⟨coefficient, exponent - fraction.length⟩

def readName? (cs : List Char) : Option Nat :=
  let name := String.ofList (cs.map Char.toLower)
  if name = "inf" ∨ name = "infinity" then some Binary.infinityBits
  else if name = "nan" then some Word.notANumber
  else none

def readWord? (cs : List Char) : Option Word :=
  let (negative, cs) := splitSign cs
  ((readName? cs).or ((readDecimal? cs).map Binary.bitsOfDecimal)).map (Word.mk negative)

def read (text : String) : Except ReadFault Float :=
  if text.toList.isEmpty then .error .empty
  else
    match readWord? text.toList with
    | some w => .ok w.toFloat
    | none => .error .malformed

end Reckoner.Numeral
