/-! Decimal fractions `coefficient · 10 ^ exponent`, and their digits written out
without an exponent. -/

namespace Reckoner.Numeral

structure Decimal where
  coefficient : Nat
  exponent : Int
  deriving DecidableEq

namespace Decimal

/-- The value is `num / den`. -/
def num (d : Decimal) : Nat := d.coefficient * Nat.pow 10 d.exponent.toNat

def den (d : Decimal) : Nat := Nat.pow 10 (-d.exponent).toNat

theorem den_pos (d : Decimal) : 0 < d.den := Nat.pow_pos (by decide)

/-- The exponent of the least power of ten above the value. -/
def magnitude (d : Decimal) : Int := (Nat.toDigits 10 d.coefficient).length + d.exponent

def positional (d : Decimal) : List Char :=
  let digits := Nat.toDigits 10 d.coefficient
  let places := (-d.exponent).toNat
  let whole := digits.length - places
  if places = 0 then digits ++ List.replicate d.exponent.toNat '0'
  else if whole = 0 then '0' :: '.' :: (List.replicate (places - digits.length) '0' ++ digits)
  else digits.take whole ++ '.' :: digits.drop whole

end Decimal

end Reckoner.Numeral
