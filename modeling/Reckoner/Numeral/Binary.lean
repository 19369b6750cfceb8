import Reckoner.Numeral.Decimal

/-! Nonnegative finite values of the 64-bit binary format. A value is
`significand · 2 ^ scale` in units of `2 ^ (-1074)`, and its bit pattern is
`scale · 2 ^ 52 + significand`: the implicit leading bit of a normal significand
carries into the exponent field. -/

namespace Reckoner.Numeral

structure Binary where
  significand : Nat
  scale : Nat
  deriving DecidableEq

namespace Binary

/-- The leading bit of a normal significand. -/
def hiddenBit : Nat := 0x10000000000000

def toBits (b : Binary) : Nat := b.scale * hiddenBit + b.significand

def ofBits (bits : Nat) : Binary :=
  if bits < hiddenBit then ⟨bits, 0⟩
  else ⟨bits % hiddenBit + hiddenBit, bits / hiddenBit - 1⟩

theorem toBits_ofBits (bits : Nat) : (ofBits bits).toBits = bits := by
  unfold ofBits toBits hiddenBit
  split <;> simp only <;> omega

/-- The pattern of infinity, just above that of the largest finite value. -/
def infinityBits : Nat := 0x7FF * hiddenBit

/-- Units in one. -/
def one : Nat := Nat.pow 2 1074

/-- The quotient rounded to the nearest integer, a half to the even one. -/
def roundQuotient (n d : Nat) : Nat :=
  let q := n / d
  let r := n % d
  if 2 * r < d ∨ (2 * r = d ∧ q % 2 = 0) then q else q + 1

/-- The value nearest to `n / d` units: the least scale that leaves at most 53 bits
of significand, and the significand rounded on it. A significand rounded up to
`2 ^ 53` is the least one of the next scale. -/
def ofQuotient (n d : Nat) : Binary :=
  let scale := (n / d).log2 - 52
  ⟨roundQuotient n (d * Nat.pow 2 scale), scale⟩

/-- Every decimal with a larger magnitude exceeds the finite values, and every one
below its opposite rounds to zero. -/
def magnitudeLimit : Int := 400

def bitsOfDecimal (d : Decimal) : Nat :=
  if d.coefficient = 0 ∨ d.magnitude < -magnitudeLimit then 0
  else if magnitudeLimit < d.magnitude then infinityBits
  else min infinityBits (ofQuotient (d.num * one) d.den).toBits

end Binary

end Reckoner.Numeral
