import Reckoner.Numeral.Binary

/-! The 64-bit words of floating point numbers: a sign bit above a magnitude, which
is finite below the pattern of infinity and no number above it. -/

namespace Reckoner.Numeral

structure Word where
  negative : Bool
  magnitude : Nat
  deriving DecidableEq

namespace Word

def signBit : Nat := 0x8000000000000000

def notANumber : Nat := Binary.infinityBits + Binary.hiddenBit / 2

def ofFloat (x : Float) : Word :=
  let bits := x.toBits.toNat
  ⟨signBit ≤ bits, bits % signBit⟩

def toFloat (w : Word) : Float :=
  Float.ofBits (UInt64.ofNat (w.magnitude + if w.negative then signBit else 0))

end Word

end Reckoner.Numeral
