import Reckoner.Numeral.Binary

/-! The decimal that names a binary value: among those that round to the value, one
with the fewest digits, and among these the nearest. On each decimal grid only the
two neighbours of the value have to be tried, since the decimals that round to the
value form an interval around it. -/

namespace Reckoner.Numeral

namespace Binary

/-- The midpoint below the value, in quarter units. The gap below a power of two is half
the gap above it. -/
def lowerBound (b : Binary) : Nat :=
  let gap := if b.significand = hiddenBit ∧ 0 < b.scale then 1 else 2
  (4 * b.significand - gap) * Nat.pow 2 b.scale

def value (b : Binary) : Nat := 4 * b.significand * Nat.pow 2 b.scale

def upperBound (b : Binary) : Nat := (4 * b.significand + 2) * Nat.pow 2 b.scale

def quarters : Nat := 4 * one

/-- The decimals that round to the value. The ends belong to the even significand. -/
def Covers (b : Binary) (d : Decimal) : Prop :=
  if b.significand % 2 = 0 then
    b.lowerBound * d.den ≤ d.num * quarters ∧ d.num * quarters ≤ b.upperBound * d.den
  else
    b.lowerBound * d.den < d.num * quarters ∧ d.num * quarters < b.upperBound * d.den

instance (b : Binary) (d : Decimal) : Decidable (b.Covers d) := by
  unfold Covers
  infer_instance

/-- The multiple of `10 ^ exponent` at or below the value. -/
def floorOn (b : Binary) (exponent : Int) : Decimal :=
  ⟨b.value * Nat.pow 10 (-exponent).toNat / (quarters * Nat.pow 10 exponent.toNat), exponent⟩

/-- The better of the value's two neighbours on a grid. A value halfway between them
takes the upper one. -/
def nearestOn? (b : Binary) (exponent : Int) : Option Decimal :=
  let lower := b.floorOn exponent
  let upper : Decimal := ⟨lower.coefficient + 1, exponent⟩
  let belowMiddle := 2 * b.value * lower.den < (lower.num + upper.num) * quarters
  if b.Covers lower ∧ (belowMiddle ∨ ¬ b.Covers upper) then some lower
  else if b.Covers upper then some upper
  else none

theorem covers_of_nearestOn? {b : Binary} {exponent : Int} {d : Decimal}
    (h : b.nearestOn? exponent = some d) : b.Covers d := by
  unfold nearestOn? at h
  dsimp only at h
  split at h
  · simp_all
  · split at h <;> simp_all

def magnitude (b : Binary) : Int :=
  (⟨b.value * Nat.pow 10 324 / quarters, -324⟩ : Decimal).magnitude

/-- Seventeen digits tell any two values apart. -/
def digitLimit : Nat := 17

/-- The grids are tried from the coarsest on, the first one too coarse to have a
digit of the value. -/
def shortest (b : Binary) : Decimal :=
  let grids := (List.range (digitLimit + 1)).map fun (n : Nat) => b.magnitude - n
  (grids.findSome? b.nearestOn?).getD (b.floorOn (b.magnitude - digitLimit))

end Binary

end Reckoner.Numeral
