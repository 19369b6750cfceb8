import Reckoner.Proofs.Numeral.Magnitude

/-! Seventeen digits name every value: the grid of the last of them is finer than the gap
between the bounds, so that one of the two neighbours on it lies within. -/

namespace Reckoner.Numeral.Binary

variable {b : Binary}

section Gap

lemma value_lt_upperBound : b.value < b.upperBound :=
  Nat.mul_lt_mul_of_pos_right (Nat.lt_add_of_pos_right (by decide)) (Nat.pow_pos (by decide))

variable (hb : b.Positive)
include hb

lemma lowerBound_lt_value : b.lowerBound < b.value := by
  have hs := hb.significand_pos
  apply Nat.mul_lt_mul_of_pos_right _ (Nat.pow_pos (by decide))
  split_ifs <;> omega

lemma four_le_value : 4 ≤ b.value := by
  have hs := hb.significand_pos
  have hpow : 0 < Nat.pow 2 b.scale := Nat.pow_pos (by decide)
  calc 4 = 4 * 1 * 1 := rfl
    _ ≤ 4 * b.significand * Nat.pow 2 b.scale := Nat.mul_le_mul (Nat.mul_le_mul_left 4 hs) hpow

lemma value_lt_gap : b.value < 10 ^ 16 * (b.upperBound - b.lowerBound) := by
  have hs := hb.significand_pos
  have hlt := hb.significand_lt
  have hhidden : hiddenBit = 2 ^ 52 := rfl
  have hpow : 0 < Nat.pow 2 b.scale := Nat.pow_pos (by decide)
  unfold value upperBound lowerBound
  rw [← Nat.sub_mul, ← Nat.mul_assoc]
  apply Nat.mul_lt_mul_of_pos_right _ hpow
  -- a power of two has the narrower gap and the least significand
  split_ifs <;> omega

end Gap

section Grid

variable {exponent : Int}

lemma covers_of_lt {c : Nat}
    (hl : b.lowerBound * 10 ^ (-exponent).toNat < c * (quarters * 10 ^ exponent.toNat))
    (hu : c * (quarters * 10 ^ exponent.toNat) < b.upperBound * 10 ^ (-exponent).toNat) :
    b.Covers ⟨c, exponent⟩ := by
  have hnum : (⟨c, exponent⟩ : Decimal).num * quarters = c * (quarters * 10 ^ exponent.toNat) := by
    have hpow : Nat.pow 10 exponent.toNat = 10 ^ exponent.toNat := rfl
    rw [Decimal.num, hpow]
    ring
  have hden : (⟨c, exponent⟩ : Decimal).den = 10 ^ (-exponent).toNat := rfl
  rw [Covers]
  rw [hnum, hden]
  split_ifs
  · exact ⟨Nat.le_of_lt hl, Nat.le_of_lt hu⟩
  · exact ⟨hl, hu⟩

lemma lt_succ_div_mul (n : Nat) {d : Nat} (hd : 0 < d) : n < (n / d + 1) * d := by
  rw [Nat.mul_comm]
  exact Nat.lt_mul_div_succ n hd

lemma floorOn_spec (b : Binary) (exponent : Int) : ∃ c, b.floorOn exponent = ⟨c, exponent⟩ ∧
    c * (quarters * 10 ^ exponent.toNat) ≤ b.value * 10 ^ (-exponent).toNat ∧
    b.value * 10 ^ (-exponent).toNat < (c + 1) * (quarters * 10 ^ exponent.toNat) := by
  have hpos : 0 < quarters * 10 ^ exponent.toNat :=
    Nat.mul_pos quarters_pos (Nat.pow_pos (by decide))
  have hpow (i : Nat) : Nat.pow 10 i = 10 ^ i := rfl
  refine ⟨b.value * 10 ^ (-exponent).toNat / (quarters * 10 ^ exponent.toNat), ?_,
    Nat.div_mul_le_self _ _, lt_succ_div_mul _ hpos⟩
  rw [floorOn, hpow, hpow]

lemma isSome_nearestOn? {c : Nat} (hc : b.floorOn exponent = ⟨c, exponent⟩)
    (h : b.Covers ⟨c, exponent⟩ ∨ b.Covers ⟨c + 1, exponent⟩) :
    (b.nearestOn? exponent).isSome := by
  unfold nearestOn?
  dsimp only
  rw [hc]
  split_ifs with hlower hupper
  · rfl
  · rfl
  · exact absurd ⟨h.resolve_right hupper, .inr hupper⟩ hlower

lemma isSome_nearestOn?_of_lt (hb : b.Positive)
    (hgrid : quarters * 10 ^ exponent.toNat <
      (b.upperBound - b.lowerBound) * 10 ^ (-exponent).toNat) :
    (b.nearestOn? exponent).isSome := by
  have hscale : 0 < 10 ^ (-exponent).toNat := Nat.pow_pos (by decide)
  have hlower := Nat.mul_lt_mul_of_pos_right (lowerBound_lt_value hb) hscale
  have hupper := Nat.mul_lt_mul_of_pos_right (value_lt_upperBound (b := b)) hscale
  obtain ⟨c, hc, hle, hlt⟩ := b.floorOn_spec exponent
  have hstep := Nat.add_mul c 1 (quarters * 10 ^ exponent.toNat)
  rw [Nat.sub_mul] at hgrid
  apply isSome_nearestOn? hc
  -- both neighbours lie outside the bounds only where the grid is as wide as the gap
  by_cases hbelow : b.lowerBound * 10 ^ (-exponent).toNat < c * (quarters * 10 ^ exponent.toNat)
  · exact .inl (covers_of_lt hbelow (Nat.lt_of_le_of_lt hle hupper))
  · exact .inr (covers_of_lt (Nat.lt_trans hlower hlt) (by omega))

end Grid

section Digits

lemma quarters_le : quarters ≤ 4 * 10 ^ 324 := by
  have hone : one = 2 ^ (93 * 11 + 51) := rfl
  rw [quarters, hone]
  apply Nat.mul_le_mul_left
  calc 2 ^ (93 * 11 + 51) = (2 ^ 93) ^ 11 * 2 ^ 51 := by rw [pow_add, pow_mul]
    _ ≤ (10 ^ 28) ^ 11 * 10 ^ 16 :=
      Nat.mul_le_mul (Nat.pow_le_pow_left (by decide) 11) (by decide)
    _ = 10 ^ (28 * 11 + 16) := by rw [pow_add, pow_mul]

variable (hb : b.Positive)
include hb

/-- The digits of the value in units of `10 ^ (-324)`, where the least value has one. -/
lemma exists_length : ∃ length : Nat, 0 < length ∧ b.magnitude - digitLimit = length - 341 ∧
    10 ^ (length - 1) * quarters ≤ b.value * 10 ^ 324 := by
  have hfirst : 0 < b.value * 10 ^ 324 / quarters := by
    apply Nat.div_pos _ quarters_pos
    exact Nat.le_trans quarters_le (Nat.mul_le_mul_right (10 ^ 324) (four_le_value hb))
  refine ⟨_, Nat.length_toDigits_pos, ?_, (Nat.le_div_iff_mul_le quarters_pos).mp (pow_digits_le hfirst)⟩
  have hpow : Nat.pow 10 324 = 10 ^ 324 := rfl
  rw [magnitude, Decimal.magnitude, digitLimit, hpow]
  dsimp only
  omega

lemma le_value_on_grid :
    10 ^ 16 * (quarters * 10 ^ (b.magnitude - digitLimit).toNat) ≤
      b.value * 10 ^ (-(b.magnitude - digitLimit)).toNat := by
  obtain ⟨length, hlength, hmagnitude, hdigits⟩ := exists_length hb
  have hexp : length - 1 + (-(length - 341 : Int)).toNat =
      (length - 341 : Int).toNat + 16 + 324 := by
    omega
  rw [hmagnitude]
  apply Nat.le_of_mul_le_mul_right _ (Nat.pow_pos (by decide) : 0 < 10 ^ 324)
  calc 10 ^ 16 * (quarters * 10 ^ (length - 341 : Int).toNat) * 10 ^ 324
      = 10 ^ (length - 1) * quarters * 10 ^ (-(length - 341 : Int)).toNat := by
        rw [Nat.mul_right_comm (10 ^ (length - 1)), ← pow_add, hexp, pow_add, pow_add]
        ring
    _ ≤ b.value * 10 ^ 324 * 10 ^ (-(length - 341 : Int)).toNat := Nat.mul_le_mul_right _ hdigits
    _ = b.value * 10 ^ (-(length - 341 : Int)).toNat * 10 ^ 324 := Nat.mul_right_comm _ _ _

lemma exists_nearestOn? : (b.nearestOn? (b.magnitude - digitLimit)).isSome := by
  apply isSome_nearestOn?_of_lt hb
  have hscale : 0 < 10 ^ (-(b.magnitude - digitLimit)).toNat := Nat.pow_pos (by decide)
  have hgap := Nat.mul_lt_mul_of_pos_right (value_lt_gap hb) hscale
  rw [Nat.mul_assoc] at hgap
  exact Nat.lt_of_mul_lt_mul_left (Nat.lt_of_le_of_lt (le_value_on_grid hb) hgap)

theorem covers_shortest : b.Covers b.shortest := by
  have hlast : (b.magnitude - digitLimit : Int) ∈
      (List.range (digitLimit + 1)).map fun (n : Nat) => b.magnitude - n :=
    List.mem_map.mpr ⟨digitLimit, List.mem_range.mpr (Nat.lt_succ_self _), rfl⟩
  have hsome := List.findSome?_isSome_iff.mpr ⟨_, hlast, exists_nearestOn? hb⟩
  obtain ⟨d, hd⟩ := Option.isSome_iff_exists.mp hsome
  obtain ⟨exponent, -, hnearest⟩ := List.exists_of_findSome?_eq_some hd
  have hshortest : b.shortest = d := by
    unfold shortest
    dsimp only
    rw [hd, Option.getD_some]
  rw [hshortest]
  exact covers_of_nearestOn? hnearest

end Digits

end Reckoner.Numeral.Binary
