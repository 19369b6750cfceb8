import Mathlib.Tactic.Lemma
import Mathlib.Tactic.Linarith
import Mathlib.Tactic.Ring
import Reckoner.Proofs.Numeral.Rounding

/-! The magnitude of a decimal lies between powers of ten. A decimal that a finite value
covers is neither too small nor too large for its magnitude to be rounded at once. -/

namespace Reckoner.Numeral

section Digits

variable (n : Nat)

lemma lt_pow_digits : n < 10 ^ (Nat.toDigits 10 n).length :=
  (Nat.length_toDigits_le_iff (by decide) Nat.length_toDigits_pos).mp (Nat.le_refl _)

variable {n}

lemma pow_digits_le (hn : 0 < n) : 10 ^ ((Nat.toDigits 10 n).length - 1) ≤ n := by
  by_cases hone : (Nat.toDigits 10 n).length = 1
  · rw [hone]
    exact hn
  · have hpos : 0 < (Nat.toDigits 10 n).length := Nat.length_toDigits_pos
    by_contra hlt
    have hle := (Nat.length_toDigits_le_iff (b := 10) (by decide) (by omega)).mpr (Nat.not_le.mp hlt)
    omega

lemma length_toDigits_mul_pow (hn : 0 < n) (k : Nat) :
    (Nat.toDigits 10 (n * 10 ^ k)).length = (Nat.toDigits 10 n).length + k := by
  induction k with
  | zero => rw [Nat.pow_zero, Nat.mul_one, Nat.add_zero]
  | succ k ih =>
    have hpos : 0 < n * 10 ^ k := Nat.mul_pos hn (Nat.pow_pos (by decide))
    have happend := Nat.toDigits_append_toDigits (b := 10) (by decide) hpos (by decide : 0 < 10)
    have hsucc : n * 10 ^ (k + 1) = 10 * (n * 10 ^ k) + 0 := by ring
    rw [hsucc, ← happend, List.length_append, ih, Nat.toDigits_zero]
    rfl

end Digits

namespace Decimal

variable (d : Decimal)

lemma num_lt : d.num * 10 ^ (-d.magnitude).toNat < 10 ^ d.magnitude.toNat * d.den := by
  have hc := lt_pow_digits d.coefficient
  have hexp : (Nat.toDigits 10 d.coefficient).length + d.exponent.toNat + (-d.magnitude).toNat =
      d.magnitude.toNat + (-d.exponent).toNat := by
    rw [magnitude]
    omega
  have hpos : 0 < 10 ^ d.exponent.toNat * 10 ^ (-d.magnitude).toNat :=
    Nat.mul_pos (Nat.pow_pos (by decide)) (Nat.pow_pos (by decide))
  calc d.num * 10 ^ (-d.magnitude).toNat
      = d.coefficient * (10 ^ d.exponent.toNat * 10 ^ (-d.magnitude).toNat) := Nat.mul_assoc _ _ _
    _ < 10 ^ (Nat.toDigits 10 d.coefficient).length *
        (10 ^ d.exponent.toNat * 10 ^ (-d.magnitude).toNat) := Nat.mul_lt_mul_of_pos_right hc hpos
    _ = 10 ^ ((Nat.toDigits 10 d.coefficient).length + d.exponent.toNat + (-d.magnitude).toNat) := by
      ring
    _ = 10 ^ d.magnitude.toNat * d.den := by
      rw [hexp, Nat.pow_add]
      rfl

variable {d}

lemma le_num (hd : 0 < d.coefficient) :
    10 ^ (d.magnitude - 1).toNat * d.den ≤ d.num * 10 ^ (1 - d.magnitude).toNat := by
  have hc := pow_digits_le hd
  have hlength : 0 < (Nat.toDigits 10 d.coefficient).length := Nat.length_toDigits_pos
  have hexp : (d.magnitude - 1).toNat + (-d.exponent).toNat =
      (Nat.toDigits 10 d.coefficient).length - 1 + d.exponent.toNat + (1 - d.magnitude).toNat := by
    rw [magnitude]
    omega
  calc 10 ^ (d.magnitude - 1).toNat * d.den
      = 10 ^ ((d.magnitude - 1).toNat + (-d.exponent).toNat) := (Nat.pow_add _ _ _).symm
    _ = 10 ^ ((Nat.toDigits 10 d.coefficient).length - 1) *
        (10 ^ d.exponent.toNat * 10 ^ (1 - d.magnitude).toNat) := by
      rw [hexp]
      ring
    _ ≤ d.coefficient * (10 ^ d.exponent.toNat * 10 ^ (1 - d.magnitude).toNat) :=
      Nat.mul_le_mul_right _ hc
    _ = d.num * 10 ^ (1 - d.magnitude).toNat := (Nat.mul_assoc _ _ _).symm

end Decimal

namespace Binary

variable {b : Binary} {d : Decimal}

lemma pow_two_lt {k n : Nat} (hn : 0 < n) (hk : k ≤ 3 * n) : 2 ^ k < 10 ^ n := by
  calc 2 ^ k ≤ 2 ^ (3 * n) := Nat.pow_le_pow_right (by decide) hk
    _ = (2 ^ 3) ^ n := pow_mul _ _ _
    _ < 10 ^ n := Nat.pow_lt_pow_left (by decide) (Nat.ne_of_gt hn)

lemma four_mul_pow (k : Nat) : 4 * 2 ^ k = 2 ^ (2 + k) := by
  rw [pow_add]
  norm_num

lemma quarters_eq : quarters = 2 ^ (2 + 1074) := by
  have hone : one = 2 ^ 1074 := rfl
  rw [quarters, hone]
  exact four_mul_pow 1074

lemma quarters_pos : 0 < quarters := by
  rw [quarters_eq]
  exact Nat.two_pow_pos _

lemma quarters_lt : quarters < 10 ^ 400 := by
  rw [quarters_eq]
  exact pow_two_lt (by decide) (by decide)

lemma le_of_scaled {n u e i j k : Nat} (hu : n * 2 ^ i ≤ u * e) (hle : u ≤ 2 ^ (j + k))
    (hij : j + k = 1025 + i) : n ≤ 2 ^ 1025 * e := by
  rw [hij, pow_add] at hle
  apply Nat.le_of_mul_le_mul_right _ (Nat.pow_pos (by decide) : 0 < 2 ^ i)
  calc n * 2 ^ i ≤ u * e := hu
    _ ≤ 2 ^ 1025 * 2 ^ i * e := Nat.mul_le_mul_right e hle
    _ = 2 ^ 1025 * e * 2 ^ i := by ring

section Covered

variable (hb : b.Positive) (hc : b.Covers d)

include hc in
lemma bounds_of_covers : b.lowerBound * d.den ≤ d.num * quarters ∧
    d.num * quarters ≤ b.upperBound * d.den ∧ (b.significand % 2 = 1 →
      b.lowerBound * d.den < d.num * quarters ∧ d.num * quarters < b.upperBound * d.den) := by
  unfold Covers at hc
  split_ifs at hc with heven
  · exact ⟨hc.1, hc.2, fun hodd => by omega⟩
  · exact ⟨Nat.le_of_lt hc.1, Nat.le_of_lt hc.2, fun _ => hc⟩

include hb

lemma lowerBound_pos : 0 < b.lowerBound := by
  have hs := hb.significand_pos
  apply Nat.mul_pos
  · split_ifs <;> omega
  · exact Nat.pow_pos (by decide)

lemma upperBound_le : b.upperBound ≤ 2 ^ (56 + 2045) := by
  have hs := hb.significand_lt
  have hpow : Nat.pow 2 b.scale = 2 ^ b.scale := rfl
  rw [upperBound, hpow, pow_add]
  exact Nat.mul_le_mul (by omega) (Nat.pow_le_pow_right (by decide) hb.scale_le)

include hc

lemma den_le : d.den ≤ d.num * quarters := by
  obtain ⟨hl, -, -⟩ := bounds_of_covers hc
  exact Nat.le_trans (Nat.le_mul_of_pos_left _ (lowerBound_pos hb)) hl

lemma coefficient_pos : 0 < d.coefficient := by
  have hden := Nat.lt_of_lt_of_le d.den_pos (den_le hb hc)
  apply Nat.pos_of_ne_zero
  intro hzero
  simp [Decimal.num, hzero] at hden

lemma magnitude_ge : ¬ d.magnitude < -magnitudeLimit := by
  intro hsmall
  have hlimit : magnitudeLimit = 400 := rfl
  have hlt := d.num_lt
  have hzero : d.magnitude.toNat = 0 := by omega
  rw [hzero, Nat.pow_zero, Nat.one_mul] at hlt
  have hpow : 10 ^ 400 ≤ 10 ^ (-d.magnitude).toNat := Nat.pow_le_pow_right (by decide) (by omega)
  have hquarters := Nat.le_trans (Nat.le_of_lt quarters_lt) hpow
  have hmul := Nat.mul_le_mul_left d.num hquarters
  have hden := den_le hb hc
  omega

lemma magnitude_le : ¬ magnitudeLimit < d.magnitude := by
  intro hlarge
  have hlimit : magnitudeLimit = 400 := rfl
  obtain ⟨-, hu, -⟩ := bounds_of_covers hc
  have hnum := d.le_num (coefficient_pos hb hc)
  have hzero : (1 - d.magnitude).toNat = 0 := by omega
  rw [hzero, Nat.pow_zero, Nat.mul_one] at hnum
  have hpow : 10 ^ 400 ≤ 10 ^ (d.magnitude - 1).toNat := Nat.pow_le_pow_right (by decide) (by omega)
  have hnum' : d.num ≤ 2 ^ 1025 * d.den := le_of_scaled (quarters_eq ▸ hu) (upperBound_le hb) rfl
  have htwo : 2 ^ 1025 < 10 ^ 400 := pow_two_lt (by decide) (by decide)
  have hlt := Nat.mul_lt_mul_of_pos_right (Nat.lt_of_lt_of_le htwo hpow) d.den_pos
  omega

end Covered

theorem bitsOfDecimal_of_covers (hb : b.Positive) (hlt : b.toBits < infinityBits)
    (hc : b.Covers d) : bitsOfDecimal d = b.toBits := by
  obtain ⟨hl, hu, hodd⟩ := bounds_of_covers hc
  have hcoefficient := coefficient_pos hb hc
  have hquarters : d.num * quarters = 4 * (d.num * one) := by
    rw [quarters]
    ring
  rw [hquarters] at hl hu hodd
  have hzero : ¬ (d.coefficient = 0 ∨ d.magnitude < -magnitudeLimit) :=
    not_or.mpr ⟨Nat.ne_of_gt hcoefficient, magnitude_ge hb hc⟩
  rw [bitsOfDecimal, if_neg hzero, if_neg (magnitude_le hb hc),
    toBits_ofQuotient hb d.den_pos hl hu hodd]
  exact Nat.min_eq_right (Nat.le_of_lt hlt)

end Binary

end Reckoner.Numeral
