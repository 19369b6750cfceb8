import Mathlib.Tactic.Lemma
import Mathlib.Tactic.Linarith
import Mathlib.Tactic.Ring
import Mathlib.Tactic.SplitIfs
import Reckoner.Numeral.Shortest

/-! Rounding a decimal that a binary value covers gives the value. Below a power of two
the decimal is rounded on a finer scale, where it is rounded up to the power. -/

namespace Reckoner.Numeral.Binary

lemma roundQuotient_eq {n d s : Nat} (hd : 0 < d) (hl : 2 * (s * d) ≤ 2 * n + d)
    (hu : 2 * n ≤ 2 * (s * d) + d)
    (hodd : s % 2 = 1 → 2 * (s * d) < 2 * n + d ∧ 2 * n < 2 * (s * d) + d) :
    roundQuotient n d = s := by
  have hn := Nat.div_add_mod n d
  have hr := Nat.mod_lt n hd
  unfold roundQuotient
  dsimp only
  generalize n / d = q at *
  generalize n % d = r at *
  rw [Nat.mul_comm] at hn
  rcases Nat.lt_trichotomy q s with hlt | rfl | hgt
  · have hs : s = q + 1 := by
      by_contra hne
      have hmul : (q + 2) * d ≤ s * d := Nat.mul_le_mul_right d (by omega)
      rw [Nat.add_mul] at hmul
      omega
    subst hs
    rw [Nat.add_mul, Nat.one_mul] at *
    rw [if_neg (by omega)]
  · rw [if_pos (by omega)]
  · exfalso
    have hmul : (s + 1) * d ≤ q * d := Nat.mul_le_mul_right d hgt
    rw [Nat.add_mul, Nat.one_mul] at hmul
    omega

/-- A value below infinity other than zero, with as large a significand as its scale
demands. -/
structure Positive (b : Binary) : Prop where
  significand_pos : 0 < b.significand
  significand_lt : b.significand < 2 ^ 53
  scale_le : b.scale ≤ 2045
  normal : b.scale = 0 ∨ 2 ^ 52 ≤ b.significand

lemma positive_ofBits {bits : Nat} (hpos : 0 < bits) (hlt : bits < infinityBits) :
    (ofBits bits).Positive := by
  have hinf : infinityBits = 2047 * 2 ^ 52 := rfl
  have hhidden : hiddenBit = 2 ^ 52 := rfl
  rw [ofBits, hhidden]
  split_ifs with h
  · exact ⟨hpos, by simp only; omega, Nat.zero_le _, .inl rfl⟩
  · refine ⟨?_, ?_, ?_, .inr ?_⟩ <;> simp only <;> omega

variable {b : Binary} {n d : Nat}

lemma ofQuotient_eq (hd : 0 < d) (hscale : (n / d).log2 - 52 = b.scale)
    (hl : 2 * (b.significand * (d * 2 ^ b.scale)) ≤ 2 * n + d * 2 ^ b.scale)
    (hu : 2 * n ≤ 2 * (b.significand * (d * 2 ^ b.scale)) + d * 2 ^ b.scale)
    (hodd : b.significand % 2 = 1 →
      2 * (b.significand * (d * 2 ^ b.scale)) < 2 * n + d * 2 ^ b.scale ∧
        2 * n < 2 * (b.significand * (d * 2 ^ b.scale)) + d * 2 ^ b.scale) :
    ofQuotient n d = b := by
  have hpow : Nat.pow 2 b.scale = 2 ^ b.scale := rfl
  simp only [ofQuotient, hscale, hpow]
  rw [roundQuotient_eq (Nat.mul_pos hd (Nat.two_pow_pos _)) hl hu hodd]

section Bounds

variable (b d)

lemma upperBound_mul : b.upperBound * d =
    4 * (b.significand * (d * 2 ^ b.scale)) + 2 * (d * 2 ^ b.scale) := by
  have hpow : Nat.pow 2 b.scale = 2 ^ b.scale := rfl
  rw [upperBound, hpow]
  ring

variable {b}

lemma lowerBound_power (h : b.significand = hiddenBit ∧ 0 < b.scale) :
    b.lowerBound * d + d * 2 ^ b.scale = 4 * (b.significand * (d * 2 ^ b.scale)) := by
  have hpow : Nat.pow 2 b.scale = 2 ^ b.scale := rfl
  have hs : 4 * b.significand = 4 * b.significand - 1 + 1 := by
    have hhidden : hiddenBit = 2 ^ 52 := rfl
    omega
  have hlow : b.lowerBound = (4 * b.significand - 1) * 2 ^ b.scale := by
    rw [lowerBound, if_pos h, hpow]
  generalize 4 * b.significand - 1 = low at hs hlow
  calc b.lowerBound * d + d * 2 ^ b.scale = (low + 1) * (d * 2 ^ b.scale) := by rw [hlow]; ring
    _ = 4 * (b.significand * (d * 2 ^ b.scale)) := by rw [← hs]; ring

lemma lowerBound_other (hb : b.Positive) (h : ¬ (b.significand = hiddenBit ∧ 0 < b.scale)) :
    b.lowerBound * d + 2 * (d * 2 ^ b.scale) = 4 * (b.significand * (d * 2 ^ b.scale)) := by
  have hpow : Nat.pow 2 b.scale = 2 ^ b.scale := rfl
  have hs : 4 * b.significand = 4 * b.significand - 2 + 2 := by
    have := hb.significand_pos
    omega
  have hlow : b.lowerBound = (4 * b.significand - 2) * 2 ^ b.scale := by
    rw [lowerBound, if_neg h, hpow]
  generalize 4 * b.significand - 2 = low at hs hlow
  calc b.lowerBound * d + 2 * (d * 2 ^ b.scale) = (low + 2) * (d * 2 ^ b.scale) := by rw [hlow]; ring
    _ = 4 * (b.significand * (d * 2 ^ b.scale)) := by rw [← hs]; ring

end Bounds

section Scale

variable {k : Nat} (hd : 0 < d)
include hd

lemma log2_quotient (hl : 2 ^ 52 * (d * 2 ^ k) ≤ n) (hu : n < 2 ^ 53 * (d * 2 ^ k)) :
    (n / d).log2 = 52 + k := by
  have hle : 2 ^ (52 + k) ≤ n / d := by
    rw [Nat.le_div_iff_mul_le hd, Nat.pow_add]
    linarith [Nat.mul_assoc (2 ^ 52) (2 ^ k) d, Nat.mul_comm d (2 ^ k)]
  have hlt : n / d < 2 ^ (52 + k + 1) := by
    rw [Nat.div_lt_iff_lt_mul hd]
    have hpow : 2 ^ (52 + k + 1) * d = 2 ^ 53 * (d * 2 ^ k) := by ring
    rwa [hpow]
  have hne : n / d ≠ 0 := Nat.ne_of_gt (Nat.lt_of_lt_of_le (Nat.two_pow_pos _) hle)
  exact (Nat.log2_eq_iff hne).mpr ⟨hle, hlt⟩

lemma log2_quotient_le (hu : n < 2 ^ 53 * d) : (n / d).log2 - 52 = 0 := by
  have hlt : n / d < 2 ^ 53 := by rwa [Nat.div_lt_iff_lt_mul hd]
  by_cases hzero : n / d = 0
  · rw [hzero]
    rfl
  · have hlog := (Nat.log2_lt hzero).mpr hlt
    omega

end Scale

section Between

variable (hb : b.Positive) (hd : 0 < d) (hl : b.lowerBound * d ≤ 4 * n)
  (hu : 4 * n ≤ b.upperBound * d)
include hb hd hl hu

omit hl in
lemma lt_upper : n < 2 ^ 53 * (d * 2 ^ b.scale) := by
  have ht : 0 < d * 2 ^ b.scale := Nat.mul_pos hd (Nat.two_pow_pos _)
  have hs : (b.significand + 1) * (d * 2 ^ b.scale) ≤ 2 ^ 53 * (d * 2 ^ b.scale) :=
    Nat.mul_le_mul_right _ hb.significand_lt
  rw [Nat.add_mul, Nat.one_mul] at hs
  rw [upperBound_mul] at hu
  omega

lemma ofQuotient_on_scale (hscale : (n / d).log2 - 52 = b.scale)
    (hodd : b.significand % 2 = 1 → b.lowerBound * d < 4 * n ∧ 4 * n < b.upperBound * d) :
    ofQuotient n d = b := by
  rw [upperBound_mul] at hu hodd
  by_cases hpower : b.significand = hiddenBit ∧ 0 < b.scale
  · have hlow := lowerBound_power d hpower
    have heven : b.significand % 2 = 0 := by
      rw [hpower.1]
      rfl
    exact ofQuotient_eq hd hscale (by omega) (by omega) (by omega)
  · have hlow := lowerBound_other d hb hpower
    refine ofQuotient_eq hd hscale (by omega) (by omega) ?_
    intro h
    obtain ⟨hlt, hgt⟩ := hodd h
    constructor <;> omega

omit hu in
lemma ofQuotient_below (hk : 0 < b.scale) (hn : n < 2 ^ 52 * (d * 2 ^ b.scale)) :
    ofQuotient n d = ⟨2 ^ 53, b.scale - 1⟩ ∧ b.significand = 2 ^ 52 := by
  obtain ⟨k, hscale⟩ := Nat.exists_eq_succ_of_ne_zero (Nat.ne_of_gt hk)
  have ht : d * 2 ^ b.scale = 2 * (d * 2 ^ k) := by
    rw [hscale, Nat.pow_succ]
    ring
  have hpos : 0 < d * 2 ^ k := Nat.mul_pos hd (Nat.two_pow_pos _)
  have hs : b.significand = 2 ^ 52 := by
    have hge : 2 ^ 52 ≤ b.significand := hb.normal.resolve_left (Nat.ne_of_gt hk)
    by_contra hne
    have hmul : (2 ^ 52 + 1) * (d * 2 ^ b.scale) ≤ b.significand * (d * 2 ^ b.scale) :=
      Nat.mul_le_mul_right _ (by omega)
    rw [Nat.add_mul, Nat.one_mul] at hmul
    have hlow := lowerBound_other d hb fun h => hne h.1
    omega
  -- below a power of two the scale is finer by one, and the power is `2 ^ 53` there
  have hlow := lowerBound_power d ⟨hs, hk⟩
  rw [hs] at hlow
  have hlog : (n / d).log2 - 52 = k := by
    cases k with
    | zero => exact log2_quotient_le hd (by omega)
    | succ k =>
      have hfine : d * 2 ^ (k + 1) = 2 * (d * 2 ^ k) := by
        rw [Nat.pow_succ]
        ring
      have h := log2_quotient hd (n := n) (k := k + 1) (by omega) (by omega)
      omega
  refine ⟨?_, hs⟩
  rw [hscale, Nat.succ_sub_one]
  have hlower : 2 * (2 ^ 53 * (d * 2 ^ k)) ≤ 2 * n + d * 2 ^ k := by omega
  have hupper : 2 * n ≤ 2 * (2 ^ 53 * (d * 2 ^ k)) + d * 2 ^ k := by omega
  have heven : ¬ (2 ^ 53 % 2 = 1) := by decide
  exact ofQuotient_eq (b := ⟨2 ^ 53, k⟩) hd hlog hlower hupper fun h => absurd h heven

theorem toBits_ofQuotient
    (hodd : b.significand % 2 = 1 → b.lowerBound * d < 4 * n ∧ 4 * n < b.upperBound * d) :
    (ofQuotient n d).toBits = b.toBits := by
  have hlt := lt_upper hb hd hu
  rcases Nat.eq_zero_or_pos b.scale with hk | hk
  · have hscale : (n / d).log2 - 52 = b.scale := by
      rw [hk] at hlt ⊢
      exact log2_quotient_le hd (by simpa using hlt)
    rw [ofQuotient_on_scale hb hd hl hu hscale hodd]
  · by_cases hn : n < 2 ^ 52 * (d * 2 ^ b.scale)
    · obtain ⟨hbelow, hs⟩ := ofQuotient_below hb hd hl hk hn
      have hhidden : hiddenBit = 2 ^ 52 := rfl
      rw [hbelow, toBits, toBits, hs, hhidden]
      show (b.scale - 1) * 2 ^ 52 + 2 ^ 53 = b.scale * 2 ^ 52 + 2 ^ 52
      omega
    · have hscale : (n / d).log2 - 52 = b.scale := by
        have h := log2_quotient hd (Nat.not_lt.mp hn) hlt
        omega
      rw [ofQuotient_on_scale hb hd hl hu hscale hodd]

end Between

end Reckoner.Numeral.Binary
