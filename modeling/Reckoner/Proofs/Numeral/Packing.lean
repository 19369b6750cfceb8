import Mathlib
import Reckoner.Numeral.Word

/-! Finite floating point numbers are their words. Taking a word apart and putting it
together again loses nothing, and a minus sign changes the sign bit only. -/

namespace Reckoner

namespace Packing

open Float.Model (Format)
open Float.Model.UnpackedFloat

lemma unpackSign_packComponents {spec : Format} {s : Sign} {e : BitVec spec.exponentBits}
    {m : BitVec spec.mantissaBitsWithoutImplicit} :
    unpackSign (packComponents spec s e m) = s.toBitVec := by
  ext i hi
  obtain rfl : i = 0 := by omega
  simp [unpackSign, packComponents, BitVec.getLsbD_append, BitVec.getElem_append]

lemma ofBitVec_toBitVec (s : Sign) : Sign.ofBitVec s.toBitVec = s := by
  cases s <;> rfl

variable {s : Sign} {e : BitVec 11} {m : BitVec 52}

lemma toNat_packComponents (s : Sign) (e : BitVec 11) (m : BitVec 52) :
    (packComponents .binary64 s e m).toNat =
      (s.toBitVec.toNat * 2 ^ 11 + e.toNat) * 2 ^ 52 + m.toNat := by
  have hm := m.isLt
  have he := e.isLt
  rw [packComponents, BitVec.toNat_append, BitVec.toNat_append,
    ← Nat.shiftLeft_add_eq_or_of_lt hm, ← Nat.shiftLeft_add_eq_or_of_lt he, Nat.shiftLeft_eq,
    Nat.shiftLeft_eq]

lemma unpack_neg : (unpack .binary64 (packComponents .binary64 s e m)).neg =
    unpack .binary64 (packComponents .binary64 (-s) e m) := by
  simp only [unpack, unpackMantissa_packComponents, unpackExponent_packComponents,
    unpackSign_packComponents, ofBitVec_toBitVec]
  split_ifs <;> rfl

lemma toNat_implicit (m : BitVec 52) : (1#1 ++ m).toNat = 2 ^ 52 + m.toNat := by
  rw [BitVec.toNat_append, ← Nat.shiftLeft_add_eq_or_of_lt m.isLt, Nat.shiftLeft_eq]
  rfl

lemma pack_subnormal {n : Nat} (hn : 0 < n) (hlt : n < 2 ^ 52) :
    pack .binary64 (.finite s n (-1074) hn) = packComponents .binary64 s 0#11 (BitVec.ofNat 52 n) := by
  have hlog : n.log2 < 52 := (Nat.log2_lt (Nat.ne_of_gt hn)).mpr hlt
  have hbits : ¬ n.log2 + 1 = Format.mantissaBits .binary64 := by
    have h53 : Format.mantissaBits .binary64 = 53 := rfl
    omega
  have hexponent : ¬ 2 ^ 11 ≤ ((-1074 : Int) + (Format.exponentBias .binary64 : Nat) + (52 : Nat)).toNat + 1 := by
    decide
  rw [pack]
  exact (if_neg hexponent).trans (if_neg hbits)

lemma pack_normal {n k : Nat} (hn : 0 < n) (hle : 2 ^ 52 ≤ n) (hlt : n < 2 ^ 53) (hk : k < 2047) :
    pack .binary64 (.finite s n (k - 1075) hn) =
      packComponents .binary64 s (BitVec.ofNat 11 k) (BitVec.ofNat 52 n) := by
  have hlog : n.log2 = 52 := (Nat.log2_eq_iff (Nat.ne_of_gt hn)).mpr ⟨hle, hlt⟩
  have hbits : n.log2 + 1 = Format.mantissaBits .binary64 := by
    rw [hlog]
    rfl
  have hbiased : ((k - 1075 : Int) + (Format.exponentBias .binary64 : Nat) + (52 : Nat)).toNat = k := by
    have hbias : Format.exponentBias .binary64 = 1023 := rfl
    rw [hbias]
    omega
  have hexponent : ¬ 2 ^ 11 ≤ ((k - 1075 : Int) + (Format.exponentBias .binary64 : Nat) + (52 : Nat)).toNat + 1 := by
    omega
  rw [pack]
  refine (if_neg hexponent).trans ((if_pos hbits).trans ?_)
  rw [hbiased]

lemma pack_unpack (he : e ≠ -1#_) :
    pack .binary64 (unpack .binary64 (packComponents .binary64 s e m)) =
      packComponents .binary64 s e m := by
  simp only [unpack, unpackMantissa_packComponents, unpackExponent_packComponents,
    unpackSign_packComponents, ofBitVec_toBitVec, he, if_false]
  split_ifs with hzero hm
  · subst hzero hm
    rfl
  · subst hzero
    have hpos : 0 < m.toNat := Nat.pos_of_ne_zero fun h => hm (BitVec.eq_of_toNat_eq h)
    have hpack := pack_subnormal (s := s) hpos m.isLt
    rw [BitVec.ofNat_toNat, BitVec.setWidth_eq] at hpack
    exact hpack
  · have hk : e.toNat < 2047 := by
      have hlt := e.isLt
      have hne : e.toNat ≠ 2047 := fun h => he (BitVec.eq_of_toNat_eq h)
      omega
    have hm : (1#1 ++ m).toNat < 2 ^ 53 := (1#1 ++ m).isLt
    have hle : 2 ^ 52 ≤ (1#1 ++ m).toNat := by
      rw [toNat_implicit]
      exact Nat.le_add_right _ _
    have hpack := pack_normal (s := s) (Nat.lt_of_lt_of_le (by decide) hle) hle hm hk
    have hmantissa : BitVec.ofNat 52 (1#1 ++ m).toNat = m := by
      apply BitVec.eq_of_toNat_eq
      rw [toNat_implicit, BitVec.toNat_ofNat, Nat.add_mod_left, Nat.mod_eq_of_lt m.isLt]
    rw [hmantissa, BitVec.ofNat_toNat, BitVec.setWidth_eq] at hpack
    exact hpack

end Packing

namespace Numeral.Word

open Packing
open Float.Model.UnpackedFloat

def sign (w : Word) : Sign := if w.negative then .negative else .positive

def fields (w : Word) : BitVec 64 :=
  packComponents .binary64 w.sign (BitVec.ofNat 11 (w.magnitude / 2 ^ 52))
    (BitVec.ofNat 52 w.magnitude)

variable {w : Word}

lemma float_ext {x y : Float} (h : x.toBits.toBitVec = y.toBits.toBitVec) : x = y := by
  obtain ⟨⟨⟨a⟩, ha⟩⟩ := x
  obtain ⟨⟨⟨b⟩, hb⟩⟩ := y
  obtain rfl : a = b := h
  rfl

lemma toBitVec_word (h : w.magnitude < Binary.infinityBits) :
    (UInt64.ofNat (w.magnitude + if w.negative then signBit else 0)).toBitVec = w.fields := by
  have hinf : Binary.infinityBits = 2047 * 2 ^ 52 := rfl
  have hsign : signBit = 2 ^ 63 := rfl
  apply BitVec.eq_of_toNat_eq
  rw [fields, toNat_packComponents, UInt64.toBitVec_ofNat', BitVec.toNat_ofNat, BitVec.toNat_ofNat,
    BitVec.toNat_ofNat, hsign]
  cases hneg : w.negative with
  | false =>
    have hbit : w.sign.toBitVec.toNat = 0 := by simp [sign, hneg, Sign.toBitVec]
    rw [hbit, if_neg (by decide)]
    omega
  | true =>
    have hbit : w.sign.toBitVec.toNat = 1 := by simp [sign, hneg, Sign.toBitVec]
    rw [hbit, if_pos rfl]
    omega

lemma exponent_ne (h : w.magnitude < Binary.infinityBits) :
    BitVec.ofNat 11 (w.magnitude / 2 ^ 52) ≠ -1#_ := by
  intro he
  have hinf : Binary.infinityBits = 2047 * 2 ^ 52 := rfl
  have hall : (-1#11).toNat = 2047 := rfl
  have hnat := congrArg BitVec.toNat he
  rw [BitVec.toNat_ofNat, hall] at hnat
  omega

lemma toBits_toFloat (h : w.magnitude < Binary.infinityBits) :
    w.toFloat.toBits.toBitVec = w.fields := by
  have hbits : w.toFloat.toBits.toBitVec = pack .binary64 (unpack .binary64
      (UInt64.ofNat (w.magnitude + if w.negative then signBit else 0)).toBitVec) := rfl
  rw [hbits, toBitVec_word h]
  exact pack_unpack (exponent_ne h)

theorem neg_toFloat {m : Nat} (h : m < Binary.infinityBits) :
    -(toFloat ⟨false, m⟩) = toFloat ⟨true, m⟩ := by
  have hbits : (-(toFloat ⟨false, m⟩)).toBits.toBitVec =
      pack .binary64 (unpack .binary64 (toFloat ⟨false, m⟩).toBits.toBitVec).neg := rfl
  have hfields : fields ⟨true, m⟩ = packComponents .binary64 (-sign ⟨false, m⟩)
      (BitVec.ofNat 11 (m / 2 ^ 52)) (BitVec.ofNat 52 m) := rfl
  apply float_ext
  rw [hbits, toBits_toFloat (w := ⟨false, m⟩) h, toBits_toFloat (w := ⟨true, m⟩) h, hfields, fields,
    unpack_neg]
  exact pack_unpack (exponent_ne (w := ⟨true, m⟩) h)

section OfFloat

variable {x : Float}

lemma ofFloat_bits (x : Float) : (ofFloat x).magnitude +
    (if (ofFloat x).negative then signBit else 0) = x.toBits.toNat := by
  have hlt : x.toBits.toNat < 2 ^ 64 := x.toBits.toNat_lt
  have hsign : signBit = 2 ^ 63 := rfl
  simp only [ofFloat, decide_eq_true_eq, hsign]
  split_ifs with hneg
  · omega
  · omega

theorem toFloat_ofFloat (x : Float) : (ofFloat x).toFloat = x := by
  rw [toFloat, ofFloat_bits, UInt64.ofNat_toNat, Float.ofBits_toBits]

lemma toNat_unpackExponent (x : Float) :
    (@unpackExponent .binary64 x.toBits.toBitVec).toNat = (ofFloat x).magnitude / 2 ^ 52 := by
  have hmagnitude : (ofFloat x).magnitude = x.toBits.toNat % 2 ^ 63 := rfl
  have hbits : (@unpackExponent .binary64 x.toBits.toBitVec).toNat =
      x.toBits.toNat / 2 ^ 52 % 2 ^ 11 := by
    rw [unpackExponent, BitVec.toNat_cast, BitVec.extractLsb_toNat, Nat.shiftRight_eq_div_pow]
    rfl
  omega

lemma toNat_unpackMantissa (x : Float) :
    (@unpackMantissa .binary64 x.toBits.toBitVec).toNat = (ofFloat x).magnitude % 2 ^ 52 := by
  have hmagnitude : (ofFloat x).magnitude = x.toBits.toNat % 2 ^ 63 := rfl
  have hbits : (@unpackMantissa .binary64 x.toBits.toBitVec).toNat = x.toBits.toNat % 2 ^ 52 := by
    rw [unpackMantissa, BitVec.toNat_cast, BitVec.extractLsb_toNat, Nat.shiftRight_zero]
    rfl
  omega

lemma unpackExponent_eq_iff (x : Float) : @unpackExponent .binary64 x.toBits.toBitVec = -1#_ ↔
    Binary.infinityBits ≤ (ofFloat x).magnitude := by
  have hinf : Binary.infinityBits = 2047 * 2 ^ 52 := rfl
  have hall : (-1#11).toNat = 2047 := rfl
  have hlt : (ofFloat x).magnitude < 2 ^ 63 := Nat.mod_lt _ (by decide)
  rw [← BitVec.toNat_inj, toNat_unpackExponent]
  refine Iff.trans (Eq.congr_right hall) ?_
  omega

lemma isFinite_iff : x.isFinite ↔ (ofFloat x).magnitude < Binary.infinityBits := by
  have hunpack : x.isFinite = (unpack .binary64 x.toBits.toBitVec).isFinite := rfl
  rw [← Nat.not_le, ← unpackExponent_eq_iff, hunpack, unpack]
  split_ifs with hexponent
  · exact iff_of_false Bool.false_ne_true (not_not_intro hexponent)
  · exact iff_of_false Bool.false_ne_true (not_not_intro hexponent)
  all_goals exact iff_of_true rfl hexponent

/-- All patterns above that of infinity are one number. -/
theorem eq_notANumber (h : Binary.infinityBits < (ofFloat x).magnitude) :
    x = toFloat ⟨false, notANumber⟩ := by
  have hinf : Binary.infinityBits = 2047 * 2 ^ 52 := rfl
  have hlt : (ofFloat x).magnitude < 2 ^ 63 := Nat.mod_lt _ (by decide)
  have hmantissa : @unpackMantissa .binary64 x.toBits.toBitVec ≠ 0#_ := by
    intro hzero
    have hnat := congrArg BitVec.toNat hzero
    rw [toNat_unpackMantissa, BitVec.toNat_zero] at hnat
    omega
  have hexponent := (unpackExponent_eq_iff x).mpr (Nat.le_of_lt h)
  apply float_ext
  have hbits : x.toBits.toBitVec = packedNaN .binary64 :=
    x.toModel.valid.eq_packedNaN hexponent hmantissa
  rw [hbits]
  decide

end OfFloat

end Numeral.Word

end Reckoner
