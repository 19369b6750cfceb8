import Reckoner.Numeral.Display
import Reckoner.Proofs.Evaluation.Literal
import Reckoner.Proofs.Numeral.Packing
import Reckoner.Proofs.Numeral.Shortest

/-! A displayed number is read back as the number. -/

namespace Reckoner.Numeral

namespace Decimal

variable {d : Decimal}

lemma isDigit_toDigits (n : Nat) : ∀ c ∈ Nat.toDigits 10 n, c.isDigit :=
  fun _ h => Nat.isDigit_of_mem_toDigits (by decide) (by decide) h

lemma isDigit_zeros_append {cs : List Char} (h : ∀ c ∈ cs, c.isDigit) (k : Nat) :
    ∀ c ∈ List.replicate k '0' ++ cs, c.isDigit := by
  intro c hc
  rcases List.mem_append.mp hc with hc | hc
  · rw [(List.mem_replicate.mp hc).2]
    rfl
  · exact h c hc

lemma isDigit_append_zeros {cs : List Char} (h : ∀ c ∈ cs, c.isDigit) (k : Nat) :
    ∀ c ∈ cs ++ List.replicate k '0', c.isDigit := by
  intro c hc
  rcases List.mem_append.mp hc with hc | hc
  · exact h c hc
  · rw [(List.mem_replicate.mp hc).2]
    rfl

lemma positional_whole (h : 0 ≤ d.exponent) : d.positional =
    Nat.toDigits 10 d.coefficient ++ List.replicate d.exponent.toNat '0' := by
  have hplaces : (-d.exponent).toNat = 0 := by omega
  unfold positional
  dsimp only
  rw [if_pos hplaces]

lemma positional_point (h : d.exponent < 0) : ∃ ds es, d.positional = ds ++ '.' :: es ∧ ds ≠ [] ∧
    (∀ c ∈ ds ++ es, c.isDigit) ∧ es.length = (-d.exponent).toNat ∧
      Nat.ofDigitChars 10 (ds ++ es) 0 = d.coefficient := by
  have hplaces : ¬ (-d.exponent).toNat = 0 := by omega
  have hdigits := isDigit_toDigits d.coefficient
  have hread := Nat.ofDigitChars_ten_toDigits (n := d.coefficient)
  unfold positional
  dsimp only
  rw [if_neg hplaces]
  generalize Nat.toDigits 10 d.coefficient = digits at *
  split_ifs with hwhole
  · refine ⟨['0'], List.replicate ((-d.exponent).toNat - digits.length) '0' ++ digits, rfl,
      List.cons_ne_nil _ _, ?_, ?_, ?_⟩
    · exact isDigit_zeros_append hdigits ((-d.exponent).toNat - digits.length + 1)
    · rw [List.length_append, List.length_replicate]
      omega
    · have hzeros : Nat.ofDigitChars 10 (List.replicate ((-d.exponent).toNat - digits.length + 1) '0' ++
          digits) 0 = d.coefficient := by
        rw [Nat.ofDigitChars_append, Nat.ofDigitChars_replicate_zero, Nat.mul_zero, hread]
      exact hzeros
  · refine ⟨digits.take (digits.length - (-d.exponent).toNat),
      digits.drop (digits.length - (-d.exponent).toNat), rfl, ?_, ?_, ?_, ?_⟩
    · intro hnil
      have hlength := congrArg List.length hnil
      rw [List.length_take, List.length_nil] at hlength
      omega
    · rw [List.take_append_drop]
      exact hdigits
    · rw [List.length_drop]
      omega
    · rw [List.take_append_drop]
      exact hread

lemma isLiteral_positional (d : Decimal) : IsLiteral d.positional := by
  rcases Int.lt_or_le d.exponent 0 with h | h
  · obtain ⟨ds, es, heq, hne, hall, -, -⟩ := positional_point h
    obtain ⟨hd, he⟩ := List.forall_mem_append.mp hall
    rw [heq]
    exact isLiteral_point hd hne he
  · rw [positional_whole h]
    apply isLiteral_whole (isDigit_append_zeros (isDigit_toDigits _) _)
    exact List.append_ne_nil_of_left_ne_nil (List.ne_nil_of_length_pos Nat.length_toDigits_pos) _

lemma literalDecimal_positional (d : Decimal) : literalDecimal d.positional =
    if d.exponent < 0 then d else ⟨d.coefficient * 10 ^ d.exponent.toNat, 0⟩ := by
  split_ifs with h
  · obtain ⟨ds, es, heq, -, hall, hlength, hread⟩ := positional_point h
    obtain ⟨hd, he⟩ := List.forall_mem_append.mp hall
    have hexponent : -(es.length : Int) = d.exponent := by omega
    rw [heq, literalDecimal_point hd he, hread, hexponent]
  · rw [positional_whole (Int.not_lt.mp h),
      literalDecimal_whole (isDigit_append_zeros (isDigit_toDigits _) _), Nat.ofDigitChars_append,
      Nat.ofDigitChars_ten_toDigits, Nat.ofDigitChars_replicate_zero, Nat.mul_comm]

lemma bitsOfDecimal_mul_pow {n : Nat} (hn : 0 < n) (k : Nat) :
    Binary.bitsOfDecimal ⟨n * 10 ^ k, 0⟩ = Binary.bitsOfDecimal ⟨n, k⟩ := by
  have hmul : 0 < n * 10 ^ k := Nat.mul_pos hn (Nat.pow_pos (by decide))
  have hnum : (⟨n * 10 ^ k, 0⟩ : Decimal).num = (⟨n, k⟩ : Decimal).num := Nat.mul_one _
  have hden : (⟨n * 10 ^ k, 0⟩ : Decimal).den = (⟨n, k⟩ : Decimal).den := by
    rw [den, den]
    simp
  have hmagnitude : (⟨n * 10 ^ k, 0⟩ : Decimal).magnitude = (⟨n, k⟩ : Decimal).magnitude := by
    rw [magnitude, magnitude, length_toDigits_mul_pow hn]
    simp
  unfold Binary.bitsOfDecimal
  rw [hnum, hden, hmagnitude]
  simp [Nat.ne_of_gt hmul, Nat.ne_of_gt hn]

lemma bitsOfDecimal_positional (hd : 0 < d.coefficient) :
    Binary.bitsOfDecimal (literalDecimal d.positional) = Binary.bitsOfDecimal d := by
  rw [literalDecimal_positional]
  split_ifs with h
  · rfl
  · rw [bitsOfDecimal_mul_pow hd, Int.toNat_of_nonneg (Int.not_lt.mp h)]

end Decimal

variable {m : Nat}

lemma nearest_positional (hpos : 0 < m) (hlt : m < Binary.infinityBits) :
    nearest (literalDecimal (Binary.ofBits m).shortest.positional) = Word.toFloat ⟨false, m⟩ := by
  have hb := Binary.positive_ofBits hpos hlt
  have hc := Binary.covers_shortest hb
  have hbits := Binary.toBits_ofBits m
  rw [nearest, Decimal.bitsOfDecimal_positional (Binary.coefficient_pos hb hc),
    Binary.bitsOfDecimal_of_covers hb (hbits.symm ▸ hlt) hc, hbits]

lemma prints_sign {cs : List Char} (h : IsLiteral cs) (hlt : m < Binary.infinityBits)
    (hread : nearest (literalDecimal cs) = Word.toFloat ⟨false, m⟩) (negative : Bool) :
    Prints (Word.toFloat ⟨negative, m⟩) ((if negative then ['-'] else []) ++ cs) := by
  cases negative with
  | false => exact .inl ⟨h, hread⟩
  | true =>
    refine .inr ⟨cs, rfl, h, ?_⟩
    rw [hread, Word.neg_toFloat hlt]

theorem prints_display {x : Float} (h : x.isFinite) : Prints x (display x).toList := by
  have hlt := Word.isFinite_iff.mp h
  have hdisplay : (display x).toList = (Word.ofFloat x).display := String.toList_ofList
  rw [hdisplay, Word.display, if_neg (Nat.not_lt.mpr (Nat.le_of_lt hlt)), if_neg (Nat.ne_of_lt hlt)]
  have hx : x = Word.toFloat ⟨(Word.ofFloat x).negative, (Word.ofFloat x).magnitude⟩ :=
    (Word.toFloat_ofFloat x).symm
  generalize Word.ofFloat x = w at *
  subst hx
  by_cases hzero : w.magnitude = 0
  · have hread : nearest (literalDecimal ['0']) = Word.toFloat ⟨false, w.magnitude⟩ := by
      rw [hzero]
      rfl
    have hliteral : IsLiteral ['0'] := isLiteral_whole (by simp) (List.cons_ne_nil _ _)
    rw [if_pos hzero]
    exact prints_sign hliteral hlt hread w.negative
  · have hread := nearest_positional (Nat.pos_of_ne_zero hzero) hlt
    rw [if_neg hzero]
    exact prints_sign (Decimal.isLiteral_positional _) hlt hread w.negative

end Reckoner.Numeral
