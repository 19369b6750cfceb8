import Reckoner.Proofs.Numeral.Display
import Reckoner.Proofs.Text.Pieces
import Reckoner.Proofs.Token.Lexeme

/-! Every number is read back from its text, also one that is not finite. Hence two numbers with
one text are the same. No blank is in the text of a number. -/

namespace Reckoner.Numeral

section Prints

variable {x : Float} {cs : List Char}

lemma bitsOfDecimal_le (d : Decimal) : Binary.bitsOfDecimal d ≤ Binary.infinityBits := by
  unfold Binary.bitsOfDecimal
  split_ifs
  · exact Nat.zero_le _
  · exact Nat.le_refl _
  · exact Nat.min_le_left _ _

lemma neg_nearest (d : Decimal) : -nearest d = Word.toFloat ⟨true, Binary.bitsOfDecimal d⟩ := by
  rcases Nat.lt_or_eq_of_le (bitsOfDecimal_le d) with h | h
  · exact Word.neg_toFloat h
  · rw [nearest, h]
    exact Word.float_ext (by decide)

lemma read_of_readWord? {w : Word} (hne : cs ≠ []) (h : readWord? cs = some w) :
    read (String.ofList cs) = .ok w.toFloat := by
  simp [read, hne, h]

lemma IsLiteral.ne_nil (h : IsLiteral cs) : cs ≠ [] := by
  obtain ⟨c, tail, rfl, -⟩ := h
  exact List.cons_ne_nil _ _

lemma read_of_prints (h : Prints x cs) : read (String.ofList cs) = .ok x := by
  rcases h with ⟨hliteral, rfl⟩ | ⟨ds, rfl, hliteral, rfl⟩
  · exact read_of_readWord? hliteral.ne_nil (readWord?_literal hliteral)
  · rw [neg_nearest]
    exact read_of_readWord? (List.cons_ne_nil _ _) (readWord?_minus hliteral)

lemma IsLiteral.spells (h : IsLiteral cs) : Lexeme.Spells .number cs := by
  obtain ⟨c, tail, rfl, hc, htail⟩ := h
  cases htail with
  | whole hd => exact .whole (List.cons_ne_nil _ _) (List.forall_mem_cons.mpr ⟨hc, hd⟩)
  | point hd he => exact .point (List.cons_ne_nil c _) (List.forall_mem_cons.mpr ⟨hc, hd⟩) he

lemma not_blank_of_prints (h : Prints x cs) : ∀ c ∈ cs, Text.isBlank c = false := by
  rcases h with ⟨hliteral, -⟩ | ⟨ds, rfl, hliteral, -⟩
  · exact hliteral.spells.not_blank
  · exact List.forall_mem_cons.mpr ⟨rfl, hliteral.spells.not_blank⟩

end Prints

variable {x : Float}

lemma display_notANumber (h : Binary.infinityBits < (Word.ofFloat x).magnitude) :
    display x = "NaN" := by
  rw [display, Word.display, if_pos h]

lemma display_infinity (h : (Word.ofFloat x).magnitude = Binary.infinityBits) :
    display x = if (Word.ofFloat x).negative then "-inf" else "inf" := by
  rw [display, Word.display, if_neg (Nat.not_lt.mpr (Nat.le_of_eq h)), if_pos h]
  split_ifs <;> rfl

/-- A number is finite, or its text is one of the three names. -/
lemma display_cases (x : Float) : x.isFinite ∨
    (display x = "NaN" ∧ x = Word.toFloat ⟨false, Word.notANumber⟩) ∨
    (display x = "inf" ∧ x = Word.toFloat ⟨false, Binary.infinityBits⟩) ∨
    (display x = "-inf" ∧ x = Word.toFloat ⟨true, Binary.infinityBits⟩) := by
  rcases Nat.lt_trichotomy (Word.ofFloat x).magnitude Binary.infinityBits with h | h | h
  · exact .inl (Word.isFinite_iff.mpr h)
  · have hdisplay := display_infinity h
    have hx : x = Word.toFloat ⟨(Word.ofFloat x).negative, (Word.ofFloat x).magnitude⟩ :=
      (Word.toFloat_ofFloat x).symm
    rw [h] at hx
    cases hsign : (Word.ofFloat x).negative with
    | false => exact .inr (.inr (.inl ⟨by simpa [hsign] using hdisplay, hsign ▸ hx⟩))
    | true => exact .inr (.inr (.inr ⟨by simpa [hsign] using hdisplay, hsign ▸ hx⟩))
  · exact .inr (.inl ⟨display_notANumber h, Word.eq_notANumber h⟩)

theorem read_display (x : Float) : read (display x) = .ok x := by
  rcases display_cases x with h | ⟨h, hx⟩ | ⟨h, hx⟩ | ⟨h, hx⟩
  · simpa [String.ofList_toList] using read_of_prints (prints_display h)
  all_goals
    rw [h, hx]
    rfl

theorem isWord_display (x : Float) : Text.IsWord (display x) := by
  rcases display_cases x with h | ⟨h, -⟩ | ⟨h, -⟩ | ⟨h, -⟩
  · exact not_blank_of_prints (prints_display h)
  all_goals
    rw [h]
    simp [Text.IsWord, Text.isBlank, Text.blankRanges]

lemma isWord_repr (n : Nat) : Text.IsWord (Nat.repr n) := by
  intro c hc
  rw [Nat.toList_repr] at hc
  exact Lexeme.not_blank_of_isDigit (Decimal.isDigit_toDigits n c hc)

lemma readNatural?_toDigits (n : Nat) : readNatural? (Nat.toDigits 10 n) = some n := by
  rw [readNatural?_digits (Decimal.isDigit_toDigits n) Nat.toDigits_ne_nil,
    Nat.ofDigitChars_ten_toDigits]

end Reckoner.Numeral
