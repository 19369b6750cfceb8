import Mathlib.Data.List.TakeDrop
import Mathlib.Data.List.TakeWhile
import Reckoner.Numeral.Reader
import Reckoner.Proofs.Token.Spelling

/-! Every number lexeme is read. It spells a decimal, and its value is the nearest one of
the binary format. -/

namespace Reckoner

namespace Numeral

/-- The digits without the point, over a power of ten for each digit behind the point. -/
def literalDecimal (cs : List Char) : Decimal :=
  ⟨Nat.ofDigitChars 10 (cs.filter Char.isDigit) 0, -((cs.dropWhile Char.isDigit).drop 1).length⟩

def nearest (d : Decimal) : Float := (Word.mk false (Binary.bitsOfDecimal d)).toFloat

def IsLiteral (cs : List Char) : Prop := ∃ c tail, cs = c :: tail ∧ c.isDigit ∧ Lexeme.NumberTail tail

/-- The text is a literal, or a minus sign and a literal, and names the number. -/
def Prints (x : Float) (cs : List Char) : Prop :=
  IsLiteral cs ∧ nearest (literalDecimal cs) = x ∨
    ∃ ds, cs = '-' :: ds ∧ IsLiteral ds ∧ -nearest (literalDecimal ds) = x

section Digits

variable {ds es : List Char} (hd : ∀ c ∈ ds, c.isDigit)
include hd

lemma takeWhile_digits : ds.takeWhile Char.isDigit = ds := List.takeWhile_eq_self_iff.mpr hd

lemma dropWhile_digits : ds.dropWhile Char.isDigit = [] := List.dropWhile_eq_nil_iff.mpr hd

lemma takeWhile_point : (ds ++ '.' :: es).takeWhile Char.isDigit = ds := by
  rw [List.takeWhile_append_of_pos hd, List.takeWhile_cons_of_neg (by decide), List.append_nil]

lemma dropWhile_point : (ds ++ '.' :: es).dropWhile Char.isDigit = '.' :: es := by
  rw [List.dropWhile_append_of_pos hd, List.dropWhile_cons_of_neg (by decide)]

lemma literalDecimal_whole : literalDecimal ds = ⟨Nat.ofDigitChars 10 ds 0, 0⟩ := by
  rw [literalDecimal, List.filter_eq_self.mpr hd, dropWhile_digits hd]
  rfl

lemma literalDecimal_point (he : ∀ c ∈ es, c.isDigit) :
    literalDecimal (ds ++ '.' :: es) = ⟨Nat.ofDigitChars 10 (ds ++ es) 0, -es.length⟩ := by
  have hdot : ¬ (Char.isDigit '.' = true) := by decide
  rw [literalDecimal, List.filter_append, List.filter_cons_of_neg hdot, List.filter_eq_self.mpr hd,
    List.filter_eq_self.mpr he, dropWhile_point hd]
  rfl

lemma isLiteral_whole (hne : ds ≠ []) : IsLiteral ds := by
  obtain ⟨c, tail, rfl⟩ := List.exists_cons_of_ne_nil hne
  obtain ⟨hc, htail⟩ := List.forall_mem_cons.mp hd
  exact ⟨c, tail, rfl, hc, .whole htail⟩

lemma isLiteral_point (hne : ds ≠ []) (he : ∀ c ∈ es, c.isDigit) : IsLiteral (ds ++ '.' :: es) := by
  obtain ⟨c, tail, rfl⟩ := List.exists_cons_of_ne_nil hne
  obtain ⟨hc, htail⟩ := List.forall_mem_cons.mp hd
  exact ⟨c, tail ++ '.' :: es, rfl, hc, .point htail he⟩

lemma readNatural?_digits (hne : ds ≠ []) : readNatural? ds = some (Nat.ofDigitChars 10 ds 0) := by
  have hall : ds.all Char.isDigit := List.all_eq_true.mpr hd
  simp [readNatural?, hne, hall]

lemma readDecimal?_whole (hne : ds ≠ []) : readDecimal? ds = some (literalDecimal ds) := by
  simp [readDecimal?, List.span_eq_takeWhile_dropWhile, takeWhile_digits hd, dropWhile_digits hd,
    splitFraction, readNatural?_digits hd hne, readExponent?, literalDecimal_whole hd]

lemma readDecimal?_point (hne : ds ≠ []) (he : ∀ c ∈ es, c.isDigit) :
    readDecimal? (ds ++ '.' :: es) = some (literalDecimal (ds ++ '.' :: es)) := by
  have hall : ∀ c ∈ ds ++ es, c.isDigit := by
    intro c hc
    exact (List.mem_append.mp hc).elim (hd c) (he c)
  have hread := readNatural?_digits hall (List.append_ne_nil_of_left_ne_nil hne es)
  simp [readDecimal?, List.span_eq_takeWhile_dropWhile, takeWhile_point hd, dropWhile_point hd,
    splitFraction, takeWhile_digits he, dropWhile_digits he, hread, readExponent?,
    literalDecimal_point hd he]

end Digits

lemma toLower_digit {c : Char} (h : c.isDigit) : c.toLower = c := by
  have hle : c.val ≤ '9'.val := (Bool.and_eq_true_iff.mp h).2 |> of_decide_eq_true
  have hno : ¬ (c.val ≥ 'A'.val ∧ c.val ≤ 'Z'.val) :=
    fun hA => absurd (UInt32.le_trans hA.1 hle) (by decide)
  exact dif_neg hno

lemma readName?_digit {c : Char} (h : c.isDigit) (cs : List Char) : readName? (c :: cs) = none := by
  have hne (d : Char) (ds : List Char) (hd : d.isDigit = false) :
      String.ofList ((c :: cs).map Char.toLower) ≠ String.ofList (d :: ds) := by
    intro heq
    have hc := (List.cons.inj (String.ofList_injective heq)).1
    rw [toLower_digit h] at hc
    rw [← hc, h] at hd
    cases hd
  have hinf := hne 'i' ['n', 'f'] rfl
  have hinfinity := hne 'i' ['n', 'f', 'i', 'n', 'i', 't', 'y'] rfl
  have hnan := hne 'n' ['a', 'n'] rfl
  dsimp only [readName?]
  rw [if_neg (not_or.mpr ⟨hinf, hinfinity⟩), if_neg hnan]

lemma splitSign_digit {c : Char} (h : c.isDigit) (cs : List Char) :
    splitSign (c :: cs) = (false, c :: cs) := by
  unfold splitSign
  split
  · rename_i heq
    cases heq
    cases h
  · rename_i heq
    cases heq
    cases h
  · rfl

lemma readDecimal?_lexeme {c : Char} {tail : List Char} (hc : c.isDigit) (ht : Lexeme.NumberTail tail) :
    readDecimal? (c :: tail) = some (literalDecimal (c :: tail)) := by
  cases ht with
  | whole hd => exact readDecimal?_whole (List.forall_mem_cons.mpr ⟨hc, hd⟩) (List.cons_ne_nil _ _)
  | @point ds es hd he =>
    have hcd : ∀ d ∈ c :: ds, d.isDigit := List.forall_mem_cons.mpr ⟨hc, hd⟩
    exact readDecimal?_point hcd (List.cons_ne_nil _ _) he

section IsLiteral

variable {cs : List Char} (h : IsLiteral cs)
include h

lemma readName?_literal : readName? cs = none := by
  obtain ⟨c, tail, rfl, hc, -⟩ := h
  exact readName?_digit hc tail

lemma readDecimal?_literal : readDecimal? cs = some (literalDecimal cs) := by
  obtain ⟨c, tail, rfl, hc, ht⟩ := h
  exact readDecimal?_lexeme hc ht

lemma readWord?_literal :
    readWord? cs = some ⟨false, Binary.bitsOfDecimal (literalDecimal cs)⟩ := by
  have hsign : splitSign cs = (false, cs) := by
    obtain ⟨c, tail, rfl, hc, -⟩ := h
    exact splitSign_digit hc tail
  simp [readWord?, hsign, readName?_literal h, readDecimal?_literal h]

lemma readWord?_minus :
    readWord? ('-' :: cs) = some ⟨true, Binary.bitsOfDecimal (literalDecimal cs)⟩ := by
  simp [readWord?, splitSign, readName?_literal h, readDecimal?_literal h]

end IsLiteral

end Numeral

namespace Token

def literal (t : Token) : Float := Numeral.nearest (Numeral.literalDecimal t.text.toList)

lemma Spelled.number {t : Token} (h : t.Spelled) (hc : t.category = .number) :
    ∃ c tail, t.text = String.ofList (c :: tail) ∧ c.isDigit ∧ Lexeme.NumberTail tail := by
  obtain ⟨c, tail, htext, hlex⟩ := h
  rw [hc] at hlex
  exact ⟨c, tail, htext, Lexeme.isDigit_of_category? hlex.category_first,
    hlex.spanTail_tail ▸ Lexeme.numberTail_spanTail tail⟩

lemma read_literal {t : Token} (h : t.Spelled) (hc : t.category = .number) :
    Numeral.read t.text = .ok t.literal := by
  obtain ⟨c, tail, htext, hd, ht⟩ := h.number hc
  have hword := Numeral.readWord?_literal ⟨c, tail, rfl, hd, ht⟩
  simp [Numeral.read, literal, htext, hword, Numeral.nearest]

end Token

end Reckoner
