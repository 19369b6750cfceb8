import Mathlib.Data.List.TakeWhile
import Reckoner.Proofs.Token.Spelling
import Reckoner.Text.Blank

/-! The texts of the lexemes of each category, said without the scanner. A lexeme can be
made longer by a character exactly when the scanner would take it, and it has no blanks. -/

namespace Reckoner

namespace Lexeme

/-- The texts of the lexemes of a category. -/
inductive Spells : Category → List Char → Prop
  | whole {ds : List Char} : ds ≠ [] → (∀ c ∈ ds, c.isDigit) → Spells .number ds
  | point {ds es : List Char} : ds ≠ [] → (∀ c ∈ ds, c.isDigit) → (∀ c ∈ es, c.isDigit) →
      Spells .number (ds ++ '.' :: es)
  | word {c : Char} {cs : List Char} : isLetter c → (∀ d ∈ cs, isWordChar d) →
      Spells .identifier (c :: cs)
  | sign {category : Category} {c : Char} : c ∈ signs category → Spells category [c]

lemma Spells.exists_cons {category : Category} {cs : List Char} (h : Spells category cs) :
    ∃ c tail, cs = c :: tail := by
  cases h with
  | whole hne _ => exact List.exists_cons_of_ne_nil hne
  | point hne _ _ => exact List.exists_cons_of_ne_nil (List.append_ne_nil_of_left_ne_nil hne _)
  | word => exact ⟨_, _, rfl⟩
  | sign => exact ⟨_, _, rfl⟩

lemma category?_letter {c : Char} (h : isLetter c) : category? c = some .identifier := by
  have hd : ¬ c.isDigit := by
    intro hd
    have hle : c.val ≤ '9'.val := of_decide_eq_true (Bool.and_eq_true_iff.mp hd).2
    have hc : c.isAlpha ∨ c = '_' := by simpa [isLetter] using h
    rcases hc with halpha | rfl
    · rcases Bool.or_eq_true_iff.mp halpha with hupper | hlower
      · have hge : 'A'.val ≤ c.val := (of_decide_eq_true hupper).1
        exact absurd (UInt32.le_trans hge hle) (by decide)
      · have hge : 'a'.val ≤ c.val := (Bool.and_eq_true_iff.mp hlower).1 |> of_decide_eq_true
        exact absurd (UInt32.le_trans hge hle) (by decide)
    · cases hd
  rw [category?, if_neg hd, if_pos h]

lemma isLexeme_sign {category : Category} {c : Char} (h : c ∈ signs category) :
    IsLexeme category c [] := by
  cases category with
  | opening =>
    rcases (by simpa [signs] using h : c = '(' ∨ c = '[' ∨ c = '{') with rfl | rfl | rfl <;>
      exact ⟨by decide, rfl⟩
  | closing =>
    rcases (by simpa [signs] using h : c = ')' ∨ c = ']' ∨ c = '}') with rfl | rfl | rfl <;>
      exact ⟨by decide, rfl⟩
  | separator =>
    obtain rfl : c = ',' := by simpa [signs] using h
    exact ⟨by decide, rfl⟩
  | operator =>
    rcases (by simpa [signs] using h :
      c = '+' ∨ c = '-' ∨ c = '*' ∨ c = '/' ∨ c = '^' ∨ c = '|') with
      rfl | rfl | rfl | rfl | rfl | rfl <;> exact ⟨by decide, rfl⟩
  | _ => cases h

lemma isLexeme_word {c : Char} {tail : List Char} (hc : isLetter c) (ht : ∀ d ∈ tail, isWordChar d) :
    IsLexeme .identifier c tail :=
  ⟨category?_letter hc, List.takeWhile_eq_self_iff.mpr ht⟩

lemma isLetter_of_category? {c : Char} (h : category? c = some .identifier) : isLetter c := by
  unfold category? at h
  split_ifs at h with hd hl <;> first | exact hl | cases h

section Spelling

variable {category : Category} {c : Char} {tail : List Char}

lemma isLexeme_of_spells (h : Spells category (c :: tail)) : IsLexeme category c tail := by
  generalize htext : c :: tail = text at h
  cases h with
  | whole _ hd =>
    subst htext
    obtain ⟨hc, htail⟩ := List.forall_mem_cons.mp hd
    exact isLexeme_number hc (.whole htail)
  | @point ds es hne hd he =>
    obtain ⟨d, ds, rfl⟩ := List.exists_cons_of_ne_nil hne
    obtain ⟨rfl, rfl⟩ := List.cons.inj htext
    obtain ⟨hc, htail⟩ := List.forall_mem_cons.mp hd
    exact isLexeme_number hc (.point htail he)
  | word hc hw =>
    obtain ⟨rfl, rfl⟩ := List.cons.inj htext
    exact isLexeme_word hc hw
  | sign hs =>
    obtain ⟨rfl, rfl⟩ := List.cons.inj htext
    exact isLexeme_sign hs

lemma spells_of_isLexeme (h : IsLexeme category c tail) : Spells category (c :: tail) := by
  obtain ⟨hc, ht⟩ := h
  cases category with
  | number =>
    have hd := isDigit_of_category? hc
    cases ht ▸ numberTail_spanTail tail with
    | whole hds => exact .whole (List.cons_ne_nil _ _) (List.forall_mem_cons.mpr ⟨hd, hds⟩)
    | @point ds es hds hes =>
      exact .point (List.cons_ne_nil c ds) (List.forall_mem_cons.mpr ⟨hd, hds⟩) hes
  | identifier => exact .word (isLetter_of_category? hc) (List.takeWhile_eq_self_iff.mp ht)
  | _ =>
    obtain rfl : [] = tail := ht
    exact .sign (mem_signs hc (by simp) (by simp))

lemma spells_iff : Spells category (c :: tail) ↔ IsLexeme category c tail :=
  ⟨isLexeme_of_spells, spells_of_isLexeme⟩

lemma spells_push_iff (h : IsLexeme category c tail) (d : Char) :
    Spells category (c :: tail ++ [d]) ↔ continues category tail d := by
  rw [List.cons_append, spells_iff]
  constructor
  · intro hlong
    by_contra hd
    have hstop : StopsAt category tail [d] := by
      intro e he
      obtain rfl : d = e := by simpa using he
      simpa using hd
    have hspan := hlong.spanTail_tail
    rw [spanTail_append_of_stopsAt h.spanTail_tail hstop] at hspan
    simp at hspan
  · intro hd
    refine ⟨h.category_first, ?_⟩
    cases category with
    | number =>
      have hnumber : NumberTail (tail ++ [d]) := by
        have htail := numberTail_spanTail tail
        rw [h.spanTail_tail] at htail
        have hdigit : ∀ e ∈ [d], d.isDigit → e.isDigit := by simp
        cases htail with
        | whole hds =>
          rcases (by simpa [continues] using hd : d.isDigit ∨ d = '.' ∧ '.' ∉ tail) with hd | ⟨rfl, -⟩
          · exact .whole fun e he => (List.mem_append.mp he).elim (hds e) fun he => hdigit e he hd
          · exact .point hds (by simp)
        | @point ds es hds hes =>
          have hd : d.isDigit := by simpa [continues] using hd
          rw [List.append_assoc]
          exact .point hds fun e he => (List.mem_append.mp he).elim (hes e) fun he => hdigit e he hd
      exact (isLexeme_number (isDigit_of_category? h.category_first) hnumber).spanTail_tail
    | identifier =>
      have hw : ∀ e ∈ tail ++ [d], isWordChar e := by
        intro e he
        rcases List.mem_append.mp he with he | he
        · exact List.takeWhile_eq_self_iff.mp h.spanTail_tail e he
        · exact List.mem_singleton.mp he ▸ hd
      exact List.takeWhile_eq_self_iff.mpr hw
    | _ => cases hd

end Spelling

section Blanks

variable {c : Char} {category : Category} {cs : List Char}

lemma not_blank_of_between {a b : Char} (h : a.val ≤ c.val) (h' : c.val ≤ b.val)
    (ha : 0x21 ≤ a.toNat) (hb : b.toNat ≤ 0x7E) : Text.isBlank c = false := by
  have hlower : a.toNat ≤ c.toNat := UInt32.le_iff_toNat_le.mp h
  have hupper : c.toNat ≤ b.toNat := UInt32.le_iff_toNat_le.mp h'
  simp only [Text.isBlank, Text.blankRanges, List.any_cons, List.any_nil, Bool.or_false,
    Bool.or_eq_false_iff, Bool.and_eq_false_iff, decide_eq_false_iff_not]
  omega

lemma not_blank_of_isDigit (h : c.isDigit) : Text.isBlank c = false := by
  obtain ⟨hge, hle⟩ := Bool.and_eq_true_iff.mp h
  exact not_blank_of_between (of_decide_eq_true hge) (of_decide_eq_true hle) (by decide) (by decide)

lemma not_blank_of_isLetter (h : isLetter c) : Text.isBlank c = false := by
  have hc : c.isAlpha ∨ c = '_' := by simpa [isLetter] using h
  rcases hc with halpha | rfl
  · rcases Bool.or_eq_true_iff.mp halpha with hupper | hlower
    · obtain ⟨hge, hle⟩ := of_decide_eq_true hupper
      exact not_blank_of_between hge hle (by decide) (by decide)
    · obtain ⟨hge, hle⟩ := Bool.and_eq_true_iff.mp hlower
      exact not_blank_of_between (of_decide_eq_true hge) (of_decide_eq_true hle) (by decide)
        (by decide)
  · decide

lemma not_blank_of_isWordChar (h : isWordChar c) : Text.isBlank c = false := by
  rcases Bool.or_eq_true_iff.mp h with halphanum | hunderscore
  · rcases Bool.or_eq_true_iff.mp halphanum with halpha | hdigit
    · exact not_blank_of_isLetter (Bool.or_eq_true_iff.mpr (.inl halpha))
    · exact not_blank_of_isDigit hdigit
  · exact not_blank_of_isLetter (Bool.or_eq_true_iff.mpr (.inr hunderscore))

lemma not_blank_of_sign (category : Category) : ∀ c ∈ signs category, Text.isBlank c = false := by
  cases category <;> simp [signs, Text.isBlank, Text.blankRanges]

lemma Spells.not_blank (h : Spells category cs) : ∀ c ∈ cs, Text.isBlank c = false := by
  cases h with
  | whole _ hd => exact fun c hc => not_blank_of_isDigit (hd c hc)
  | point _ hd he =>
    intro c hc
    rcases List.mem_append.mp hc with hc | hc
    · exact not_blank_of_isDigit (hd c hc)
    · exact List.forall_mem_cons.mpr ⟨by decide, fun c hc => not_blank_of_isDigit (he c hc)⟩ c hc
  | word hc hw =>
    exact List.forall_mem_cons.mpr
      ⟨not_blank_of_isLetter hc, fun d hd => not_blank_of_isWordChar (hw d hd)⟩
  | sign hs => exact List.forall_mem_singleton.mpr (not_blank_of_sign category _ hs)

end Blanks

end Lexeme

end Reckoner
