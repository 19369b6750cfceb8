import Mathlib.Tactic.SplitIfs
import Reckoner.Proofs.Journal.Outcome
import Reckoner.Token.Scan

/-! The spelling of tokens. A lexeme is a text that the scanner takes as one piece, and
it stays one piece in front of a character that does not continue it. -/

namespace Reckoner

namespace Lexeme

lemma skipped_iff {c : Char} : isSkipped c ↔ c ∈ [' ', '\t', '\x0c'] := by
  simp [isSkipped, or_assoc]

lemma category?_skipped {c : Char} (h : isSkipped c) : category? c = none := by
  have hc : c = ' ' ∨ c = '\t' ∨ c = '\x0c' := by simpa using skipped_iff.mp h
  rcases hc with rfl | rfl | rfl <;> decide

lemma category?_digit {c : Char} (h : c.isDigit) : category? c = some .number := if_pos h

lemma isDigit_of_category? {c : Char} (h : category? c = some .number) : c.isDigit := by
  unfold category? at h
  split_ifs at h with hd <;> first | exact hd | cases h

/-- Whether a character behind a lexeme belongs to it, where `tail` is the lexeme
without its first character. -/
def continues (category : Category) (tail : List Char) (c : Char) : Bool :=
  match category with
  | .number => c.isDigit || (c == '.' && !tail.contains '.')
  | .identifier => isWordChar c
  | _ => false

def StopsAt (category : Category) (tail rest : List Char) : Prop :=
  ∀ c, rest.head? = some c → continues category tail c = false

lemma stopsAt_nil (category : Category) (tail : List Char) : StopsAt category tail [] := by
  intro c hc
  cases hc

lemma stopsAt_skipped (category : Category) (tail rest : List Char) {c : Char}
    (hc : isSkipped c) : StopsAt category tail (c :: rest) := by
  intro d hd
  obtain rfl : c = d := by simpa using hd
  have hs : c = ' ' ∨ c = '\t' ∨ c = '\x0c' := by simpa using skipped_iff.mp hc
  rcases hs with rfl | rfl | rfl <;> cases category <;> simp [continues] <;> decide

section Runs

variable {p : Char → Bool} {run rest : List Char}

lemma takeWhile_run (hw : ∀ c ∈ run, p c) (hr : ∀ c, rest.head? = some c → p c = false) :
    (run ++ rest).takeWhile p = run := by
  rw [List.takeWhile_append_of_pos hw]
  cases rest with
  | nil => simp
  | cons c cs => simp [hr c rfl]

lemma dropWhile_run (hw : ∀ c ∈ run, p c) (hr : ∀ c, rest.head? = some c → p c = false) :
    (run ++ rest).dropWhile p = rest := by
  rw [List.dropWhile_append_of_pos hw]
  cases rest with
  | nil => simp
  | cons c cs => simp [hr c rfl]

lemma head_dropWhile (p : Char → Bool) (cs : List Char) (c : Char)
    (hc : (cs.dropWhile p).head? = some c) : p c = false := by
  have h := List.head?_dropWhile_not p cs
  rw [hc] at h
  simpa using h

lemma mem_takeWhile (p : Char → Bool) (cs : List Char) : ∀ c ∈ cs.takeWhile p, p c :=
  List.all_eq_true.mp List.all_takeWhile

end Runs

/-- What stands behind the first digit of a number. -/
inductive NumberTail : List Char → Prop
  | whole {ds : List Char} (hd : ∀ c ∈ ds, c.isDigit) : NumberTail ds
  | point {ds es : List Char} (hd : ∀ c ∈ ds, c.isDigit) (he : ∀ c ∈ es, c.isDigit) :
      NumberTail (ds ++ '.' :: es)

lemma point_not_mem {ds : List Char} (hd : ∀ c ∈ ds, c.isDigit) : '.' ∉ ds :=
  fun h => absurd (hd _ h) (by decide)

lemma numberTail_spanTail (cs : List Char) : NumberTail (spanTail .number cs).1 := by
  have hd := mem_takeWhile Char.isDigit cs
  cases hr : cs.dropWhile Char.isDigit with
  | nil => simpa [spanTail, hr, spanFraction] using NumberTail.whole hd
  | cons d es =>
    by_cases hp : d = '.'
    · subst hp
      have he := mem_takeWhile Char.isDigit es
      simpa [spanTail, hr, spanFraction] using NumberTail.point hd he
    · simpa [spanTail, hr, spanFraction, hp] using NumberTail.whole hd

lemma spanFraction_stop {rest : List Char} (h : ∀ c, rest.head? = some c → c ≠ '.') :
    spanFraction rest = ([], rest) := by
  cases rest with
  | nil => rfl
  | cons c cs => simp [spanFraction, h c rfl]

lemma spanTail_number_append {tail rest : List Char} (ht : NumberTail tail)
    (hr : StopsAt .number tail rest) : spanTail .number (tail ++ rest) = (tail, rest) := by
  have hdigit : ∀ c, rest.head? = some c → c.isDigit = false := by
    intro c hc
    have h := hr c hc
    simp only [continues, Bool.or_eq_false_iff] at h
    exact h.1
  cases ht with
  | whole hd =>
    have hpoint : ∀ c, rest.head? = some c → c ≠ '.' := by
      rintro c hc rfl
      have h := hr _ hc
      have := point_not_mem hd
      simp_all [continues]
    simp only [spanTail, takeWhile_run hd hdigit, dropWhile_run hd hdigit,
      spanFraction_stop hpoint, List.append_nil]
  | @point ds es hd he =>
    have hstop : ∀ c, ('.' :: es ++ rest).head? = some c → c.isDigit = false := by
      rintro c hc
      obtain rfl : '.' = c := by simpa using hc
      rfl
    rw [List.append_assoc]
    simp only [spanTail, takeWhile_run hd hstop, dropWhile_run hd hstop]
    simp only [List.cons_append, spanFraction, takeWhile_run he hdigit, dropWhile_run he hdigit]

lemma stopsAt_spanTail (category : Category) (cs : List Char) :
    StopsAt category (spanTail category cs).1 (spanTail category cs).2 := by
  intro c hc
  cases category with
  | identifier => exact head_dropWhile isWordChar cs c hc
  | number =>
    cases hr : cs.dropWhile Char.isDigit with
    | nil => simp [spanTail, hr, spanFraction] at hc
    | cons d es =>
      have hd := head_dropWhile Char.isDigit cs d (by simp [hr])
      by_cases hp : d = '.'
      · subst hp
        simp only [spanTail, hr, spanFraction] at hc
        have he := head_dropWhile Char.isDigit es c hc
        simp [spanTail, hr, spanFraction, continues, he]
      · have hf : spanFraction (d :: es) = ([], d :: es) := spanFraction_stop (by simpa using hp)
        simp only [spanTail, hr, hf] at hc
        obtain rfl : d = c := by simpa using hc
        simp [continues, hd, hp]
  | _ => rfl

lemma spanTail_append_of_stopsAt {category : Category} {tail rest : List Char}
    (ht : (spanTail category tail).1 = tail) (hr : StopsAt category tail rest) :
    spanTail category (tail ++ rest) = (tail, rest) := by
  cases category with
  | number => exact spanTail_number_append (ht ▸ numberTail_spanTail tail) hr
  | identifier =>
    have hw : ∀ c ∈ tail, isWordChar c := by
      have h := mem_takeWhile isWordChar tail
      rwa [show tail.takeWhile isWordChar = tail from ht] at h
    simp only [spanTail, takeWhile_run hw hr, dropWhile_run hw hr]
  | _ =>
    obtain rfl : [] = tail := ht
    rfl

lemma spanTail_spanTail (category : Category) (cs : List Char) :
    (spanTail category (spanTail category cs).1).1 = (spanTail category cs).1 := by
  cases category with
  | number =>
    have h := spanTail_number_append (numberTail_spanTail cs) (stopsAt_nil .number _)
    rw [List.append_nil] at h
    rw [h]
  | identifier =>
    have hend : ∀ c, ([] : List Char).head? = some c → isWordChar c = false := by simp
    have h := takeWhile_run (mem_takeWhile isWordChar cs) hend
    rw [List.append_nil] at h
    exact h
  | _ => rfl

structure IsLexeme (category : Category) (first : Char) (tail : List Char) : Prop where
  category_first : category? first = some category
  spanTail_tail : (spanTail category tail).1 = tail

lemma isLexeme_spanTail {category : Category} {c : Char} (h : category? c = some category)
    (cs : List Char) : IsLexeme category c (spanTail category cs).1 :=
  ⟨h, spanTail_spanTail category cs⟩

lemma isLexeme_number {c : Char} {tail : List Char} (hc : c.isDigit) (ht : NumberTail tail) :
    IsLexeme .number c tail := by
  have hspan := spanTail_number_append ht (stopsAt_nil .number tail)
  rw [List.append_nil] at hspan
  exact ⟨category?_digit hc, by rw [hspan]⟩

lemma IsLexeme.not_skipped {category : Category} {c : Char} {tail : List Char}
    (h : IsLexeme category c tail) : ¬ isSkipped c := by
  intro hs
  have hfirst := h.category_first
  rw [category?_skipped hs] at hfirst
  cases hfirst

def signs : Category → List Char
  | .opening => ['(', '[', '{']
  | .closing => [')', ']', '}']
  | .separator => [',']
  | .operator => ['+', '-', '*', '/', '^', '|']
  | _ => []

lemma mem_signs {category : Category} {c : Char} (h : category? c = some category)
    (hn : category ≠ .number) (hi : category ≠ .identifier) : c ∈ signs category := by
  rw [category?] at h
  split_ifs at h <;> obtain rfl := Option.some.inj h <;> simp_all [signs]

lemma isLexical_of_category? {category : Category} {c : Char} (h : category? c = some category) :
    category ∈ [.number, .identifier, .opening, .closing, .separator, .operator] := by
  rw [category?] at h
  split_ifs at h <;> obtain rfl := Option.some.inj h <;> decide

end Lexeme

namespace Token

/-- The text of the token is a lexeme of its category. -/
def Spelled (t : Token) : Prop :=
  ∃ c tail, t.text = String.ofList (c :: tail) ∧ Lexeme.IsLexeme t.category c tail

lemma spelled_of_scan {source : String} {offset : Nat} {cs : List Char} {ts : List Token}
    (h : scan source offset cs = .ok ts) : ∀ t ∈ ts, t.Spelled := by
  fun_induction scan source offset cs generalizing ts with
  | case1 => simp_all
  | case2 offset c cs hs ih => exact ih h
  | case3 => cases h
  | case4 offset c cs hs category hc text =>
    rename_i ih
    obtain ⟨us, hr, rfl⟩ := Outcome.map_eq_ok.mp h
    intro t ht
    rcases List.mem_cons.mp ht with rfl | ht
    · exact ⟨c, _, rfl, Lexeme.isLexeme_spanTail hc cs⟩
    · exact ih hr t ht

lemma spelled_of_tokenize {source : String} {ts : List Token} (h : tokenize source = .ok ts) :
    ∀ t ∈ ts, t.Spelled :=
  spelled_of_scan h

lemma Spelled.sign {t : Token} (h : t.Spelled) (hn : t.category ≠ .number)
    (hi : t.category ≠ .identifier) : ∃ c ∈ Lexeme.signs t.category, t.text = String.ofList [c] := by
  obtain ⟨c, tail, htext, hc, hs⟩ := h
  obtain rfl : [] = tail := by
    rw [← hs]
    cases hk : t.category <;> first | rfl | contradiction
  exact ⟨c, Lexeme.mem_signs hc hn hi, htext⟩

lemma Spelled.isLexical {t : Token} (h : t.Spelled) :
    t.category ∈ [.number, .identifier, .opening, .closing, .separator, .operator] := by
  obtain ⟨c, tail, htext, hc, hs⟩ := h
  exact Lexeme.isLexical_of_category? hc

end Token

end Reckoner
