import Reckoner.Proofs.Grammar.Tree

/-! The grammar of expressions. Sums and products group to the left and powers to the
right, and a sign in front of an operand binds more tightly than every operator between
operands. -/

namespace Reckoner

/-- The nonterminals, from the loosest to the tightest. -/
inductive Phrase
  | expression
  | term
  | power
  | unary
  | primary
  deriving DecidableEq

namespace Phrase

def rank : Phrase → Nat
  | expression => 1
  | term => 2
  | power => 3
  | unary => 4
  | primary => 5

end Phrase

namespace Token

def IsSign (t : Token) (signs : List String) : Prop := t.category = .operator ∧ t.text ∈ signs

def IsBinary (t : Token) : Prop := t.IsSign ["+", "-", "*", "/", "^"]

end Token

inductive Derives (scope : Scope) : Phrase → Tree → Prop
  | sum {l r : Tree} {s : Token} : Derives scope .expression l → s.IsSign ["+", "-"] →
      Derives scope .term r → Derives scope .expression (.binary l s r)
  | ofTerm {t : Tree} : Derives scope .term t → Derives scope .expression t
  | product {l r : Tree} {s : Token} : Derives scope .term l → s.IsSign ["*", "/"] →
      Derives scope .power r → Derives scope .term (.binary l s r)
  | ofPower {t : Tree} : Derives scope .power t → Derives scope .term t
  | power {l r : Tree} {s : Token} : Derives scope .unary l → s.IsSign ["^"] →
      Derives scope .power r → Derives scope .power (.binary l s r)
  | ofUnary {t : Tree} : Derives scope .unary t → Derives scope .power t
  | negation {t : Tree} {s : Token} : s.IsSign ["-"] → Derives scope .unary t →
      Derives scope .unary (.negation s t)
  | ofPrimary {t : Tree} : Derives scope .primary t → Derives scope .unary t
  | number {t : Token} : t.category = .number → Derives scope .primary (.number t)
  | name {t : Token} : t.category = .identifier → scope.function? t.text = none →
      (scope.value? t.text).isSome → Derives scope .primary (.name t)
  | bracket {t : Tree} {o c : Token} : o.category = .opening → c.category = .closing →
      (o.text, c.text) ∈ [("(", ")"), ("[", "]"), ("\x7b", "\x7d")] → Derives scope .expression t →
      Derives scope .primary (.bracket o t c)
  | bars {t : Tree} {o c : Token} : o.IsSign ["|"] → c.IsSign ["|"] →
      Derives scope .expression t → Derives scope .primary (.bars o t c)
  | call {t : Tree} {f o c : Token} : f.category = .identifier →
      (scope.function? f.text).isSome → o.category = .opening → o.text = "(" →
      c.category = .closing → c.text = ")" → Derives scope .expression t →
      Derives scope .primary (.call f o t c)

namespace Derives

variable {scope : Scope} {p q : Phrase} {t : Tree}

lemma loosen (h : Derives scope p t) (hpq : q.rank ≤ p.rank) : Derives scope q t := by
  have ofUnary (h : Derives scope .unary t) (hq : q.rank ≤ 4) : Derives scope q t := by
    cases q with
    | expression => exact .ofTerm (.ofPower (.ofUnary h))
    | term => exact .ofPower (.ofUnary h)
    | power => exact .ofUnary h
    | unary => exact h
    | primary => exact absurd hq (by decide)
  cases p with
  | expression => cases q <;> first | exact h | exact absurd hpq (by decide)
  | term =>
    cases q <;> first | exact h | exact .ofTerm h | exact absurd hpq (by decide)
  | power =>
    cases q <;> first | exact h | exact .ofPower h | exact .ofTerm (.ofPower h) |
      exact absurd hpq (by decide)
  | unary => exact ofUnary h hpq
  | primary =>
    by_cases hq : q = .primary
    · exact hq ▸ h
    · exact ofUnary (.ofPrimary h) (by cases q <;> simp_all [Phrase.rank])

end Derives

namespace Token

/-- The phrase that a sign between two operands makes, and the phrases that it takes on
its left and on its right. -/
def grade (s : Token) : Phrase :=
  if s.text ∈ ["+", "-"] then .expression else if s.text ∈ ["*", "/"] then .term else .power

def leftPhrase (s : Token) : Phrase :=
  if s.text ∈ ["+", "-"] then .expression else if s.text ∈ ["*", "/"] then .term else .unary

def rightPhrase (s : Token) : Phrase := if s.text ∈ ["+", "-"] then .term else .power

lemma IsBinary.cases {s : Token} (h : s.IsBinary) :
    s.IsSign ["+", "-"] ∨ s.IsSign ["*", "/"] ∨ s.IsSign ["^"] := by
  obtain ⟨hc, ht⟩ := h
  simp only [List.mem_cons, List.not_mem_nil, or_false] at ht
  rcases ht with ht | ht | ht | ht | ht <;> simp [IsSign, hc, ht]

lemma IsSign.isBinary {s : Token} {signs : List String} (h : s.IsSign signs)
    (hs : signs ⊆ ["+", "-", "*", "/", "^"]) : s.IsBinary :=
  ⟨h.1, hs h.2⟩

lemma IsSign.text_ne {s : Token} {signs : List String} {sign : String} (h : s.IsSign signs)
    (hs : sign ∉ signs) : s.text ≠ sign := by
  rintro rfl
  exact hs h.2

lemma grade_le (s : Token) : s.grade.rank ≤ Phrase.power.rank := by
  rw [grade]
  split
  · decide
  · split <;> decide

lemma leftPhrase_le (s : Token) : s.leftPhrase.rank ≤ Phrase.unary.rank := by
  rw [leftPhrase]
  split
  · decide
  · split <;> decide

lemma rightPhrase_le (s : Token) : s.rightPhrase.rank ≤ Phrase.power.rank := by
  rw [rightPhrase]
  split <;> decide

lemma rightPhrase_le_succ (s : Token) : s.rightPhrase.rank ≤ s.grade.rank + 1 := by
  unfold rightPhrase grade
  split
  · decide
  · split <;> decide

lemma grade_le_leftPhrase (s : Token) : s.grade.rank ≤ s.leftPhrase.rank := by
  unfold grade leftPhrase
  split
  · decide
  · split <;> decide

lemma grade_le_rightPhrase (s : Token) : s.grade.rank ≤ s.rightPhrase.rank := by
  unfold grade rightPhrase
  split
  · decide
  · split <;> decide

section Phrases

variable {s : Token}

lemma phrases_sum (h : s.IsSign ["+", "-"]) :
    s.grade = .expression ∧ s.leftPhrase = .expression ∧ s.rightPhrase = .term := by
  simp [grade, leftPhrase, rightPhrase, h.2]

lemma phrases_product (h : s.IsSign ["*", "/"]) :
    s.grade = .term ∧ s.leftPhrase = .term ∧ s.rightPhrase = .power := by
  have ht : s.text = "*" ∨ s.text = "/" := by simpa using h.2
  rcases ht with ht | ht <;> simp [grade, leftPhrase, rightPhrase, ht]

lemma phrases_power (h : s.IsSign ["^"]) :
    s.grade = .power ∧ s.leftPhrase = .unary ∧ s.rightPhrase = .power := by
  have ht : s.text = "^" := by simpa using h.2
  simp [grade, leftPhrase, rightPhrase, ht]

lemma IsBinary.precedence (h : s.IsBinary) :
    (s.resolve .binary).precedence = s.grade.rank := by
  have ht := h.2
  simp only [List.mem_cons, List.not_mem_nil, or_false] at ht
  rcases ht with ht | ht | ht | ht | ht <;> simp [resolve, Token.precedence, grade, ht, Phrase.rank]

lemma IsBinary.grade_lt_rightPhrase (h : s.IsBinary) (ht : s.text ≠ "^") :
    s.grade.rank < s.rightPhrase.rank := by
  rcases h.cases with hk | hk | hk
  · obtain ⟨hg, -, hr⟩ := phrases_sum hk
    rw [hg, hr]
    decide
  · obtain ⟨hg, -, hr⟩ := phrases_product hk
    rw [hg, hr]
    decide
  · exact absurd (by simpa using hk.2) ht

end Phrases

end Token

lemma Derives.binary {scope : Scope} {l r : Tree} {s : Token} (hs : s.IsBinary)
    (hl : Derives scope s.leftPhrase l) (hr : Derives scope s.rightPhrase r) :
    Derives scope s.grade (.binary l s r) := by
  rcases hs.cases with h | h | h
  · obtain ⟨hg, hl', hr'⟩ := Token.phrases_sum h
    rw [hl'] at hl
    rw [hr'] at hr
    exact hg ▸ .sum hl h hr
  · obtain ⟨hg, hl', hr'⟩ := Token.phrases_product h
    rw [hl'] at hl
    rw [hr'] at hr
    exact hg ▸ .product hl h hr
  · obtain ⟨hg, hl', hr'⟩ := Token.phrases_power h
    rw [hl'] at hl
    rw [hr'] at hr
    exact hg ▸ .power hl h hr

end Reckoner
