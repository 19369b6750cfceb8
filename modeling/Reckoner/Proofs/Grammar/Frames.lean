import Reckoner.Proofs.Grammar.Sketch

/-! Frames that nest as the grammar allows. Each frame lacks a phrase of its own, and
whatever is absorbed into a tree makes the phrase that the frames below it lack. -/

namespace Reckoner

namespace Token

/-- A bracket without a function in front, or the first of two bars. -/
def Opens (o : Token) : Prop :=
  o.category = .opening ∧ o.text ∈ ["(", "[", "\x7b"] ∨ o.IsSign ["|"]

def Closes (c : Token) : Prop :=
  c.category = .closing ∧ c.text ∈ [")", "]", "\x7d"] ∨ c.IsSign ["|"]

end Token

namespace Sketch

variable {scope : Scope} {fs gs : List Frame} {t u : Tree}

/-- The phrase that is lacking on top of the frames. -/
def demand : List Frame → Phrase
  | .operator _ s :: _ => s.rightPhrase
  | .negation _ :: _ => .unary
  | _ => .expression

lemma demand_le (fs : List Frame) : (demand fs).rank ≤ Phrase.unary.rank := by
  unfold demand
  split
  · unfold Token.rightPhrase
    split <;> decide
  · decide
  · decide

inductive Stacked (scope : Scope) : List Frame → Prop
  | nil : Stacked scope []
  | operator {l : Tree} {s : Token} {fs : List Frame} : s.IsBinary →
      Derives scope s.leftPhrase l → (demand fs).rank ≤ s.grade.rank → Stacked scope fs →
      Stacked scope (.operator l s :: fs)
  | negation {s : Token} {fs : List Frame} : s.IsSign ["-"] → Stacked scope fs →
      Stacked scope (.negation s :: fs)
  | bracket {o : Token} {fs : List Frame} : o.Opens → Stacked scope fs →
      Stacked scope (.bracket none o :: fs)
  | call {f o : Token} {fs : List Frame} : f.category = .identifier →
      (scope.function? f.text).isSome → o.category = .opening → o.text = "(" →
      Stacked scope fs → Stacked scope (.bracket (some f) o :: fs)

lemma absorb_stacked (p : Token → Bool) (hs : Stacked scope fs)
    (ht : Derives scope (demand fs) t) :
    Stacked scope (absorb p fs t).1 ∧ Derives scope (demand (absorb p fs t).1) (absorb p fs t).2 := by
  fun_induction absorb p fs t with
  | case1 l s fs t hp ih =>
    cases hs with
    | operator hb hl hd hfs => exact ih hfs ((Derives.binary hb hl ht).loosen hd)
  | case3 s fs t hp ih =>
    cases hs with
    | negation hn hfs => exact ih hfs ((Derives.negation hn ht).loosen (demand_le fs))
  | _ => exact ⟨hs, ht⟩

lemma absorb_derives {p : Token → Bool} {q : Phrase} (hs : Stacked scope fs)
    (ht : Derives scope (demand fs) t) (hq : Derives scope q t)
    (hp : ∀ s : Token, s.IsBinary → p (s.resolve .binary) → q.rank ≤ s.grade.rank)
    (hu : q.rank ≤ Phrase.unary.rank) : Derives scope q (absorb p fs t).2 := by
  fun_induction absorb p fs t with
  | case1 l s fs t hps ih =>
    cases hs with
    | operator hb hl hd hfs =>
      have hbin := Derives.binary hb hl ht
      exact ih hfs (hbin.loosen hd) (hbin.loosen (hp s hb hps))
  | case3 s fs t hps ih =>
    cases hs with
    | negation hn hfs =>
      have hneg := Derives.negation hn ht
      exact ih hfs (hneg.loosen (demand_le fs)) (hneg.loosen hu)
  | _ => exact hq

lemma head_absorb (p : Token → Bool) (fs : List Frame) (t : Tree) :
    (∀ l s gs, (absorb p fs t).1 = .operator l s :: gs → p (s.resolve .binary) = false) ∧
      ∀ s gs, (absorb p fs t).1 = .negation s :: gs → p (s.resolve .unary) = false := by
  fun_induction absorb p fs t with
  | case1 _ _ _ _ _ ih => exact ih
  | case3 _ _ _ _ ih => exact ih
  | case2 l s fs t hp =>
    refine ⟨?_, by simp⟩
    intro l' s' gs h
    simp_all
  | case4 s fs t hp =>
    refine ⟨by simp, ?_⟩
    intro s' gs h
    simp_all
  | case5 fs t h₁ h₂ => exact ⟨fun l s gs h => (h₁ l s gs h).elim, fun s gs h => (h₂ s gs h).elim⟩

lemma absorb_all (fs : List Frame) (t : Tree) :
    (absorb (·.category != .opening) fs t).1 = [] ∨
      ∃ f o gs, (absorb (·.category != .opening) fs t).1 = .bracket f o :: gs := by
  obtain ⟨ho, hn⟩ := head_absorb (·.category != .opening) fs t
  cases h : (absorb (·.category != .opening) fs t).1 with
  | nil => exact .inl rfl
  | cons f gs =>
    cases f with
    | operator l s => exact absurd (ho l s gs h) (by simp [Token.resolve])
    | negation s => exact absurd (hn s gs h) (by simp [Token.resolve])
    | bracket f o => exact .inr ⟨f, o, gs, rfl⟩

section Yielding

lemma yieldsTo_iff {a b : Token} (hb : b.category ≠ .opening) :
    Conversion.yieldsTo a b = true ↔
      if a.isRightAssociative then a.precedence < b.precedence
      else a.precedence ≤ b.precedence := by
  simp only [Conversion.yieldsTo, bne_iff_ne, Bool.and_eq_true, ne_eq, hb, not_false_eq_true,
    true_and]
  split <;> simp

variable {s : Token} (hs : s.IsBinary)
include hs

lemma yieldsTo_binary {s' : Token} (hs' : s'.IsBinary) :
    Conversion.yieldsTo (s.resolve .binary) (s'.resolve .binary) = true ↔
      if s.text = "^" then s.grade.rank < s'.grade.rank else s.grade.rank ≤ s'.grade.rank := by
  have hr : (s.resolve .binary).isRightAssociative = (s.text == "^") := rfl
  simp only [yieldsTo_iff (a := s.resolve .binary) (b := s'.resolve .binary) (by simp [Token.resolve]),
    hs.precedence, hs'.precedence, hr, beq_iff_eq]

lemma yieldsTo_unary (s' : Token) :
    Conversion.yieldsTo (s.resolve .binary) (s'.resolve .unary) = true := by
  have hle : s.grade.rank ≤ 3 := s.grade_le
  have hp : (s'.resolve .unary).precedence = 4 := rfl
  rw [yieldsTo_iff (by simp [Token.resolve]), hs.precedence, hp]
  split <;> omega

lemma leftPhrase_le_grade {s' : Token} (hs' : s'.IsBinary)
    (h : Conversion.yieldsTo (s.resolve .binary) (s'.resolve .binary)) :
    s.leftPhrase.rank ≤ s'.grade.rank := by
  rw [yieldsTo_binary hs hs'] at h
  rcases hs.cases with hk | hk | hk
  · obtain ⟨hg, hl, -⟩ := Token.phrases_sum hk
    rw [if_neg (hk.text_ne (by decide))] at h
    rwa [hl, ← hg]
  · obtain ⟨hg, hl, -⟩ := Token.phrases_product hk
    rw [if_neg (hk.text_ne (by decide))] at h
    rwa [hl, ← hg]
  · obtain ⟨hg, -, -⟩ := Token.phrases_power hk
    rw [if_pos (by simpa using hk.2), hg] at h
    exact absurd h (Nat.not_lt.mpr s'.grade_le)

lemma demand_le_grade (fs : List Frame) (hfs : Stacked scope fs)
    (hl : ∀ l s' gs, fs = .operator l s' :: gs →
      Conversion.yieldsTo (s.resolve .binary) (s'.resolve .binary) = false)
    (hn : ∀ s' gs, fs = .negation s' :: gs →
      Conversion.yieldsTo (s.resolve .binary) (s'.resolve .unary) = false) :
    (demand fs).rank ≤ s.grade.rank := by
  have hone : Phrase.expression.rank ≤ s.grade.rank := by
    cases s.grade <;> decide
  cases hfs with
  | nil => exact hone
  | bracket => exact hone
  | call => exact hone
  | @negation s' gs =>
    have h := hn s' gs rfl
    rw [yieldsTo_unary hs] at h
    cases h
  | @operator l s' gs hs' =>
    have h := hl l s' gs rfl
    rw [← Bool.not_eq_true, yieldsTo_binary hs hs'] at h
    by_cases ht : s.text = "^"
    · have hg := (Token.phrases_power ⟨hs.1, by simp [ht]⟩).1
      rw [hg]
      exact s'.rightPhrase_le
    · rw [if_neg ht, Nat.not_le] at h
      exact Nat.le_trans s'.rightPhrase_le_succ h

lemma stacked_operator (hfs : Stacked scope fs) (ht : Derives scope .primary t) :
    Stacked scope (.operator (absorb (Conversion.yieldsTo (s.resolve .binary)) fs t).2 s ::
      (absorb (Conversion.yieldsTo (s.resolve .binary)) fs t).1) := by
  have hd : Derives scope (demand fs) t := ht.loosen (Nat.le_succ_of_le (demand_le fs))
  have hl : Derives scope s.leftPhrase t := ht.loosen (Nat.le_succ_of_le s.leftPhrase_le)
  obtain ⟨hgs, -⟩ := absorb_stacked (Conversion.yieldsTo (s.resolve .binary)) hfs hd
  obtain ⟨ho, hn⟩ := head_absorb (Conversion.yieldsTo (s.resolve .binary)) fs t
  have hleft := absorb_derives hfs hd hl (fun _ => leftPhrase_le_grade hs) s.leftPhrase_le
  exact .operator hs hleft (demand_le_grade hs _ hgs ho hn) hgs

end Yielding

end Sketch

end Reckoner
