import Reckoner.Proofs.Grammar.Frames

/-! A sketch read from the empty one stands for a partial derivation: its frames nest as
the grammar allows, and its focus is a primary. Closing the last frame makes a derivation
of everything that was read. -/

namespace Reckoner

namespace Token

namespace Spelled

variable {t : Token} (h : t.Spelled)
include h

lemma opens (hc : t.category = .opening) : t.Opens := by
  obtain ⟨c, hs, ht⟩ := h.sign (by simp [hc]) (by simp [hc])
  rw [hc] at hs
  refine .inl ⟨hc, ?_⟩
  rcases (by simpa [Lexeme.signs] using hs : c = '(' ∨ c = '[' ∨ c = '{') with rfl | rfl | rfl <;>
    simp [ht]

lemma closes (hc : t.category = .closing) : t.Closes := by
  obtain ⟨c, hs, ht⟩ := h.sign (by simp [hc]) (by simp [hc])
  rw [hc] at hs
  refine .inl ⟨hc, ?_⟩
  rcases (by simpa [Lexeme.signs] using hs : c = ')' ∨ c = ']' ∨ c = '}') with rfl | rfl | rfl <;>
    simp [ht]

lemma isBinary (hc : t.category = .operator) (hbar : t.text ≠ "|") : t.IsBinary := by
  obtain ⟨c, hs, ht⟩ := h.sign (by simp [hc]) (by simp [hc])
  rw [hc] at hs
  refine ⟨hc, ?_⟩
  rcases (by simpa [Lexeme.signs] using hs :
    c = '+' ∨ c = '-' ∨ c = '*' ∨ c = '/' ∨ c = '^' ∨ c = '|') with
    rfl | rfl | rfl | rfl | rfl | rfl <;> simp_all

end Spelled

end Token

namespace Sketch

variable {scope : Scope} {fs gs : List Frame} {t u : Tree}

def Focused (scope : Scope) : Focus → Prop
  | .due => True
  | .named f => f.category = .identifier ∧ (scope.function? f.text).isSome
  | .operand t => Derives scope .primary t

structure Sound (scope : Scope) (d : Sketch) : Prop where
  stacked : Stacked scope d.frames
  focused : Focused scope d.focus

lemma sound_empty (scope : Scope) : Sound scope empty := ⟨.nil, trivial⟩

section Brackets

variable {o c : Token}

lemma opens_iff : o.Opens ↔
    o.category = .opening ∧ (o.text = "(" ∨ o.text = "[" ∨ o.text = "\x7b") ∨
      o.category = .operator ∧ o.text = "|" := by
  simp [Token.Opens, Token.IsSign]

lemma closes_iff : c.Closes ↔
    c.category = .closing ∧ (c.text = ")" ∨ c.text = "]" ∨ c.text = "\x7d") ∨
      c.category = .operator ∧ c.text = "|" := by
  simp [Token.Closes, Token.IsSign]

lemma derives_enclose (ho : o.Opens) (hc : c.Closes)
    (hm : isMatchingPair o.firstChar c.firstChar) (ht : Derives scope .expression t) :
    Derives scope .primary (enclose o t c none) := by
  rw [enclose]
  rcases closes_iff.mp hc with ⟨hcc, hct⟩ | ⟨hcc, hct⟩
  · have hbar : c.firstChar ≠ '|' := by
      rcases hct with hct | hct | hct <;> simp [Token.firstChar, hct]
    rw [if_neg hbar]
    rcases opens_iff.mp ho with ⟨hoc, hot⟩ | ⟨hoc, hot⟩
    · refine .bracket hoc hcc ?_ ht
      rcases hot with hot | hot | hot <;> rcases hct with hct | hct | hct <;>
        simp_all [Token.firstChar, isMatchingPair]
    · exfalso
      rcases hct with hct | hct | hct <;> simp [Token.firstChar, hot, hct, isMatchingPair] at hm
  · rw [if_pos (by simp [Token.firstChar, hct])]
    rcases opens_iff.mp ho with ⟨hoc, hot⟩ | ⟨hoc, hot⟩
    · exfalso
      rcases hot with hot | hot | hot <;> simp [Token.firstChar, hot, hct, isMatchingPair] at hm
    · exact .bars ⟨hoc, by simp [hot]⟩ ⟨hcc, by simp [hct]⟩ ht

lemma derives_call {f : Token} (hf : f.category = .identifier)
    (hfs : (scope.function? f.text).isSome) (ho : o.category = .opening) (hot : o.text = "(")
    (hc : c.Closes) (hm : isMatchingPair o.firstChar c.firstChar)
    (ht : Derives scope .expression t) : Derives scope .primary (enclose o t c (some f)) := by
  rcases closes_iff.mp hc with ⟨hcc, hct⟩ | ⟨-, hct⟩
  · refine .call hf hfs ho hot hcc ?_ ht
    rcases hct with hct | hct | hct <;> simp_all [Token.firstChar, isMatchingPair]
  · simp [Token.firstChar, hot, hct, isMatchingPair] at hm

lemma tokens_enclose (o : Token) (t : Tree) (c : Token) (f : Option Token) :
    (enclose o t c f).tokens = f.toList ++ o :: (t.tokens ++ [c]) := by
  cases f with
  | some f => rfl
  | none =>
    by_cases hc : c.firstChar = '|' <;> simp [enclose, hc, Tree.tokens]

lemma close_sound {d : Sketch} (hs : Stacked scope fs) (ht : Derives scope .primary t)
    (hc : c.Closes) (h : close fs t c = some d) :
    Sound scope d ∧ d.tokens = (⟨fs, .operand t⟩ : Sketch).tokens ++ [c] := by
  have hd : Derives scope (demand fs) t := ht.loosen (Nat.le_succ_of_le (demand_le fs))
  obtain ⟨hgs, hu⟩ := absorb_stacked (·.category != .opening) hs hd
  have htokens := tokens_absorb (·.category != .opening) fs t
  rw [close] at h
  generalize absorb (·.category != .opening) fs t = r at h hgs hu htokens
  obtain ⟨_ | ⟨_ | _ | ⟨f, o⟩, gs⟩, u⟩ := r
  · cases h
  · cases h
  · cases h
  · dsimp only at h hgs hu htokens
    split at h
    next hm =>
      obtain rfl := Option.some.inj h
      rw [← htokens]
      cases hgs with
      | bracket ho hgs =>
        refine ⟨⟨hgs, derives_enclose ho hc hm hu⟩, ?_⟩
        simp [tokens, Focus.tokens, tokens_enclose, Frame.tokens]
      | call hf hfs ho hot hgs =>
        refine ⟨⟨hgs, derives_call hf hfs ho hot hc hm hu⟩, ?_⟩
        simp [tokens, Focus.tokens, tokens_enclose, Frame.tokens]
    next => cases h

end Brackets

section Reading

variable {d : Sketch} (hs : Stacked scope fs) {t : Token} (ht : t.Spelled)
include hs ht

lemma beginOperand_sound (h : beginOperand scope fs t = some d) :
    Sound scope d ∧ d.tokens = (⟨fs, .due⟩ : Sketch).tokens ++ [t] := by
  rw [beginOperand] at h
  split at h
  next hc =>
    obtain rfl := Option.some.inj h
    exact ⟨⟨hs, .number hc⟩, by simp [tokens, Focus.tokens, Tree.tokens]⟩
  next hc =>
    split_ifs at h with hf hv
    · obtain rfl := Option.some.inj h
      exact ⟨⟨hs, hc, hf⟩, by simp [tokens, Focus.tokens]⟩
    · obtain rfl := Option.some.inj h
      exact ⟨⟨hs, .name hc (by simpa using hf) hv⟩, by simp [tokens, Focus.tokens, Tree.tokens]⟩
  next hc =>
    obtain rfl := Option.some.inj h
    exact ⟨⟨.bracket (ht.opens hc) hs, trivial⟩, by simp [tokens, Focus.tokens, Frame.tokens]⟩
  next hc =>
    split_ifs at h with hbar hminus
    · obtain rfl := Option.some.inj h
      have ho : t.Opens := .inr ⟨hc, by simp [hbar]⟩
      exact ⟨⟨.bracket ho hs, trivial⟩, by simp [tokens, Focus.tokens, Frame.tokens]⟩
    · obtain rfl := Option.some.inj h
      have hn : t.IsSign ["-"] := ⟨hc, by simp [hminus]⟩
      exact ⟨⟨.negation hn hs, trivial⟩, by simp [tokens, Focus.tokens, Frame.tokens]⟩
  next => cases h

omit ht in
lemma openCall_sound {f : Token} (hf : Focused scope (.named f)) (h : openCall fs f t = some d) :
    Sound scope d ∧ d.tokens = (⟨fs, .named f⟩ : Sketch).tokens ++ [t] := by
  rw [openCall] at h
  split_ifs at h with ho
  obtain rfl := Option.some.inj h
  exact ⟨⟨.call hf.1 hf.2 ho.1 ho.2 hs, trivial⟩, by simp [tokens, Focus.tokens, Frame.tokens]⟩

lemma continueOperand_sound {u : Tree} (hu : Derives scope .primary u)
    (h : continueOperand fs u t = some d) :
    Sound scope d ∧ d.tokens = (⟨fs, .operand u⟩ : Sketch).tokens ++ [t] := by
  rw [continueOperand] at h
  split at h
  next hc =>
    split_ifs at h with hbar
    · exact close_sound hs hu (.inr ⟨hc, by simp [hbar]⟩) h
    · obtain rfl := Option.some.inj h
      refine ⟨⟨stacked_operator (ht.isBinary hc hbar) hs hu, trivial⟩, ?_⟩
      rw [← tokens_absorb (Conversion.yieldsTo (t.resolve .binary)) fs u]
      simp [tokens, Focus.tokens, Frame.tokens]
  next hc => exact close_sound hs hu (ht.closes hc) h
  next => cases h

end Reading

lemma read_sound {d d' : Sketch} (hd : Sound scope d) {t : Token} (ht : t.Spelled)
    (h : d.read scope t = some d') : Sound scope d' ∧ d'.tokens = d.tokens ++ [t] := by
  obtain ⟨fs, focus⟩ := d
  cases focus with
  | due => exact beginOperand_sound hd.stacked ht h
  | named f => exact openCall_sound hd.stacked hd.focused h
  | operand u => exact continueOperand_sound hd.stacked ht hd.focused h

lemma run_sound {d d' : Sketch} {ts : List Token} (hd : Sound scope d)
    (hts : ∀ t ∈ ts, t.Spelled) (h : d.run scope ts = some d') :
    Sound scope d' ∧ d'.tokens = d.tokens ++ ts := by
  induction ts generalizing d with
  | nil =>
    obtain rfl : d = d' := by simpa [run] using h
    exact ⟨hd, by simp⟩
  | cons t ts ih =>
    simp only [run, List.foldlM_cons, Option.bind_eq_bind, Option.bind_eq_some_iff] at h
    obtain ⟨e, he, h⟩ := h
    obtain ⟨hse, hte⟩ := read_sound hd (hts t (by simp)) he
    obtain ⟨hsd, htd⟩ := ih hse (fun u hu => hts u (by simp [hu])) h
    exact ⟨hsd, by rw [htd, hte, List.append_assoc, List.singleton_append]⟩

lemma finish_sound {d : Sketch} {t : Tree} (hd : Sound scope d) (h : d.finish = some t) :
    Derives scope .expression t ∧ t.tokens = d.tokens := by
  obtain ⟨fs, _ | _ | u⟩ := d
  · cases h
  · cases h
  · have hu : Derives scope .primary u := hd.focused
    obtain ⟨-, ht⟩ := absorb_stacked (·.category != .opening) hd.stacked
      (hu.loosen (Nat.le_succ_of_le (demand_le fs)))
    have htokens := tokens_absorb (·.category != .opening) fs u
    simp only [finish] at h
    generalize absorb (·.category != .opening) fs u = r at h ht htokens
    obtain ⟨_ | ⟨_, _⟩, v⟩ := r
    · obtain rfl := Option.some.inj h
      exact ⟨ht, htokens⟩
    · cases h

end Sketch

end Reckoner
