import Reckoner.Proofs.Grammar.Soundness

/-! Reading finds every derivation. The tokens of a phrase leave some of its operators
waiting on the stack, and whatever absorbs those operators finds the tree of the phrase
on the frames below. -/

namespace Reckoner.Sketch

variable {scope : Scope} {fs : List Frame} {p : Token → Bool} {q r : Phrase}

/-- The condition holds of every operator that a phrase may leave waiting. -/
def Releases (p : Token → Bool) (q : Phrase) : Prop :=
  (∀ s : Token, s.IsBinary → q.rank ≤ s.grade.rank → p (s.resolve .binary)) ∧
    ∀ s : Token, p (s.resolve .unary)

lemma Releases.mono (h : Releases p q) (hqr : q.rank ≤ r.rank) : Releases p r :=
  ⟨fun s hs hr => h.1 s hs (Nat.le_trans hqr hr), h.2⟩

lemma releases_all (q : Phrase) : Releases (·.category != .opening) q :=
  ⟨fun _ _ _ => rfl, fun _ => rfl⟩

section Operators

variable {s : Token} (hs : s.IsBinary)
include hs

lemma releases_yieldsTo : Releases (Conversion.yieldsTo (s.resolve .binary)) s.leftPhrase := by
  refine ⟨?_, yieldsTo_unary hs⟩
  intro s' hs' hle
  rw [yieldsTo_binary hs hs']
  -- a power takes a left operand that leaves nothing but signs waiting
  by_cases ht : s.text = "^"
  · have hl := (Token.phrases_power ⟨hs.1, by simp [ht]⟩).2.1
    rw [hl] at hle
    exact absurd (Nat.le_trans hle s'.grade_le) (by decide)
  · rw [if_neg ht]
    exact Nat.le_trans s.grade_le_leftPhrase hle

lemma absorb_yieldsTo (hfs : Stacked scope fs) (hd : (demand fs).rank ≤ s.grade.rank) (t : Tree) :
    absorb (Conversion.yieldsTo (s.resolve .binary)) fs t = (fs, t) := by
  cases hfs with
  | nil => rfl
  | bracket => rfl
  | call => rfl
  | negation =>
    have h : Phrase.unary.rank ≤ Phrase.power.rank := Nat.le_trans hd s.grade_le
    exact absurd h (by decide)
  | @operator l s' gs hs' =>
    have hno : Conversion.yieldsTo (s.resolve .binary) (s'.resolve .binary) = false := by
      rw [← Bool.not_eq_true, yieldsTo_binary hs hs']
      have hd : s'.rightPhrase.rank ≤ s.grade.rank := hd
      by_cases ht : s.text = "^"
      · rw [if_pos ht, (Token.phrases_power ⟨hs.1, by simp [ht]⟩).1]
        exact Nat.not_lt.mpr s'.grade_le
      · rw [if_neg ht]
        by_cases ht' : s'.text = "^"
        · have hr := (Token.phrases_power ⟨hs'.1, by simp [ht']⟩).2.2
          rw [hr] at hd
          have hlt := Nat.lt_of_lt_of_le (hs.grade_lt_rightPhrase ht) s.rightPhrase_le
          exact absurd hd (Nat.not_le.mpr hlt)
        · exact Nat.not_le.mpr (Nat.lt_of_lt_of_le (hs'.grade_lt_rightPhrase ht') hd)
    simp [absorb, hno]

end Operators

/-- From frames that lack the phrase, reading its tokens leaves the phrase to be absorbed. -/
def Reads (scope : Scope) (q : Phrase) (u : Tree) : Prop :=
  ∀ fs, Stacked scope fs → (demand fs).rank ≤ q.rank → ∃ gs v,
    run scope ⟨fs, .due⟩ u.tokens = some ⟨gs, .operand v⟩ ∧
      ∀ p, Releases p q → absorb p gs v = absorb p fs u

lemma reads_primary {u : Tree}
    (h : ∀ fs, Stacked scope fs → run scope ⟨fs, .due⟩ u.tokens = some ⟨fs, .operand u⟩) :
    Reads scope .primary u :=
  fun fs hfs _ => ⟨fs, u, h fs hfs, fun _ _ => rfl⟩

lemma Reads.loosen {u : Tree} (h : Reads scope r u) (hqr : q.rank ≤ r.rank) :
    Reads scope q u := by
  intro fs hfs hd
  obtain ⟨gs, v, hrun, habsorb⟩ := h fs hfs (Nat.le_trans hd hqr)
  exact ⟨gs, v, hrun, fun p hp => habsorb p (hp.mono hqr)⟩

section Rules

variable {l u : Tree} {s o c : Token} {f : Option Token}

lemma reads_binary (hs : s.IsBinary) (hl : Derives scope s.leftPhrase l)
    (ihl : Reads scope s.leftPhrase l) (ihr : Reads scope s.rightPhrase u) :
    Reads scope s.grade (.binary l s u) := by
  intro fs hfs hd
  -- what the left operand leaves waiting is absorbed when the sign is read
  obtain ⟨gs, v, hrun, habsorb⟩ := ihl fs hfs (Nat.le_trans hd s.grade_le_leftPhrase)
  have hleft : absorb (Conversion.yieldsTo (s.resolve .binary)) gs v = (fs, l) :=
    (habsorb _ (releases_yieldsTo hs)).trans (absorb_yieldsTo hs hfs hd l)
  have hsign : read scope ⟨gs, .operand v⟩ s = some ⟨.operator l s :: fs, .due⟩ := by
    have hbar : s.text ≠ "|" := hs.text_ne (by decide)
    simp [read, continueOperand, hs.1, hbar, hleft]
  obtain ⟨hs', w, hrun', habsorb'⟩ := ihr (.operator l s :: fs) (.operator hs hl hd hfs) (Nat.le_refl _)
  refine ⟨hs', w, ?_, ?_⟩
  · rw [Tree.tokens, run_append, hrun, Option.bind_some, run_cons, hsign, Option.bind_some, hrun']
  · intro p hp
    rw [habsorb' p (hp.mono s.grade_le_rightPhrase)]
    simp [absorb, hp.1 s hs]

lemma reads_negation (hs : s.IsSign ["-"]) (ih : Reads scope .unary u) :
    Reads scope .unary (.negation s u) := by
  intro fs hfs hd
  have hsign : read scope ⟨fs, .due⟩ s = some ⟨.negation s :: fs, .due⟩ := by
    have ht : s.text = "-" := by simpa using hs.2
    simp [read, beginOperand, hs.1, ht]
  obtain ⟨gs, v, hrun, habsorb⟩ := ih (.negation s :: fs) (.negation hs hfs) (Nat.le_refl _)
  refine ⟨gs, v, ?_, ?_⟩
  · rw [Tree.tokens, run_cons, hsign, Option.bind_some, hrun]
  · intro p hp
    rw [habsorb p hp]
    simp [absorb, hp.2 s]

lemma run_closed (hu : Reads scope .expression u) (hfs : Stacked scope (.bracket f o :: fs))
    (hc : c.Closes) (hm : isMatchingPair o.firstChar c.firstChar) :
    run scope ⟨.bracket f o :: fs, .due⟩ (u.tokens ++ [c]) =
      some ⟨fs, .operand (enclose o u c f)⟩ := by
  obtain ⟨gs, v, hrun, habsorb⟩ := hu (.bracket f o :: fs) hfs (Nat.le_refl _)
  have hclose : close gs v c = some ⟨fs, .operand (enclose o u c f)⟩ := by
    simp [close, habsorb _ (releases_all _), absorb, hm]
  have hread : read scope ⟨gs, .operand v⟩ c = some ⟨fs, .operand (enclose o u c f)⟩ := by
    rcases closes_iff.mp hc with ⟨hcc, -⟩ | ⟨hcc, hct⟩
    · simp [read, continueOperand, hcc, hclose]
    · simp [read, continueOperand, hcc, hct, hclose]
  rw [run_append, hrun, Option.bind_some, run_cons, hread]
  rfl

end Rules

lemma bracketPair {o c : Token} (ho : o.category = .opening) (hc : c.category = .closing)
    (h : (o.text, c.text) ∈ [("(", ")"), ("[", "]"), ("\x7b", "\x7d")]) :
    o.Opens ∧ c.Closes ∧ isMatchingPair o.firstChar c.firstChar ∧ c.firstChar ≠ '|' := by
  simp only [List.mem_cons, Prod.mk.injEq, List.not_mem_nil, or_false] at h
  rcases h with ⟨hot, hct⟩ | ⟨hot, hct⟩ | ⟨hot, hct⟩ <;>
    simp [Token.Opens, Token.Closes, Token.firstChar, isMatchingPair, ho, hc, hot, hct]

lemma barPair {o c : Token} (ho : o.IsSign ["|"]) (hc : c.IsSign ["|"]) :
    o.Opens ∧ c.Closes ∧ isMatchingPair o.firstChar c.firstChar ∧ c.firstChar = '|' := by
  have hot : o.text = "|" := by simpa using ho.2
  have hct : c.text = "|" := by simpa using hc.2
  exact ⟨.inr ho, .inr hc, by simp [Token.firstChar, isMatchingPair, hot, hct],
    by simp [Token.firstChar, hct]⟩

theorem reads_of_derives {t : Tree} (h : Derives scope q t) : Reads scope q t := by
  induction h with
  | @sum l r s hl hs hr ihl ihr =>
    obtain ⟨hg, hl', hr'⟩ := Token.phrases_sum hs
    exact hg ▸ reads_binary (hs.isBinary (by decide)) (hl' ▸ hl) (hl' ▸ ihl) (hr' ▸ ihr)
  | ofTerm _ ih => exact ih.loosen (by decide)
  | @product l r s hl hs hr ihl ihr =>
    obtain ⟨hg, hl', hr'⟩ := Token.phrases_product hs
    exact hg ▸ reads_binary (hs.isBinary (by decide)) (hl' ▸ hl) (hl' ▸ ihl) (hr' ▸ ihr)
  | ofPower _ ih => exact ih.loosen (by decide)
  | @power l r s hl hs hr ihl ihr =>
    obtain ⟨hg, hl', hr'⟩ := Token.phrases_power hs
    exact hg ▸ reads_binary (hs.isBinary (by decide)) (hl' ▸ hl) (hl' ▸ ihl) (hr' ▸ ihr)
  | ofUnary _ ih => exact ih.loosen (by decide)
  | negation hs _ ih => exact reads_negation hs ih
  | ofPrimary _ ih => exact ih.loosen (by decide)
  | number hc =>
    apply reads_primary
    intro fs _
    simp [Tree.tokens, run, read, beginOperand, hc]
  | name hc hf hv =>
    apply reads_primary
    intro fs _
    simp [Tree.tokens, run, read, beginOperand, hc, hf, hv]
  | @bracket t o c hoc hcc hpair _ ih =>
    obtain ⟨ho, hc, hm, hbar⟩ := bracketPair hoc hcc hpair
    apply reads_primary
    intro fs hfs
    have hopen : read scope ⟨fs, .due⟩ o = some ⟨.bracket none o :: fs, .due⟩ := by
      simp [read, beginOperand, hoc]
    rw [Tree.tokens, run_cons, hopen, Option.bind_some, run_closed ih (.bracket ho hfs) hc hm,
      enclose, if_neg hbar]
  | @bars t o c hos hcs _ ih =>
    obtain ⟨ho, hc, hm, hbar⟩ := barPair hos hcs
    apply reads_primary
    intro fs hfs
    have hopen : read scope ⟨fs, .due⟩ o = some ⟨.bracket none o :: fs, .due⟩ := by
      have hot : o.text = "|" := by simpa using hos.2
      simp [read, beginOperand, hos.1, hot]
    rw [Tree.tokens, run_cons, hopen, Option.bind_some, run_closed ih (.bracket ho hfs) hc hm,
      enclose, if_pos hbar]
  | @call t f o c hfc hfs hoc hot hcc hct _ ih =>
    obtain ⟨-, hc, hm, -⟩ := bracketPair hoc hcc (by simp [hot, hct])
    apply reads_primary
    intro fs hstack
    have hname : read scope ⟨fs, .due⟩ f = some ⟨fs, .named f⟩ := by
      simp [read, beginOperand, hfc, hfs]
    have hopen : read scope ⟨fs, .named f⟩ o = some ⟨.bracket (some f) o :: fs, .due⟩ := by
      simp [read, openCall, hoc, hot]
    rw [Tree.tokens, run_cons, hname, Option.bind_some, run_cons, hopen, Option.bind_some,
      run_closed ih (.call hfc hfs hoc hot hstack) hc hm, enclose]

theorem finish_run_tokens {t : Tree} (h : Derives scope .expression t) :
    (run scope empty t.tokens).bind finish = some t := by
  obtain ⟨gs, v, hrun, habsorb⟩ := reads_of_derives h [] .nil (Nat.le_refl _)
  have hfinish := habsorb _ (releases_all _)
  rw [empty, hrun, Option.bind_some]
  simp [finish, hfinish, absorb]

theorem finish_run_iff {ts : List Token} (hts : ∀ t ∈ ts, t.Spelled) {t : Tree} :
    (run scope empty ts).bind finish = some t ↔ Derives scope .expression t ∧ t.tokens = ts := by
  constructor
  · intro h
    obtain ⟨d, hrun, hfinish⟩ := Option.bind_eq_some_iff.mp h
    obtain ⟨hd, htokens⟩ := run_sound (sound_empty scope) hts hrun
    obtain ⟨ht, htokens'⟩ := finish_sound hd hfinish
    exact ⟨ht, by rw [htokens', htokens]; rfl⟩
  · rintro ⟨ht, rfl⟩
    exact finish_run_tokens ht

theorem derivation_unique {t u : Tree} (ht : Derives scope .expression t)
    (hu : Derives scope .expression u) (h : t.tokens = u.tokens) : t = u := by
  have hrun := finish_run_tokens ht
  rw [h, finish_run_tokens hu] at hrun
  exact (Option.some.inj hrun).symm

end Reckoner.Sketch
