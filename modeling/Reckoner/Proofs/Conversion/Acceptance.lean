import Mathlib.Tactic.SplitIfs
import Reckoner.Proofs.Conversion.Projection

/-! Accepting a token in the conversion of a sketch. Releasing operators is absorbing
frames, and each token takes its place as it does in the sketch. -/

namespace Reckoner

namespace Conversion

def note (c : Conversion) (t : Token) : Conversion := { c with accepted := c.accepted.push t }

lemma accept_operator {c : Conversion} {t : Token}
    (h : t.category = .binary ∨ t.category = .unary) :
    c.accept t = .ok (((c.release (yieldsTo t)).note t).hold t) := by
  rcases h with h | h <;> simp [accept, push, h, release, note]

lemma accept_closing {c : Conversion} {t : Token} (h : t.category = .closing) :
    c.accept t = (c.note t).close t := by
  simp [accept, push, h, note]

lemma drain_note (c : Conversion) (t : Token) : (c.note t).drain = c.drain.note t := rfl

end Conversion

lemma Token.precedence_le {t : Token} (h : t.category ≠ .functionName) : t.precedence ≤ 4 := by
  unfold precedence
  split
  · contradiction
  · exact Nat.le_refl 4
  · split_ifs <;> omega
  · exact Nat.zero_le 4

namespace Sketch

variable {scope : Scope} {fs : List Frame} {t u : Tree}

section Release

variable {p : Token → Bool}

lemma release_operator {l : Tree} {s : Token} (hp : p (s.resolve .binary)) :
    (⟨.operator l s :: fs, .operand t⟩ : Sketch).conversion.release p =
      (⟨fs, .operand (.binary l s t)⟩ : Sketch).conversion.release p := by
  simp [conversion, Conversion.release, Frame.leaves, Frame.output, Frame.pending, Focus.leaves,
    Focus.output, Focus.pending, Tree.leaves, Tree.postorder, hp]

lemma release_negation {s : Token} (hp : p (s.resolve .unary)) :
    (⟨.negation s :: fs, .operand t⟩ : Sketch).conversion.release p =
      (⟨fs, .operand (.negation s t)⟩ : Sketch).conversion.release p := by
  simp [conversion, Conversion.release, Frame.leaves, Frame.output, Frame.pending, Focus.leaves,
    Focus.output, Focus.pending, Tree.leaves, Tree.postorder, hp]

lemma release_eq_self {c : Conversion} (h : ∀ x, c.pending.head? = some x → p x = false) :
    c.release p = c := by
  obtain ⟨accepted, output, _ | ⟨x, xs⟩⟩ := c
  · simp [Conversion.release]
  · simp [Conversion.release, h x rfl]

/-- Nothing but a function binds more tightly than a sign in front of an operand. -/
lemma release_unary {c : Conversion} {u : Token} (hu : u.category = .unary)
    (h : ∀ x, c.pending.head? = some x → x.category ≠ .functionName) :
    c.release (Conversion.yieldsTo u) = c := by
  apply release_eq_self
  intro x hx
  by_cases ho : x.category = .opening
  · simp [Conversion.yieldsTo, ho]
  have hr : u.isRightAssociative := by simp [Token.isRightAssociative, hu]
  have hprecedence : u.precedence = 4 := by simp [Token.precedence, hu]
  rw [← Bool.not_eq_true, yieldsTo_iff ho, if_pos hr, hprecedence, Nat.not_lt]
  exact Token.precedence_le (h x hx)

lemma release_conversion (hp : ∀ o : Token, p (o.resolve .opening) = false) (fs : List Frame)
    (t : Tree) : (⟨fs, .operand t⟩ : Sketch).conversion.release p =
      (⟨(absorb p fs t).1, .operand (absorb p fs t).2⟩ : Sketch).conversion := by
  fun_induction absorb p fs t with
  | case1 l s fs t hs ih => rw [release_operator hs, ih]
  | case3 s fs t hs ih => rw [release_negation hs, ih]
  | case2 l s fs t hs =>
    apply release_eq_self
    simp [conversion, Focus.pending, Frame.pending, hs]
  | case4 s fs t hs =>
    apply release_eq_self
    simp [conversion, Focus.pending, Frame.pending, hs]
  | case5 fs t ho hn =>
    apply release_eq_self
    rcases fs with _ | ⟨_ | _ | ⟨f, o⟩, fs⟩
    · simp [conversion, Focus.pending]
    · exact (ho _ _ _ rfl).elim
    · exact (hn _ _ rfl).elim
    · simp [conversion, Focus.pending, Frame.pending, hp]

end Release

lemma head_pending (fs : List Frame) :
    ∀ x, (fs.flatMap Frame.pending).head? = some x → x.category ≠ .functionName := by
  intro x hx
  rcases fs with _ | ⟨⟨l, s⟩ | s | ⟨f, o⟩, fs⟩
  · cases hx
  · obtain rfl : s.resolve .binary = x := by simpa [Frame.pending] using hx
    simp [Token.resolve]
  · obtain rfl : s.resolve .unary = x := by simpa [Frame.pending] using hx
    simp [Token.resolve]
  · obtain rfl : o.resolve .opening = x := by simpa [Frame.pending] using hx
    simp [Token.resolve]

section Due

variable {scope : Scope} {fs : List Frame} {t : Token}

lemma accept_number (fs : List Frame) (t : Token) :
    (⟨fs, .due⟩ : Sketch).conversion.accept (t.resolve .number) =
      .ok (⟨fs, .operand (.number t)⟩ : Sketch).conversion := by
  simp [Conversion.accept, Conversion.push, Conversion.emit, conversion, Token.resolve,
    Focus.leaves, Focus.output, Focus.pending, Tree.leaves, Tree.postorder]

lemma accept_name (fs : List Frame) (t : Token) :
    (⟨fs, .due⟩ : Sketch).conversion.accept (t.resolve .variableName) =
      .ok (⟨fs, .operand (.name t)⟩ : Sketch).conversion := by
  simp [Conversion.accept, Conversion.push, Conversion.emit, conversion, Token.resolve,
    Focus.leaves, Focus.output, Focus.pending, Tree.leaves, Tree.postorder]

lemma accept_function (fs : List Frame) (t : Token) :
    (⟨fs, .due⟩ : Sketch).conversion.accept (t.resolve .functionName) =
      .ok (⟨fs, .named t⟩ : Sketch).conversion := by
  simp [Conversion.accept, Conversion.push, Conversion.hold, conversion, Token.resolve,
    Focus.leaves, Focus.output, Focus.pending]

lemma accept_opening (fs : List Frame) (t : Token) :
    (⟨fs, .due⟩ : Sketch).conversion.accept (t.resolve .opening) =
      .ok (⟨.bracket none t :: fs, .due⟩ : Sketch).conversion := by
  simp [Conversion.accept, Conversion.push, Conversion.hold, conversion, Token.resolve,
    Focus.leaves, Focus.output, Focus.pending, Frame.leaves, Frame.output, Frame.pending]

lemma accept_call (fs : List Frame) (f t : Token) :
    (⟨fs, .named f⟩ : Sketch).conversion.accept (t.resolve .opening) =
      .ok (⟨.bracket (some f) t :: fs, .due⟩ : Sketch).conversion := by
  simp [Conversion.accept, Conversion.push, Conversion.hold, conversion, Token.resolve,
    Focus.leaves, Focus.output, Focus.pending, Frame.leaves, Frame.output, Frame.pending]

lemma release_due (fs : List Frame) (t : Token) :
    (⟨fs, .due⟩ : Sketch).conversion.release (Conversion.yieldsTo (t.resolve .unary)) =
      (⟨fs, .due⟩ : Sketch).conversion :=
  release_unary rfl (by simpa [conversion, Focus.pending] using head_pending fs)

lemma accept_negation (fs : List Frame) (t : Token) :
    (⟨fs, .due⟩ : Sketch).conversion.accept (t.resolve .unary) =
      .ok (⟨.negation t :: fs, .due⟩ : Sketch).conversion := by
  rw [Conversion.accept_operator (.inr rfl), release_due]
  simp [Conversion.hold, Conversion.note, conversion, Focus.leaves, Focus.output, Focus.pending, Frame.leaves,
    Frame.output, Frame.pending]

end Due

section Operand

variable {fs : List Frame} {u : Tree} {t : Token}

lemma accept_operator (fs : List Frame) (u : Tree) (t : Token) :
    (⟨fs, .operand u⟩ : Sketch).conversion.accept (t.resolve .binary) =
      .ok (⟨.operator (absorb (Conversion.yieldsTo (t.resolve .binary)) fs u).2 t ::
        (absorb (Conversion.yieldsTo (t.resolve .binary)) fs u).1, .due⟩ : Sketch).conversion := by
  have hp : ∀ o : Token, Conversion.yieldsTo (t.resolve .binary) (o.resolve .opening) = false := by
    simp [Conversion.yieldsTo, Token.resolve]
  rw [Conversion.accept_operator (.inl rfl), release_conversion hp]
  simp [Conversion.hold, Conversion.note, conversion, Focus.leaves, Focus.output, Focus.pending, Frame.leaves,
    Frame.output, Frame.pending]

lemma call_eq_self {c : Conversion}
    (h : ∀ x, c.pending.head? = some x → x.category ≠ .functionName) : c.call = c := by
  obtain ⟨accepted, output, _ | ⟨x, xs⟩⟩ := c
  · rfl
  · simp [Conversion.call, h x rfl]

lemma close_opening {c : Conversion} {t o : Token} {rest : List Token} (h : c.pending = o :: rest)
    (ho : o.category = .opening) (hm : isMatchingPair o.firstChar t.firstChar) :
    c.close t = .ok (if t.firstChar = '|'
      then ({ c with pending := rest } : Conversion).emit (Conversion.absoluteValue t)
      else { c with pending := rest }).call := by
  have hdrain : c.drain = c := by
    apply release_eq_self
    intro x hx
    obtain rfl : o = x := by simpa [h] using hx
    simp [ho]
  simp [Conversion.close, hdrain, h, hm]

lemma drain_drain (c : Conversion) : c.drain.drain = c.drain := by
  apply release_eq_self
  intro x hx
  cases h : c.drain.pending with
  | nil => simp [h] at hx
  | cons y ys =>
    obtain rfl : y = x := by simpa [h] using hx
    simp [Conversion.category_of_drain h]

lemma close_drain (c : Conversion) (t : Token) : c.drain.close t = c.close t := by
  rw [Conversion.close, Conversion.close, drain_drain]

section Closing

variable {o c : Token} (hm : isMatchingPair o.firstChar c.firstChar)
include hm

lemma close_bracket (fs : List Frame) (u : Tree) :
    ((⟨.bracket none o :: fs, .operand u⟩ : Sketch).conversion.note (c.resolve .closing)).close
        (c.resolve .closing) = .ok (⟨fs, .operand (enclose o u c none)⟩ : Sketch).conversion := by
  rw [close_opening (t := c.resolve .closing) (o := o.resolve .opening) rfl rfl hm]
  have hc : (c.resolve .closing).firstChar = c.firstChar := rfl
  rw [hc]
  by_cases hbar : c.firstChar = '|'
  · rw [if_pos hbar, call_eq_self (head_pending fs), enclose, if_pos hbar]
    simp [conversion, Conversion.note, Conversion.emit, Conversion.absoluteValue, Focus.leaves,
      Focus.output, Focus.pending, Frame.leaves, Frame.output, Tree.leaves, Tree.postorder,
      Token.resolve, ← List.flatMap_def]
  · rw [if_neg hbar, call_eq_self (head_pending fs), enclose, if_neg hbar]
    simp [conversion, Conversion.note, Focus.leaves, Focus.output, Focus.pending, Frame.leaves,
      Frame.output, Tree.leaves, Tree.postorder, ← List.flatMap_def]

lemma close_call (fs : List Frame) (f : Token) (u : Tree) (hbar : c.firstChar ≠ '|') :
    ((⟨.bracket (some f) o :: fs, .operand u⟩ : Sketch).conversion.note (c.resolve .closing)).close
        (c.resolve .closing) = .ok (⟨fs, .operand (enclose o u c (some f))⟩ : Sketch).conversion := by
  rw [close_opening (t := c.resolve .closing) (o := o.resolve .opening) rfl rfl hm]
  have hc : (c.resolve .closing).firstChar = c.firstChar := rfl
  rw [hc, if_neg hbar]
  simp [Conversion.call, conversion, Conversion.note, Focus.leaves, Focus.output, Focus.pending,
    Frame.leaves, Frame.output, Frame.pending, enclose, Tree.leaves, Tree.postorder, Token.resolve,
    ← List.flatMap_def]

end Closing

lemma accept_closing (hfs : Stacked scope fs) (hu : Derives scope .primary u) (c : Token) :
    ((⟨fs, .operand u⟩ : Sketch).conversion.accept (c.resolve .closing)).toOption =
      (close fs u c).map conversion := by
  have hd : Derives scope (demand fs) u := hu.loosen (Nat.le_succ_of_le (demand_le fs))
  obtain ⟨hgs, -⟩ := absorb_stacked (·.category != .opening) hfs hd
  have hdrain : (⟨fs, .operand u⟩ : Sketch).conversion.drain = _ :=
    release_conversion (p := (·.category != .opening)) (fun _ => rfl) fs u
  have hstop := absorb_all fs u
  rw [Conversion.accept_closing rfl, ← close_drain, Conversion.drain_note, hdrain, close]
  generalize absorb (·.category != .opening) fs u = r at hgs hstop ⊢
  obtain ⟨gs, v⟩ := r
  rcases hstop with rfl | ⟨f, o, gs, rfl⟩
  · rfl
  · dsimp only at hgs ⊢
    by_cases hm : isMatchingPair o.firstChar c.firstChar
    · rw [if_pos hm]
      cases hgs with
      | bracket => rw [close_bracket hm]; rfl
      | @call f _ _ _ _ _ hot =>
        have hbar : c.firstChar ≠ '|' := by
          intro hb
          have ho : o.firstChar = '(' := by simp [Token.firstChar, hot]
          rw [ho, hb] at hm
          exact absurd hm (by decide)
        rw [close_call hm gs f v hbar]
        rfl
    · rw [if_neg hm]
      have ho : (o.resolve .opening).firstChar = o.firstChar := rfl
      have hc : (c.resolve .closing).firstChar = c.firstChar := rfl
      have hself : ((⟨.bracket f o :: gs, .operand v⟩ : Sketch).conversion.note
          (c.resolve .closing)).drain = _ :=
        release_eq_self (by simp [conversion, Conversion.note, Focus.pending, Frame.pending, Token.resolve])
      rw [Conversion.close, hself]
      simp [conversion, Conversion.note, Focus.pending, Frame.pending, ho, hc, hm, Except.toOption]

end Operand

end Sketch

end Reckoner
