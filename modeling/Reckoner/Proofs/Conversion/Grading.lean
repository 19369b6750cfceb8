import Reckoner.Proofs.Conversion.Brackets

/-! What waits in a conversion. Inside each bracket every operator binds more tightly than the ones
below it, and a function waits below the bracket that calls it. -/

namespace Reckoner

variable {c d : Conversion} {t u : Token} {opened : List Token}

namespace Token

/-- The upper of two operators binds more tightly, or as tightly as the lower one where both group
to the right. -/
def LiesOn (upper lower : Token) : Prop :=
  lower.precedence < upper.precedence ∨
    lower.precedence = upper.precedence ∧ upper.isRightAssociative ∧ lower.isRightAssociative

lemma isRightAssociative_of_precedence (hu : u.category = .binary ∨ u.category = .unary)
    (hr : u.isRightAssociative) (h : t.precedence = u.precedence) : t.isRightAssociative := by
  have hprecedence : u.precedence = 3 ∨ u.precedence = 4 := by
    rcases hu with hu | hu <;> simp_all [isRightAssociative, precedence]
  rw [← h] at hprecedence
  unfold precedence at hprecedence
  split at hprecedence
  · omega
  next hc => simp [isRightAssociative, hc]
  · split_ifs at hprecedence <;> simp_all [isRightAssociative]
  · omega

lemma liesOn_of_not_yieldsTo (hu : u.category = .binary ∨ u.category = .unary)
    (ht : t.category ≠ .opening) (h : Conversion.yieldsTo u t = false) : u.LiesOn t := by
  rw [← Bool.not_eq_true, Sketch.yieldsTo_iff ht] at h
  split_ifs at h with hr
  · rcases Nat.lt_or_eq_of_le (Nat.not_lt.mp h) with hlt | heq
    · exact .inl hlt
    · exact .inr ⟨heq, hr, isRightAssociative_of_precedence hu hr heq⟩
  · exact .inl (Nat.not_le.mp h)

/-- Right below the bracket of a call its function may lie, and below no other token. -/
def Calls (upper lower : Token) : Prop :=
  lower.category = .functionName → upper.category = .opening ∧ upper.text = "("

end Token

lemma Category.endsOperand_of_canFollow {previous next : Category} (h : previous.canFollow next) :
    previous.endsOperand = next.continuesOperand := by
  revert h
  cases previous <;> cases next <;> decide

namespace Holds

variable {ps : List Token}

lemma category_mem (h : Holds ps opened) :
    ∀ t ∈ ps, t.category ∈ [.binary, .unary, .functionName, .opening] := by
  induction h with
  | nil => simp
  | operator ht _ ih => exact List.forall_mem_cons.mpr ⟨by rcases ht with ht | ht <;> simp [ht], ih⟩
  | bracket ho _ ih => exact List.forall_mem_cons.mpr ⟨by simp [ho], ih⟩
  | call hf ho _ _ ih =>
    exact List.forall_mem_cons.mpr ⟨by simp [ho], List.forall_mem_cons.mpr ⟨by simp [hf], ih⟩⟩

lemma filter_opening (h : Holds ps opened) : ps.filter (·.category == .opening) = opened := by
  induction h with
  | nil => rfl
  | operator ht _ ih => rcases ht with ht | ht <;> simpa [ht] using ih
  | bracket ho _ ih => simpa [ho] using ih
  | call hf ho _ _ ih => simpa [hf, ho] using ih

lemma isChain_calls (h : Holds ps opened) : ps.IsChain Token.Calls := by
  induction h with
  | nil => exact .nil
  | operator _ h ih | bracket _ h ih =>
    exact ih.cons fun f hf hfunction => absurd hfunction (h.head_ne_function f hf)
  | call hf ho htext h ih =>
    refine .cons_cons (fun _ => ⟨ho, htext⟩) (ih.cons fun g hg hfunction => ?_)
    exact absurd hfunction (h.head_ne_function g hg)

end Holds

namespace Conversion

lemma Tracks.filter_opening (h : c.Tracks opened) :
    c.pending.filter (·.category == .opening) = opened := by
  unfold Tracks at h
  split_ifs at h with hf
  · obtain ⟨f, ps, hlast, hpending, hps⟩ := h
    have hcategory : f.category = .functionName := by simpa [previous, hlast] using hf
    simp [hpending, hcategory, hps.filter_opening]
  · exact h.filter_opening

lemma Tracks.isChain_calls (h : c.Tracks opened) : c.pending.IsChain Token.Calls := by
  unfold Tracks at h
  split_ifs at h
  · obtain ⟨f, ps, -, hpending, hps⟩ := h
    rw [hpending]
    exact hps.isChain_calls.cons fun g hg hfunction => absurd hfunction (hps.head_ne_function g hg)
  · exact h.isChain_calls

lemma Tracks.back_of_head {f : Token} (h : c.Tracks opened) (hf : c.pending.head? = some f)
    (hfunction : f.category = .functionName) : c.accepted.back? = some f := by
  unfold Tracks at h
  split_ifs at h
  · obtain ⟨g, ps, hlast, hpending, -⟩ := h
    obtain rfl : g = f := by simpa [hpending] using hf
    exact hlast
  · exact absurd hfunction (h.head_ne_function f hf)

lemma Tracks.holds_of_canFollow (h : c.Tracks opened) (hu : c.previous.canFollow u.category)
    (ho : u.category ≠ .opening) : Holds c.pending opened := by
  have hf : c.previous ≠ .functionName := by
    intro hf
    rw [hf] at hu
    exact ho (by simpa [Category.canFollow, Category.awaitsOperand, Category.endsOperand] using hu)
  rwa [Tracks, if_neg hf] at h

/-- What accepting a classified token does. -/
inductive Accepts (c : Conversion) (opened : List Token) (u : Token) : Conversion → Prop
  | operand : u.category = .number ∨ u.category = .variableName →
      Accepts c opened u ((c.note u).emit u)
  | bracket : u.category = .opening → Accepts c opened u ((c.note u).hold u)
  | function : u.category = .functionName → Holds c.pending opened →
      Accepts c opened u ((c.note u).hold u)
  | operator : u.category = .binary ∨ u.category = .unary → Holds c.pending opened →
      Accepts c opened u (((c.release (yieldsTo u)).note u).hold u)
  | closing {o : Token} {rest : List Token} : u.category = .closing → Holds c.pending opened →
      c.drain.pending = o :: rest → opened.head? = some o →
      Accepts c opened u ((c.drain.note u).closed u rest)

lemma accepts_of_accept (hc : c.Tracks opened) (hu : IsClassified u)
    (hfollow : c.previous.canFollow u.category) (h : c.accept u = .ok d) :
    c.Accepts opened u d := by
  have hholds := hc.holds_of_canFollow hfollow
  simp only [IsClassified, List.mem_cons, List.not_mem_nil, or_false] at hu
  rcases hu with hu | hu | hu | hu | hu | hu
  · simp only [accept, push, hu] at h
    exact Except.ok.inj h ▸ .operand (.inl hu)
  · simp only [accept, push, hu] at h
    exact Except.ok.inj h ▸ .operand (.inr hu)
  · simp only [accept, push, hu] at h
    exact Except.ok.inj h ▸ .function hu (hholds (by simp [hu]))
  · simp only [accept, push, hu] at h
    exact Except.ok.inj h ▸ .bracket hu
  · have hpending := hholds (by simp [hu])
    rw [accept_closing hu] at h
    cases hdrain : c.drain.pending with
    | nil =>
      rw [close, drain_note, note, hdrain] at h
      cases h
    | cons o rest =>
      have hinner := drain_holds hpending
      rw [hdrain] at hinner
      obtain ⟨outer, rfl, -⟩ := closed_holds hinner (category_of_drain hdrain)
      rw [close_drained (c := c.note u) hdrain] at h
      split_ifs at h
      exact Except.ok.inj h ▸ .closing hu hpending hdrain rfl
  · rw [accept_operator hu] at h
    exact Except.ok.inj h ▸ .operator hu (hholds (by rcases hu with hu | hu <;> simp [hu]))

lemma Accepts.accepted (h : c.Accepts opened u d) : d.accepted = c.accepted.push u := by
  cases h with
  | closing => exact accepted_closed _ _ _
  | _ => rfl

section Graded

def IsGraded (ps : List Token) : Prop :=
  ps.IsChain fun upper lower =>
    upper.category = .opening ∨ lower.category = .opening ∨ upper.LiesOn lower

lemma IsGraded.segment {ps seg : List Token} (h : IsGraded ps) (hseg : seg <:+: ps)
    (ho : ∀ t ∈ seg, t.category ≠ .opening) : seg.IsChain Token.LiesOn := by
  have hchain := List.IsChain.infix h hseg
  exact hchain.imp_of_mem_imp fun upper lower hupper hlower hgraded =>
    (hgraded.resolve_left (ho upper hupper)).resolve_left (ho lower hlower)

lemma IsGraded.ascending {ps : List Token} (h : IsGraded ps) {seg : List Token}
    (hseg : seg <:+: ps) (ho : ∀ t ∈ seg, t.category ≠ .opening) :
    (seg.map Token.precedence).Pairwise (· ≥ ·) := by
  rw [← List.isChain_iff_pairwise, List.isChain_map]
  refine (h.segment hseg ho).imp fun upper lower hlies => ?_
  rcases hlies with hlt | ⟨heq, -⟩
  · exact Nat.le_of_lt hlt
  · exact Nat.le_of_eq heq

lemma IsGraded.grouped {ps : List Token} (h : IsGraded ps) {seg : List Token}
    (hseg : seg <:+: ps) (ho : ∀ t ∈ seg, t.category ≠ .opening) :
    seg.IsChain fun upper lower => upper.precedence = lower.precedence →
      upper.isRightAssociative ∧ lower.isRightAssociative := by
  refine (h.segment hseg ho).imp fun upper lower hlies heq => ?_
  rcases hlies with hlt | ⟨-, hright⟩
  · exact absurd heq (Nat.ne_of_gt hlt)
  · exact hright

lemma closed_suffix (c : Conversion) (t : Token) (rest : List Token) :
    (c.closed t rest).pending <:+ rest := by
  cases rest with
  | nil =>
    rw [pending_closed c t (by simp)]
  | cons f rest =>
    by_cases hf : f.category = .functionName
    · rw [pending_closed_call c t rest hf]
      exact List.suffix_cons f rest
    · rw [pending_closed c t (by simpa using hf)]

lemma Accepts.graded (h : c.Accepts opened u d) (hc : IsGraded c.pending) :
    IsGraded d.pending := by
  cases h with
  | operand => exact hc
  | bracket ho => exact hc.cons fun t _ => .inl ho
  | function hf hholds =>
    refine hc.cons fun t ht => .inr (.inr (.inl ?_))
    have hle := Token.precedence_le (hholds.head_ne_function t ht)
    have hu : u.precedence = 5 := by simp [Token.precedence, hf]
    omega
  | operator hu =>
    refine (hc.suffix (List.dropWhile_suffix _)).cons fun t ht => ?_
    by_cases ho : t.category = .opening
    · exact .inr (.inl ho)
    · have hstays := List.head?_dropWhile_not (yieldsTo u) c.pending
      rw [Option.mem_def.mp ht] at hstays
      exact .inr (.inr (Token.liesOn_of_not_yieldsTo hu ho hstays))
  | closing _ _ hdrain =>
    have hdrained : IsGraded c.drain.pending := hc.suffix (List.dropWhile_suffix _)
    rw [hdrain] at hdrained
    exact hdrained.tail.suffix (closed_suffix _ _ _)

end Graded

end Conversion

end Reckoner
