import Reckoner.Expression.Parse
import Reckoner.Proofs.Conversion.Acceptance

/-! A conversion accepts a token exactly when its sketch reads it, and then their states
agree again. The focus of the sketch decides which role the token gets. -/

namespace Reckoner

namespace Conversion

def advance (scope : Scope) (c : Conversion) (t : Token) : Except ParseFault Conversion := do
  c.accept (← t.classify scope c.previous)

lemma result_step (scope : Scope) (source : String) (c : Conversion) (t : Token) :
    (step scope source c t).result =
      (c.advance scope t).mapError (·.locate source t.offset) := by
  unfold step advance
  cases h : t.classify scope c.previous with
  | error f => rfl
  | ok u => cases c.accept u <;> simp <;> rfl

end Conversion

namespace Sketch

variable {scope : Scope}

section Roles

variable {previous : Category} {t : Token}

lemma canFollow_due (h : previous.awaitsOperand) (next : Category) :
    previous.canFollow next = next.beginsOperand := by
  cases previous <;> simp_all [Category.canFollow, Category.awaitsOperand, Category.endsOperand]

lemma canFollow_operand (h : previous.endsOperand) (next : Category) :
    previous.canFollow next = next.continuesOperand := by
  cases previous <;> simp_all [Category.canFollow, Category.awaitsOperand, Category.endsOperand]

lemma place_due (h : previous.awaitsOperand) (category : Category) :
    t.place previous category =
      if category.beginsOperand then .ok (t.resolve category) else .error (.unexpectedLexeme t.text) := by
  have hf : previous ≠ .functionName := by rintro rfl; cases h
  simp only [Token.place, canFollow_due h, hf, false_and, if_false]
  cases category.beginsOperand <;> rfl

lemma place_operand (h : previous.endsOperand) (category : Category) :
    t.place previous category =
      if category.continuesOperand then .ok (t.resolve category)
      else .error (.unexpectedLexeme t.text) := by
  have hf : previous ≠ .functionName := by rintro rfl; cases h
  simp only [Token.place, canFollow_operand h, hf, false_and, if_false]
  cases category.continuesOperand <;> rfl

end Roles

section Advance

variable {d : Sketch} {t : Token} {k : Category}

lemma advance_begins (hd : d.conversion.previous.awaitsOperand)
    (hr : t.role scope d.conversion.previous = .ok k) (hb : k.beginsOperand) :
    d.conversion.advance scope t = d.conversion.accept (t.resolve k) := by
  simp [Conversion.advance, Token.classify, hr, place_due hd, hb, bind, Except.bind]

lemma advance_continues (hd : d.conversion.previous.endsOperand)
    (hr : t.role scope d.conversion.previous = .ok k) (hc : k.continuesOperand) :
    d.conversion.advance scope t = d.conversion.accept (t.resolve k) := by
  simp [Conversion.advance, Token.classify, hr, place_operand hd, hc, bind, Except.bind]

lemma advance_rejected (hr : t.role scope d.conversion.previous = .ok k)
    (hp : d.conversion.previous.canFollow k = false) :
    (d.conversion.advance scope t).toOption = none := by
  simp [Conversion.advance, Token.classify, hr, Token.place, hp, bind, Except.bind,
    Except.toOption]

lemma advance_unknown {f : ParseFault} (hr : t.role scope d.conversion.previous = .error f) :
    (d.conversion.advance scope t).toOption = none := by
  simp [Conversion.advance, Token.classify, hr, bind, Except.bind, Except.toOption]

end Advance

section Role

variable {t : Token} (previous : Category)

lemma role_fixed {k : Category} (h : t.category = k)
    (hk : k ∈ [.number, .opening, .closing, .separator]) : t.role scope previous = .ok k := by
  subst h
  rw [Token.role]
  split
  next hc => simp [hc] at hk
  next hc => simp [hc] at hk
  next => rfl

lemma role_function (h : t.category = .identifier) (hf : (scope.function? t.text).isSome) :
    t.role scope previous = .ok .functionName := by
  simp [Token.role, h, Scope.nameCategory?, hf]

lemma role_variable (h : t.category = .identifier) (hf : ¬ (scope.function? t.text).isSome)
    (hv : (scope.value? t.text).isSome) : t.role scope previous = .ok .variableName := by
  simp [Token.role, h, Scope.nameCategory?, hf, hv]

lemma role_unknown (h : t.category = .identifier) (hf : ¬ (scope.function? t.text).isSome)
    (hv : ¬ (scope.value? t.text).isSome) :
    t.role scope previous = .error (.unknownIdentifier t.text) := by
  simp [Token.role, h, Scope.nameCategory?, hf, hv]

lemma role_operator (h : t.category = .operator) :
    t.role scope previous = .ok (Token.operatorCategory previous t.text) := by
  simp [Token.role, h]

end Role

lemma advance_identifier {d : Sketch} {t : Token} (hc : t.category = .identifier)
    (hf : d.conversion.previous.canFollow .functionName = false)
    (hv : d.conversion.previous.canFollow .variableName = false) :
    (d.conversion.advance scope t).toOption = none := by
  by_cases hfun : (scope.function? t.text).isSome
  · exact advance_rejected (role_function _ hc hfun) hf
  · by_cases hval : (scope.value? t.text).isSome
    · exact advance_rejected (role_variable _ hc hfun hval) hv
    · exact advance_unknown (role_unknown _ hc hfun hval)

section Reading

variable {fs : List Frame} {u : Tree} {t : Token} (ht : t.Spelled)
include ht

lemma advance_due (fs : List Frame) :
    ((⟨fs, .due⟩ : Sketch).conversion.advance scope t).toOption =
      (beginOperand scope fs t).map conversion := by
  have hprev := previous_due fs
  have hpre : (⟨fs, .due⟩ : Sketch).conversion.previous.admitsPrefix := by
    simp [Category.admitsPrefix, hprev]
  have hl := ht.isLexical
  simp only [List.mem_cons, List.not_mem_nil, or_false] at hl
  rcases hl with hc | hc | hc | hc | hc | hc
  · rw [advance_begins hprev (role_fixed _ hc (by decide)) rfl, accept_number]
    simp [beginOperand, hc, Except.toOption]
  · by_cases hf : (scope.function? t.text).isSome
    · rw [advance_begins hprev (role_function _ hc hf) rfl, accept_function]
      simp [beginOperand, hc, hf, Except.toOption]
    · by_cases hv : (scope.value? t.text).isSome
      · rw [advance_begins hprev (role_variable _ hc hf hv) rfl, accept_name]
        simp [beginOperand, hc, hf, hv, Except.toOption]
      · rw [advance_unknown (role_unknown _ hc hf hv)]
        simp [beginOperand, hc, hf, hv]
  · rw [advance_begins hprev (role_fixed _ hc (by decide)) rfl, accept_opening]
    simp [beginOperand, hc, Except.toOption]
  · rw [advance_rejected (role_fixed _ hc (by decide)) (canFollow_due hprev _)]
    simp [beginOperand, hc]
  · rw [advance_rejected (role_fixed _ hc (by decide)) (canFollow_due hprev _)]
    simp [beginOperand, hc]
  · have hr : t.role scope (⟨fs, .due⟩ : Sketch).conversion.previous = _ := role_operator _ hc
    by_cases hbar : t.text = "|"
    · rw [Token.operatorCategory, if_pos hbar, if_pos hpre] at hr
      rw [advance_begins hprev hr rfl, accept_opening]
      simp [beginOperand, hc, hbar, Except.toOption]
    · by_cases hminus : t.text = "-"
      · rw [Token.operatorCategory, if_neg hbar, if_pos ⟨hminus, hpre⟩] at hr
        rw [advance_begins hprev hr rfl, accept_negation]
        simp [beginOperand, hc, hminus, Except.toOption]
      · rw [Token.operatorCategory, if_neg hbar, if_neg (fun h => hminus h.1)] at hr
        rw [advance_rejected hr (canFollow_due hprev _)]
        simp [beginOperand, hc, hbar, hminus]

lemma advance_named (fs : List Frame) (f : Token) :
    ((⟨fs, .named f⟩ : Sketch).conversion.advance scope t).toOption =
      (openCall fs f t).map conversion := by
  have hprev := previous_named fs f
  have hcall (h : t.category ≠ .opening) : openCall fs f t = none := if_neg fun ho => h ho.1
  have hl := ht.isLexical
  simp only [List.mem_cons, List.not_mem_nil, or_false] at hl
  rcases hl with hc | hc | hc | hc | hc | hc
  · rw [advance_rejected (role_fixed _ hc (by decide)) (by rw [hprev]; rfl), hcall (by simp [hc])]
    rfl
  · rw [advance_identifier hc (by rw [hprev]; rfl) (by rw [hprev]; rfl), hcall (by simp [hc])]
    rfl
  · by_cases htext : t.text = "("
    · have hadvance : (⟨fs, .named f⟩ : Sketch).conversion.advance scope t =
          (⟨fs, .named f⟩ : Sketch).conversion.accept (t.resolve .opening) := by
        have hr : t.role scope .functionName = .ok .opening := role_fixed _ hc (by decide)
        simp [Conversion.advance, Token.classify, hprev, hr, Token.place, Category.canFollow,
          htext, bind, Except.bind]
      rw [hadvance, accept_call]
      simp [openCall, hc, htext, Except.toOption]
    · have hr : t.role scope .functionName = .ok .opening := role_fixed _ hc (by decide)
      simp [Conversion.advance, Token.classify, hprev, hr, Token.place, Category.canFollow,
        htext, bind, Except.bind, openCall, Except.toOption]
  · rw [advance_rejected (role_fixed _ hc (by decide)) (by rw [hprev]; rfl), hcall (by simp [hc])]
    rfl
  · rw [advance_rejected (role_fixed _ hc (by decide)) (by rw [hprev]; rfl), hcall (by simp [hc])]
    rfl
  · have hno (text : String) :
        Category.functionName.canFollow (Token.operatorCategory .functionName text) = false := by
      have hadmits : ¬ Category.functionName.admitsPrefix := by decide
      by_cases hbar : text = "|"
      · rw [Token.operatorCategory, if_pos hbar, if_neg hadmits]
        rfl
      · rw [Token.operatorCategory, if_neg hbar, if_neg fun h => hadmits h.2]
        rfl
    rw [advance_rejected (role_operator _ hc) (by rw [hprev]; exact hno t.text), hcall (by simp [hc])]
    rfl

lemma advance_operand (hfs : Stacked scope fs) (hu : Derives scope .primary u) :
    ((⟨fs, .operand u⟩ : Sketch).conversion.advance scope t).toOption =
      (continueOperand fs u t).map conversion := by
  have hprev := previous_operand fs u
  have hpre : (⟨fs, .operand u⟩ : Sketch).conversion.previous.admitsPrefix = false := by
    revert hprev
    cases (⟨fs, .operand u⟩ : Sketch).conversion.previous <;> decide
  have hl := ht.isLexical
  simp only [List.mem_cons, List.not_mem_nil, or_false] at hl
  rcases hl with hc | hc | hc | hc | hc | hc
  · rw [advance_rejected (role_fixed _ hc (by decide)) (canFollow_operand hprev _)]
    simp [continueOperand, hc]
  · rw [advance_identifier hc (canFollow_operand hprev _) (canFollow_operand hprev _)]
    simp [continueOperand, hc]
  · rw [advance_rejected (role_fixed _ hc (by decide)) (canFollow_operand hprev _)]
    simp [continueOperand, hc]
  · rw [advance_continues hprev (role_fixed _ hc (by decide)) rfl, accept_closing hfs hu]
    simp [continueOperand, hc]
  · rw [advance_rejected (role_fixed _ hc (by decide)) (canFollow_operand hprev _)]
    simp [continueOperand, hc]
  · have hr : t.role scope (⟨fs, .operand u⟩ : Sketch).conversion.previous = _ := role_operator _ hc
    by_cases hbar : t.text = "|"
    · rw [Token.operatorCategory, if_pos hbar, if_neg (by simp [hpre])] at hr
      rw [advance_continues hprev hr rfl, accept_closing hfs hu]
      simp [continueOperand, hc, hbar]
    · rw [Token.operatorCategory, if_neg hbar, if_neg (by simp [hpre])] at hr
      rw [advance_continues hprev hr rfl, accept_operator]
      simp [continueOperand, hc, hbar, Except.toOption]

theorem advance_conversion {d : Sketch} (hd : Sound scope d) :
    (d.conversion.advance scope t).toOption = (d.read scope t).map conversion := by
  obtain ⟨fs, focus⟩ := d
  cases focus with
  | due => exact advance_due ht fs
  | named f => exact advance_named ht fs f
  | operand u => exact advance_operand ht hd.stacked hd.focused

end Reading

end Sketch

end Reckoner
