import Reckoner.Proofs.Evaluation.Replay

/-! The replay of any sequence of tokens, in a good order or not. What is on the stack can be
counted: it is as high as the operands so far outnumber the binary operators, and a token fails
for want of operands exactly where that is too little. -/

namespace Reckoner

namespace Token

def IsOperand (t : Token) : Prop := t.category = .number ∨ t.category = .variableName

instance (t : Token) : Decidable t.IsOperand := inferInstanceAs (Decidable (_ ∨ _))

def IsReplayable (t : Token) : Prop :=
  t.category ∈ [.number, .variableName, .functionName, .unary, .binary]

/-- How many values the token takes from the stack. -/
def arity (t : Token) : Nat :=
  match t.category with
  | .functionName | .unary => 1
  | .binary => 2
  | _ => 0

end Token

def depth (ts : List Token) : Int :=
  ts.countP (fun t => decide t.IsOperand) - ts.countP (·.category == .binary)

lemma depth_append (ts us : List Token) : depth (ts ++ us) = depth ts + depth us := by
  simp only [depth, List.countP_append]
  omega

lemma depth_cons (t : Token) (ts : List Token) : depth (t :: ts) = depth [t] + depth ts :=
  depth_append [t] ts

variable {scope : Scope} {source : String} {ts : List Token} {stack rest : List Float}

lemma Arithmetic.binary_ne_missing (operator s : String) (x y : Float) :
    binary operator x y ≠ .error (.missingOperand s) := by
  unfold binary
  split <;> try split_ifs
  all_goals simp

namespace Token

variable {t : Token} {x : Float} {f : EvalFault}

lemma depth_single (h : t.IsReplayable) : depth [t] = 1 - t.arity := by
  simp only [IsReplayable, List.mem_cons, List.not_mem_nil, or_false] at h
  rcases h with h | h | h | h | h <;> simp [depth, IsOperand, arity, h]

lemma eval_unreplayable (h : ¬ t.IsReplayable) :
    t.eval scope stack = .error (.unexpectedToken t.text) := by
  unfold eval
  split <;> simp_all [IsReplayable]

lemma eval_short (h : stack.length < t.arity) :
    t.eval scope stack = .error (.missingOperand t.postfixSymbol) := by
  cases hc : t.category with
  | functionName | unary =>
    obtain rfl : stack = [] := by simpa [arity, hc] using h
    simp [eval, hc]
  | binary =>
    rcases stack with _ | ⟨x, _ | ⟨y, rest⟩⟩
    · simp [eval, hc]
    · simp [eval, hc]
    · simp [arity, hc] at h
  | _ => simp [arity, hc] at h

/-- A token that has its operands leaves what is below them as it is. -/
lemma eval_operands (scope : Scope) (hr : t.IsReplayable) (h : t.arity ≤ stack.length) :
    ∃ y : Except EvalFault Float, t.eval scope stack = y.map (·, stack.drop t.arity) ∧
      ∀ s, y ≠ .error (.missingOperand s) := by
  simp only [IsReplayable, List.mem_cons, List.not_mem_nil, or_false] at hr
  rcases hr with hc | hc | hc | hc | hc
  · cases hx : Numeral.read t.text with
    | ok x => exact ⟨.ok x, by simp [eval, hc, hx, arity, Except.map], by simp⟩
    | error e => exact ⟨.error (.invalidNumber t.text), by simp [eval, hc, hx, Except.map], by simp⟩
  · cases hx : scope.value? t.text with
    | some x => exact ⟨.ok x, by simp [eval, hc, hx, arity, Except.map], by simp⟩
    | none => exact ⟨.error (.unknownVariable t.text), by simp [eval, hc, hx, Except.map], by simp⟩
  · rw [arity, hc] at h
    obtain ⟨x, rest, rfl⟩ := List.exists_cons_of_length_pos h
    cases hg : scope.function? t.text with
    | none => exact ⟨.error (.unknownFunction t.text), by simp [eval, hc, hg, Except.map], by simp⟩
    | some g =>
      cases hy : g x with
      | ok y => exact ⟨.ok y, by simp [eval, hc, hg, hy, arity, Except.map], by simp⟩
      | error e =>
        exact ⟨.error (.domain t.text e.reason), by simp [eval, hc, hg, hy, Except.map], by simp⟩
  · rw [arity, hc] at h
    obtain ⟨x, rest, rfl⟩ := List.exists_cons_of_length_pos h
    exact ⟨.ok (Arithmetic.unary t.text x), by simp [eval, hc, arity, Except.map], by simp⟩
  · rcases stack with _ | ⟨y, _ | ⟨x, rest⟩⟩
    · simp [arity, hc] at h
    · simp [arity, hc] at h
    · refine ⟨Arithmetic.binary t.text x y, ?_, fun s => Arithmetic.binary_ne_missing t.text s x y⟩
      simp [eval, hc, arity]

lemma eval_missing_iff (s : String) : t.eval scope stack = .error (.missingOperand s) ↔
    s = t.postfixSymbol ∧ stack.length < t.arity := by
  constructor
  · intro h
    by_cases hr : t.IsReplayable
    · by_cases hshort : stack.length < t.arity
      · rw [eval_short hshort] at h
        cases h
        exact ⟨rfl, hshort⟩
      · obtain ⟨y, hy, hmissing⟩ := eval_operands scope hr (Nat.not_lt.mp hshort)
        rw [hy, Outcome.map_eq_error] at h
        exact absurd h (hmissing s)
    · rw [eval_unreplayable hr] at h
      cases h
  · rintro ⟨rfl, h⟩
    exact eval_short h

lemma length_eval (h : t.eval scope stack = .ok (x, rest)) :
    ((x :: rest).length : Int) = stack.length + depth [t] := by
  have hr : t.IsReplayable := by
    by_contra hr
    cases (eval_unreplayable hr).symm.trans h
  have henough : t.arity ≤ stack.length := by
    by_contra hshort
    cases (eval_short (Nat.not_le.mp hshort)).symm.trans h
  obtain ⟨y, hy, -⟩ := eval_operands scope hr henough
  rw [hy, Outcome.map_eq_ok] at h
  obtain ⟨z, -, hz⟩ := h
  obtain ⟨-, rfl⟩ := Prod.mk.inj hz
  rw [depth_single hr, List.length_cons, List.length_drop]
  omega

end Token

lemma length_replayOn (h : replayOn scope source stack ts = .ok rest) :
    (rest.length : Int) = stack.length + depth ts := by
  induction ts generalizing stack with
  | nil =>
    obtain rfl : stack = rest := Except.ok.inj h
    simp [depth]
  | cons t ts ih =>
    rw [replayOn_cons, Token.result_replayStep] at h
    cases hx : t.eval scope stack with
    | error f => simp [hx] at h
    | ok r =>
      have hrest := ih (by simpa [hx] using h)
      rw [hrest, Token.length_eval hx, depth_cons t ts]
      omega

/-- The first token to fail is the one with this number, counted from zero. -/
def FailsAt (scope : Scope) (source : String) (ts : List Token) (k : Nat) (f : EvalFault) : Prop :=
  ∃ t stack, ts[k]? = some t ∧ replayOn scope source [] (ts.take k) = .ok stack ∧
    t.eval scope stack = .error f

section First

variable {k : Nat} {t : Token} {f : EvalFault}

lemma failsAt_iff (ht : ts[k]? = some t) (hstack : replayOn scope source [] (ts.take k) = .ok stack) :
    FailsAt scope source ts k f ↔ t.eval scope stack = .error f := by
  constructor
  · rintro ⟨u, stack', hu, hstack', heval⟩
    obtain rfl : t = u := Option.some.inj (ht.symm.trans hu)
    obtain rfl : stack = stack' := Except.ok.inj (hstack.symm.trans hstack')
    exact heval
  · intro heval
    exact ⟨t, stack, ht, hstack, heval⟩

lemma replayOn_take_succ (ht : ts[k]? = some t)
    (hstack : replayOn scope source [] (ts.take k) = .ok stack) :
    replayOn scope source [] (ts.take (k + 1)) = (t.replayStep scope source stack).result := by
  rw [List.take_add_one, ht, replayOn_append, hstack]
  exact replayOn_single stack t

lemma exists_replayOn_take (hk : k ≤ ts.length) (h : ∀ j < k, ∀ f, ¬ FailsAt scope source ts j f) :
    ∃ stack, replayOn scope source [] (ts.take k) = .ok stack := by
  induction k with
  | zero => exact ⟨[], rfl⟩
  | succ k ih =>
    obtain ⟨stack, hstack⟩ := ih (Nat.le_of_succ_le hk) fun j hj => h j (Nat.lt_succ_of_lt hj)
    have ht : ts[k]? = some ts[k] := List.getElem?_eq_getElem hk
    rw [replayOn_take_succ ht hstack, Token.result_replayStep]
    cases hx : ts[k].eval scope stack with
    | ok r => exact ⟨r.1 :: r.2, rfl⟩
    | error f => exact absurd ((failsAt_iff ht hstack).mpr hx) (h k (Nat.lt_succ_self k) f)

lemma result_replay_failsAt (h : FailsAt scope source ts k f) (ht : ts[k]? = some t) :
    (replay scope source ts).result = .error (.atToken f ⟨source, t.offset⟩) := by
  obtain ⟨u, stack, hu, hstack, heval⟩ := h
  obtain rfl : t = u := Option.some.inj (ht.symm.trans hu)
  have hfront := replayOn_take_succ ht hstack
  rw [Token.result_replayStep, heval] at hfront
  rw [result_replay, ← List.take_append_drop (k + 1) ts, replayOn_append, hfront]
  rfl

end First

lemma replayOn_ne_nil (hts : ts ≠ []) (h : replayOn scope source stack ts = .ok rest) :
    rest ≠ [] := by
  obtain ⟨us, t, rfl⟩ := (List.eq_nil_or_concat ts).resolve_left hts
  rw [List.concat_eq_append, replayOn_append, Outcome.bind_eq_ok] at h
  obtain ⟨before, -, hlast⟩ := h
  rw [replayOn_single, Token.result_replayStep] at hlast
  split at hlast
  · obtain rfl := Except.ok.inj hlast
    exact List.cons_ne_nil _ _
  · cases hlast

lemma exists_singleValue_iff : (∃ x, singleValue stack = .ok x) ↔ stack.length = 1 := by
  rcases stack with _ | ⟨x, _ | ⟨y, rest⟩⟩ <;> simp [singleValue]

lemma singleValue_high (h : 2 ≤ stack.length) :
    singleValue stack = .error (.extraOperands stack.length) := by
  rcases stack with _ | ⟨x, _ | ⟨y, rest⟩⟩
  · cases h
  · simp at h
  · rfl

/-- A sequence that is not empty fails at one of its tokens or leaves some values. -/
lemma failsAt_or_replayOn (scope : Scope) (source : String) (hts : ts ≠ []) :
    (∃ k f, FailsAt scope source ts k f) ∨
      ∃ stack, replayOn scope source [] ts = .ok stack ∧ stack ≠ [] := by
  by_cases hfails : ∃ k f, FailsAt scope source ts k f
  · exact .inl hfails
  · obtain ⟨stack, hstack⟩ := exists_replayOn_take (Nat.le_refl ts.length)
      fun j _ f hf => hfails ⟨j, f, hf⟩
    rw [List.take_length] at hstack
    exact .inr ⟨stack, hstack, replayOn_ne_nil hts hstack⟩

lemma replay_emptyResult_iff :
    (replay scope source ts).result = .error .emptyResult ↔ ts = [] := by
  constructor
  · intro h
    by_contra hts
    rcases failsAt_or_replayOn scope source hts with ⟨k, f, hf⟩ | ⟨stack, hstack, hne⟩
    · obtain ⟨t, -, ht, -⟩ := id hf
      cases h.symm.trans (result_replay_failsAt hf ht)
    · rw [result_replay, hstack] at h
      cases stack with
      | nil => exact hne rfl
      | cons x rest => cases rest <;> cases h
  · rintro rfl
    rfl

/-- Each token of the sequence finds its operands in what is in front of it. -/
def Supplied (ts : List Token) : Prop :=
  ∀ k t, ts[k]? = some t → t.arity ≤ depth (ts.take k)

namespace Supplied

variable {t : Token}

lemma nil : Supplied [] := by simp [Supplied]

lemma concat (h : Supplied ts) (ht : t.arity ≤ depth ts) : Supplied (ts ++ [t]) := by
  intro k u hu
  rcases Nat.lt_trichotomy k ts.length with hk | rfl | hk
  · rw [List.getElem?_append_left hk] at hu
    rw [List.take_append_of_le_length (Nat.le_of_lt hk)]
    exact h k u hu
  · obtain rfl : t = u := by simpa using hu
    simpa using ht
  · rw [List.getElem?_append_right (Nat.le_of_lt hk), List.getElem?_singleton,
      if_neg (Nat.sub_ne_zero_of_lt hk)] at hu
    cases hu

lemma not_missing (h : Supplied ts) (k : Nat) (s : String) :
    ¬ FailsAt scope source ts k (.missingOperand s) := by
  rintro ⟨t, stack, ht, hstack, heval⟩
  have hlength := length_replayOn hstack
  have hshort := (Token.eval_missing_iff s).mp heval
  have harity := h k t ht
  simp only [List.length_nil] at hlength
  omega

end Supplied

theorem replay_exact (scope : Scope) (source : String) (ts : List Token) :
    ((replay scope source ts).result = .error .emptyResult ↔ ts = []) ∧
    (∀ k t f, ts[k]? = some t → FailsAt scope source ts k f →
      (replay scope source ts).result = .error (.atToken f ⟨source, t.offset⟩)) ∧
    (∀ k t, ts[k]? = some t → (∀ j < k, ∀ f, ¬ FailsAt scope source ts j f) →
      (∀ s, FailsAt scope source ts k (.missingOperand s) ↔
        s = t.postfixSymbol ∧ depth (ts.take k) < t.arity) ∧
      (depth (ts.take k) < t.arity →
        ∀ f, FailsAt scope source ts k f → f = .missingOperand t.postfixSymbol) ∧
      (¬ t.IsReplayable → FailsAt scope source ts k (.unexpectedToken t.text))) ∧
    (ts ≠ [] → (∀ k f, ¬ FailsAt scope source ts k f) →
      ((∃ x, (replay scope source ts).result = .ok x) ↔ depth ts = 1) ∧
      (depth ts ≠ 1 → 2 ≤ depth ts ∧
        (replay scope source ts).result = .error (.extraOperands (depth ts).toNat))) := by
  refine ⟨replay_emptyResult_iff, fun k t f ht h => result_replay_failsAt h ht, ?_, ?_⟩
  · intro k t ht hearlier
    have hk : k < ts.length := (List.getElem?_eq_some_iff.mp ht).1
    obtain ⟨stack, hstack⟩ := exists_replayOn_take (Nat.le_of_lt hk) hearlier
    have hlength : (stack.length : Int) = depth (ts.take k) := by
      simpa using length_replayOn hstack
    have hshort : stack.length < t.arity ↔ depth (ts.take k) < t.arity := by omega
    refine ⟨fun s => ?_, fun hdepth f hf => ?_, fun hr => ?_⟩
    · rw [failsAt_iff ht hstack, Token.eval_missing_iff, hshort]
    · rw [failsAt_iff ht hstack, Token.eval_short (hshort.mpr hdepth)] at hf
      exact (Except.error.inj hf).symm
    · rw [failsAt_iff ht hstack]
      exact Token.eval_unreplayable hr
  · intro hts hnone
    obtain ⟨k, f, hf⟩ | ⟨stack, hstack, hne⟩ := failsAt_or_replayOn scope source hts
    · exact absurd hf (hnone k f)
    have hlength : (stack.length : Int) = depth ts := by simpa using length_replayOn hstack
    have hpos := List.length_pos_of_ne_nil hne
    have hresult : (replay scope source ts).result = singleValue stack := by
      rw [result_replay, hstack]
      rfl
    rw [hresult, exists_singleValue_iff]
    refine ⟨by omega, fun hdepth => ⟨by omega, ?_⟩⟩
    rw [singleValue_high (by omega)]
    congr
    omega

theorem replay_exact_function :
    (replay ⟨fun _ => none, fun _ => none⟩ "f" [⟨.functionName, "f", 0⟩]).result =
      .error (.atToken (.missingOperand "f") ⟨"f", 0⟩) := by
  obtain ⟨-, hreported, hfirst, -⟩ :=
    replay_exact ⟨fun _ => none, fun _ => none⟩ "f" [⟨.functionName, "f", 0⟩]
  obtain ⟨hmissing, -⟩ := hfirst 0 _ rfl (by simp)
  exact hreported 0 _ _ rfl ((hmissing "f").mpr ⟨rfl, by decide⟩)

end Reckoner
