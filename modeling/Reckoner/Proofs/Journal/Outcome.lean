import Mathlib.Tactic.Lemma
import Reckoner.Journal.Logged

/-! When a computation that is made of others gives a result, and when it fails. -/

namespace Reckoner

namespace Outcome

variable {ε ε' α β : Type} {x : Except ε α} {e : ε} {b : β}

@[simp] lemma bind_eq_ok {f : α → Except ε β} : x >>= f = .ok b ↔ ∃ a, x = .ok a ∧ f a = .ok b := by
  cases x <;> simp [bind, Except.bind]

@[simp] lemma bind_eq_error {f : α → Except ε β} :
    x >>= f = .error e ↔ x = .error e ∨ ∃ a, x = .ok a ∧ f a = .error e := by
  cases x <;> simp [bind, Except.bind]

@[simp] lemma map_eq_ok {f : α → β} : x.map f = .ok b ↔ ∃ a, x = .ok a ∧ f a = b := by
  cases x <;> simp [Except.map]

@[simp] lemma map_eq_error {f : α → β} : x.map f = .error e ↔ x = .error e := by
  cases x <;> simp [Except.map]

@[simp] lemma mapError_ok (f : ε → ε') (a : α) : (Except.ok a).mapError f = .ok a := rfl

@[simp] lemma mapError_error (f : ε → ε') (e : ε) :
    (Except.error e : Except ε α).mapError f = .error (f e) := rfl

@[simp] lemma mapError_eq_ok {f : ε → ε'} {a : α} : x.mapError f = .ok a ↔ x = .ok a := by
  cases x <;> simp

end Outcome

namespace Logged

variable {ε α β : Type}

@[simp] lemma result_map (f : α → β) (x : Logged ε α) : (f <$> x).result = x.result.map f := by
  show (bind x fun a => ofExcept (.ok (f a))).result = _
  unfold bind
  cases x.result <;> rfl

@[simp] lemma result_attempt {ε' : Type} (x : Logged ε α) :
    (x.attempt : Logged ε' _).result = .ok x.result :=
  rfl

section Records

variable {x : Logged ε α} {f : α → Logged ε β} {a : α} {e : ε}

lemma records_bind_ok (h : x.result = .ok a) : (x >>= f).records = x.records ++ (f a).records := by
  rw [records_bind, h]

lemma records_bind_error (h : x.result = .error e) : (x >>= f).records = x.records := by
  rw [records_bind, h, List.append_nil]

@[simp] lemma records_map (f : α → β) (x : Logged ε α) : (f <$> x).records = x.records := by
  rw [map_eq_pure_bind, records_bind]
  cases x.result <;> simp

end Records

lemma result_mapM_attempt {ε' : Type} (f : α → Logged ε β) (xs : List α) :
    (xs.mapM fun x => ((f x).attempt : Logged ε' _)).result = .ok (xs.map fun x => (f x).result) := by
  induction xs with
  | nil => rfl
  | cons x xs ih => simp [List.mapM_cons, ih]

end Logged

end Reckoner
