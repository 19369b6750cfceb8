import Reckoner.Journal.Record

/-! Computations that may fail and that keep a journal. The records made before a
failure stay. -/

namespace Reckoner

structure Logged (ε α : Type) where
  records : List Record
  result : Except ε α

namespace Logged

variable {ε ε' α β : Type}

theorem ext {x y : Logged ε α} (hr : x.records = y.records) (hs : x.result = y.result) : x = y := by
  cases x
  cases y
  simp_all

def ofExcept (result : Except ε α) : Logged ε α := ⟨[], result⟩

def record (r : Record) : Logged ε Unit := ⟨[r], .ok ()⟩

def mapError (f : ε → ε') (x : Logged ε α) : Logged ε' α := ⟨x.records, x.result.mapError f⟩

/-- Takes a failure as a result and goes on. -/
def attempt (x : Logged ε α) : Logged ε' (Except ε α) := ⟨x.records, .ok x.result⟩

def bind (x : Logged ε α) (f : α → Logged ε β) : Logged ε β :=
  match x.result with
  | .error e => ⟨x.records, .error e⟩
  | .ok a =>
    let y := f a
    ⟨x.records ++ y.records, y.result⟩

instance : Monad (Logged ε) where
  pure a := ofExcept (.ok a)
  bind := bind

@[simp] theorem result_ofExcept (r : Except ε α) : (ofExcept r).result = r := rfl

@[simp] theorem records_ofExcept (r : Except ε α) : (ofExcept r).records = [] := rfl

@[simp] theorem result_record (r : Record) : (record r : Logged ε Unit).result = .ok () := rfl

@[simp] theorem records_record (r : Record) : (record r : Logged ε Unit).records = [r] := rfl

@[simp] theorem result_mapError (f : ε → ε') (x : Logged ε α) :
    (x.mapError f).result = x.result.mapError f := rfl

@[simp] theorem records_mapError (f : ε → ε') (x : Logged ε α) :
    (x.mapError f).records = x.records := rfl

@[simp] theorem result_pure (a : α) : (pure a : Logged ε α).result = .ok a := rfl

@[simp] theorem records_pure (a : α) : (pure a : Logged ε α).records = [] := rfl

@[simp] theorem result_bind (x : Logged ε α) (f : α → Logged ε β) :
    (x >>= f).result = x.result >>= fun a => (f a).result := by
  show (bind x f).result = _
  unfold bind
  cases x.result <;> rfl

theorem records_bind (x : Logged ε α) (f : α → Logged ε β) :
    (x >>= f).records = x.records ++ match x.result with
      | .error _ => []
      | .ok a => (f a).records := by
  show (bind x f).records = _
  unfold bind
  cases x.result <;> simp

theorem map_id (x : Logged ε α) : id <$> x = x := by
  show bind x (fun a => ofExcept (.ok a)) = x
  obtain ⟨_, _ | _⟩ := x <;> simp [bind, ofExcept]

theorem pure_bind (a : α) (f : α → Logged ε β) : (pure a : Logged ε α) >>= f = f a := by
  show bind (ofExcept (.ok a)) f = f a
  simp [bind, ofExcept]

theorem bind_assoc {γ : Type} (x : Logged ε α) (f : α → Logged ε β) (g : β → Logged ε γ) :
    x >>= f >>= g = x >>= fun a => f a >>= g := by
  show bind (bind x f) g = bind x fun a => bind (f a) g
  obtain ⟨_, _ | a⟩ := x
  · rfl
  · cases h : (f a).result <;> simp [bind, h]

instance : LawfulMonad (Logged ε) := .mk' _ map_id pure_bind bind_assoc

end Logged

end Reckoner
