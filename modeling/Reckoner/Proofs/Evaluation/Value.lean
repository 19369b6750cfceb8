import Reckoner.Expression.Replay
import Reckoner.Proofs.Evaluation.Literal
import Reckoner.Proofs.Grammar.Derivation

/-! The value of a tree, its operands from the left to the right before the tree itself.
A value fails where the first node in postorder fails. -/

namespace Reckoner

def Token.fault (source : String) (t : Token) (f : EvalFault) : EvalError :=
  .atToken f ⟨source, t.offset⟩

namespace Tree

def eval (scope : Scope) (source : String) : Tree → Except EvalError Float
  | number t => .ok t.literal
  | name t =>
    match scope.value? t.text with
    | some x => .ok x
    | none => .error (t.fault source (.unknownVariable t.text))
  | negation _ t => do return -(← t.eval scope source)
  | binary l s r => do
    let x ← l.eval scope source
    let y ← r.eval scope source
    (Arithmetic.binary s.text x y).mapError (s.fault source)
  | bracket _ t _ => t.eval scope source
  | bars _ t _ => do return (← t.eval scope source).abs
  | call f _ t _ => do
    let x ← t.eval scope source
    match scope.function? f.text with
    | some g => (g x).mapError fun e => f.fault source (.domain f.text e.reason)
    | none => .error (f.fault source (.unknownFunction f.text))

def root : Tree → Token
  | number t => t.resolve .number
  | name t => t.resolve .variableName
  | negation s _ => s.resolve .unary
  | binary _ s _ => s.resolve .binary
  | bracket _ t _ => t.root
  | bars _ _ c => Conversion.absoluteValue c
  | call f _ _ _ => f.resolve .functionName

/-- The trees inside a tree that compute something, behind their operands. -/
def nodes : Tree → List Tree
  | number t => [number t]
  | name t => [name t]
  | negation s t => t.nodes ++ [negation s t]
  | binary l s r => l.nodes ++ r.nodes ++ [binary l s r]
  | bracket _ t _ => t.nodes
  | bars o t c => t.nodes ++ [bars o t c]
  | call f o t c => t.nodes ++ [call f o t c]

lemma map_root_nodes (t : Tree) : t.nodes.map root = t.postorder := by
  induction t with
  | number t | name t => rfl
  | binary l s r ihl ihr => simp [nodes, root, postorder, ihl, ihr]
  | bracket o t c ih => exact ih
  | negation s t ih | bars o t c ih | call f o t c ih => simp [nodes, root, postorder, ih]

/-- The node has no value although its operands have one. -/
inductive Fails (scope : Scope) (source : String) : Tree → EvalFault → Prop
  | variableName {t : Token} : scope.value? t.text = none →
      Fails scope source (.name t) (.unknownVariable t.text)
  | functionName {f o c : Token} {t : Tree} {x : Float} : t.eval scope source = .ok x →
      scope.function? f.text = none →
      Fails scope source (.call f o t c) (.unknownFunction f.text)
  | domain {f o c : Token} {t : Tree} {x : Float} {g : UnaryFunction} {e : DomainError} :
      t.eval scope source = .ok x → scope.function? f.text = some g → g x = .error e →
      Fails scope source (.call f o t c) (.domain f.text e.reason)
  | division {l r : Tree} {s : Token} {x y : Float} : l.eval scope source = .ok x →
      r.eval scope source = .ok y → s.text = "/" → (y == 0) = true →
      Fails scope source (.binary l s r) .divisionByZero

/-- A node of the tree fails, and no node in front of it. -/
def FirstFault (scope : Scope) (source : String) (t : Tree) (e : EvalError) : Prop :=
  ∃ before n after fault, t.nodes = before ++ n :: after ∧
    (∀ m ∈ before, ∃ x, m.eval scope source = .ok x) ∧ Fails scope source n fault ∧
    e = n.root.fault source fault

variable {scope : Scope} {source : String} {t u : Tree} {e : EvalError}

lemma eval_nodes {x : Float} (h : t.eval scope source = .ok x) :
    ∀ m ∈ t.nodes, ∃ y, m.eval scope source = .ok y := by
  have extend {u : Tree} (ns : List Tree) {y : Float} (hu : u.eval scope source = .ok y)
      (hn : ∀ m ∈ ns, ∃ z, m.eval scope source = .ok z) :
      ∀ m ∈ ns ++ [u], ∃ z, m.eval scope source = .ok z := by
    intro m hm
    rcases List.mem_append.mp hm with hm | hm
    · exact hn m hm
    · rw [List.mem_singleton.mp hm]
      exact ⟨y, hu⟩
  -- a tree with a value has operands with values, and they come first
  induction t generalizing x with
  | number t => exact extend [] h (by simp)
  | name t => exact extend [] h (by simp)
  | negation s t ih =>
    cases ht : t.eval scope source with
    | error e => simp [eval, ht, bind, Except.bind] at h
    | ok y => exact extend _ h (ih ht)
  | binary l s r ihl ihr =>
    cases hl : l.eval scope source with
    | error e => simp [eval, hl, bind, Except.bind] at h
    | ok y =>
      cases hr : r.eval scope source with
      | error e => simp [eval, hl, hr, bind, Except.bind] at h
      | ok z =>
        apply extend _ h
        intro m hm
        exact (List.mem_append.mp hm).elim (ihl hl m) (ihr hr m)
  | bracket o t c ih => exact ih h
  | bars o t c ih =>
    cases ht : t.eval scope source with
    | error e => simp [eval, ht, bind, Except.bind] at h
    | ok y => exact extend _ h (ih ht)
  | call f o t c ih =>
    cases ht : t.eval scope source with
    | error e => simp [eval, ht, bind, Except.bind] at h
    | ok y => exact extend _ h (ih ht)

section FirstFault

lemma FirstFault.within (h : FirstFault scope source t e) {a b : List Tree}
    (ha : ∀ m ∈ a, ∃ x, m.eval scope source = .ok x) (hu : u.nodes = a ++ t.nodes ++ b) :
    FirstFault scope source u e := by
  obtain ⟨before, n, after, f, hn, hb, hf, he⟩ := h
  refine ⟨a ++ before, n, after ++ b, f, by simp [hu, hn], ?_, hf, he⟩
  intro m hm
  exact (List.mem_append.mp hm).elim (ha m) (hb m)

lemma firstFault_self {a : List Tree} {f : EvalFault} (hf : Fails scope source t f)
    (ha : ∀ m ∈ a, ∃ x, m.eval scope source = .ok x) (ht : t.nodes = a ++ [t]) :
    FirstFault scope source t (t.root.fault source f) :=
  ⟨a, t, [], f, ht, ha, hf, rfl⟩

lemma fails_binary {l r : Tree} {s : Token} {x y : Float} {f : EvalFault} (hs : s.IsBinary)
    (hl : l.eval scope source = .ok x) (hr : r.eval scope source = .ok y)
    (h : Arithmetic.binary s.text x y = .error f) : Fails scope source (.binary l s r) f := by
  have ht := hs.2
  simp only [List.mem_cons, List.not_mem_nil, or_false] at ht
  rcases ht with ht | ht | ht | ht | ht
  · simp [Arithmetic.binary, ht] at h
  · simp [Arithmetic.binary, ht] at h
  · simp [Arithmetic.binary, ht] at h
  · simp only [Arithmetic.binary, ht] at h
    split at h
    next hy =>
      obtain rfl := Except.error.inj h
      exact .division hl hr ht hy
    next => cases h
  · simp [Arithmetic.binary, ht] at h

lemma firstFault_binary {l r : Tree} {s : Token} (hs : s.IsBinary)
    (ihl : ∀ {e}, l.eval scope source = .error e → FirstFault scope source l e)
    (ihr : ∀ {e}, r.eval scope source = .error e → FirstFault scope source r e)
    (h : (binary l s r).eval scope source = .error e) :
    FirstFault scope source (.binary l s r) e := by
  cases hl : l.eval scope source with
  | error e' =>
    obtain rfl : e' = e := by simpa [eval, hl, bind, Except.bind] using h
    exact (ihl hl).within (a := []) (b := r.nodes ++ [binary l s r]) (by simp) (by simp [nodes])
  | ok x =>
    have hleft := eval_nodes hl
    cases hr : r.eval scope source with
    | error e' =>
      obtain rfl : e' = e := by simpa [eval, hl, hr, bind, Except.bind] using h
      exact (ihr hr).within hleft rfl
    | ok y =>
      cases hf : Arithmetic.binary s.text x y with
      | ok z => simp [eval, hl, hr, hf, bind, Except.bind] at h
      | error f =>
        obtain rfl : s.fault source f = e := by
          simpa [eval, hl, hr, hf, bind, Except.bind] using h
        apply firstFault_self (fails_binary hs hl hr hf) _ rfl
        intro m hm
        exact (List.mem_append.mp hm).elim (hleft m) (eval_nodes hr m)

lemma firstFault_call {f o c : Token}
    (ih : ∀ {e}, t.eval scope source = .error e → FirstFault scope source t e)
    (h : (call f o t c).eval scope source = .error e) :
    FirstFault scope source (.call f o t c) e := by
  cases ht : t.eval scope source with
  | error e' =>
    obtain rfl : e' = e := by simpa [eval, ht, bind, Except.bind] using h
    exact (ih ht).within (a := []) (by simp) rfl
  | ok x =>
    have hargument := eval_nodes ht
    cases hf : scope.function? f.text with
    | none =>
      obtain rfl : f.fault source (.unknownFunction f.text) = e := by
        simpa [eval, ht, hf, bind, Except.bind] using h
      exact firstFault_self (.functionName ht hf) hargument rfl
    | some g =>
      cases hg : g x with
      | ok y => simp [eval, ht, hf, hg, bind, Except.bind] at h
      | error d =>
        obtain rfl : f.fault source (.domain f.text d.reason) = e := by
          simpa [eval, ht, hf, hg, bind, Except.bind] using h
        exact firstFault_self (.domain ht hf hg) hargument rfl

theorem firstFault_of_eval {bound : Scope} {p : Phrase} (hd : Derives bound p t)
    (h : t.eval scope source = .error e) : FirstFault scope source t e := by
  induction hd generalizing e with
  | sum _ hs _ ihl ihr => exact firstFault_binary (hs.isBinary (by decide)) ihl ihr h
  | product _ hs _ ihl ihr => exact firstFault_binary (hs.isBinary (by decide)) ihl ihr h
  | power _ hs _ ihl ihr => exact firstFault_binary (hs.isBinary (by decide)) ihl ihr h
  | ofTerm _ ih => exact ih h
  | ofPower _ ih => exact ih h
  | ofUnary _ ih => exact ih h
  | ofPrimary _ ih => exact ih h
  | @negation t s _ _ ih =>
    cases ht : t.eval scope source with
    | error e' =>
      obtain rfl : e' = e := by simpa [eval, ht, bind, Except.bind] using h
      exact (ih ht).within (a := []) (by simp) rfl
    | ok x => simp [eval, ht, bind, Except.bind, pure, Except.pure] at h
  | number => cases h
  | @name t =>
    cases hv : scope.value? t.text with
    | some x => simp [eval, hv] at h
    | none =>
      obtain rfl : t.fault source (.unknownVariable t.text) = e := by simpa [eval, hv] using h
      exact firstFault_self (.variableName hv) (a := []) (by simp) rfl
  | @bracket t o c _ _ _ _ ih => exact (ih h).within (a := []) (b := []) (by simp) (by simp [nodes])
  | @bars t o c _ _ _ ih =>
    cases ht : t.eval scope source with
    | error e' =>
      obtain rfl : e' = e := by simpa [eval, ht, bind, Except.bind] using h
      exact (ih ht).within (a := []) (by simp) rfl
    | ok x => simp [eval, ht, bind, Except.bind, pure, Except.pure] at h
  | call _ _ _ _ _ _ _ ih => exact firstFault_call ih h

end FirstFault

end Tree

end Reckoner
