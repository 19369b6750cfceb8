import Reckoner.Proofs.Conversion.Parsing
import Reckoner.Proofs.Evaluation.Value

/-! Replaying the postorder of a tree computes the value of the tree. Whatever else is on
the stack stays below the value. -/

namespace Reckoner

variable {scope bound : Scope} {source : String}

namespace Token

lemma result_replayStep (t : Token) (stack : List Float) :
    (t.replayStep scope source stack).result =
      match t.eval scope stack with
      | .ok (x, rest) => .ok (x :: rest)
      | .error f => .error (t.fault source f) := by
  rw [replayStep]
  cases h : t.eval scope stack <;> rfl

end Token

def replayOn (scope : Scope) (source : String) (stack : List Float) (ts : List Token) :
    Except EvalError (List Float) :=
  (ts.foldlM (Token.replayStep scope source) stack).result

lemma replayOn_cons (stack : List Float) (t : Token) (ts : List Token) :
    replayOn scope source stack (t :: ts) =
      (t.replayStep scope source stack).result >>= fun rest => replayOn scope source rest ts := by
  simp [replayOn]

lemma replayOn_append (stack : List Float) (ts us : List Token) :
    replayOn scope source stack (ts ++ us) =
      replayOn scope source stack ts >>= fun rest => replayOn scope source rest us := by
  simp [replayOn]

lemma replayOn_single (stack : List Float) (t : Token) :
    replayOn scope source stack [t] = (t.replayStep scope source stack).result := by
  rw [replayOn_cons]
  cases (t.replayStep scope source stack).result <;> rfl

lemma result_replay (scope : Scope) (source : String) (ts : List Token) :
    (replay scope source ts).result = replayOn scope source [] ts >>= singleValue := by
  simp [replay, replayOn]

namespace Tree

/-- The postorder leaves the value on the stack, or stops where the value fails. -/
def Replays (scope : Scope) (source : String) (t : Tree) : Prop :=
  ∀ stack, replayOn scope source stack t.postorder =
    match t.eval scope source with
    | .ok x => .ok (x :: stack)
    | .error e => .error e

lemma replays_binary {l r : Tree} {s : Token} (hl : Replays scope source l)
    (hr : Replays scope source r) : Replays scope source (.binary l s r) := by
  intro stack
  rw [postorder, replayOn_append, replayOn_append, hl]
  cases hx : l.eval scope source with
  | error e => simp [eval, hx, bind, Except.bind]
  | ok x =>
    have hright := hr (x :: stack)
    cases hy : r.eval scope source with
    | error e => simp [eval, hx, hy, hright, bind, Except.bind]
    | ok y =>
      have hstep : (s.resolve .binary).eval scope (y :: x :: stack) =
          (Arithmetic.binary s.text x y).map (·, stack) := rfl
      simp only [eval, hx, hy, hright, bind, Except.bind, replayOn_single, Token.result_replayStep,
        hstep]
      cases Arithmetic.binary s.text x y <;> rfl

lemma replays_unary {t u : Tree} {sign : Token} {f : Float → Float} (ht : Replays scope source t)
    (hpost : u.postorder = t.postorder ++ [sign])
    (hu : u.eval scope source = f <$> t.eval scope source)
    (hsign : ∀ x stack, sign.eval scope (x :: stack) = .ok (f x, stack)) :
    Replays scope source u := by
  intro stack
  rw [hpost, replayOn_append, ht, hu]
  cases t.eval scope source with
  | error e => rfl
  | ok x =>
    simp only [bind, Except.bind, replayOn_single, Token.result_replayStep, hsign]
    rfl

lemma replays_call {f o c : Token} {t : Tree} (ht : Replays scope source t) :
    Replays scope source (.call f o t c) := by
  intro stack
  rw [postorder, replayOn_append, ht]
  cases hx : t.eval scope source with
  | error e => simp [eval, hx, bind, Except.bind]
  | ok x =>
    simp only [bind, Except.bind, replayOn_single, Token.result_replayStep]
    cases hf : scope.function? f.text with
    | none => simp [eval, hx, hf, Token.eval, Token.resolve, Token.fault, bind, Except.bind]
    | some g =>
      cases hg : g x <;>
        simp [eval, hx, hf, hg, Token.eval, Token.resolve, Token.fault, bind, Except.bind]

theorem replays_of_derives {p : Phrase} {t : Tree} (h : Derives bound p t)
    (hs : ∀ u ∈ t.tokens, u.Spelled) : Replays scope source t := by
  have operands {l r : Tree} {s : Token} (h : ∀ u ∈ (binary l s r).tokens, u.Spelled) :
      (∀ u ∈ l.tokens, u.Spelled) ∧ ∀ u ∈ r.tokens, u.Spelled := by
    constructor <;> intro u hu <;> exact h u (by simp [tokens, hu])
  have inner {u : Tree} {o c : Token} (h : ∀ v ∈ o :: (u.tokens ++ [c]), v.Spelled) :
      ∀ v ∈ u.tokens, v.Spelled := by
    intro v hv
    exact h v (by simp [hv])
  induction h with
  | sum _ _ _ ihl ihr => exact replays_binary (ihl (operands hs).1) (ihr (operands hs).2)
  | product _ _ _ ihl ihr => exact replays_binary (ihl (operands hs).1) (ihr (operands hs).2)
  | power _ _ _ ihl ihr => exact replays_binary (ihl (operands hs).1) (ihr (operands hs).2)
  | ofTerm _ ih => exact ih hs
  | ofPower _ ih => exact ih hs
  | ofUnary _ ih => exact ih hs
  | ofPrimary _ ih => exact ih hs
  | @negation t s hsign _ ih =>
    have htext : s.text = "-" := by simpa using hsign.2
    apply replays_unary (ih (List.forall_mem_cons.mp hs).2) (f := Neg.neg) rfl
    · cases ht : t.eval scope source <;> simp [eval, ht]
    · simp [Token.eval, Token.resolve, Arithmetic.unary, htext]
  | @number t hc =>
    intro stack
    have hread := Token.read_literal (hs t (by simp [tokens])) hc
    simp [postorder, replayOn_single, Token.result_replayStep, Token.eval, Token.resolve, hread, eval,
      Token.literal]
  | @name t =>
    intro stack
    simp only [postorder, replayOn_single, Token.result_replayStep]
    cases hv : scope.value? t.text <;> simp [Token.eval, Token.resolve, hv, eval, Token.fault]
  | bracket _ _ _ _ ih => exact ih (inner hs)
  | @bars t o c _ _ _ ih =>
    apply replays_unary (ih (inner hs)) (f := Float.abs) rfl
    · cases ht : t.eval scope source <;> simp [eval, ht]
    · simp [Token.eval, Conversion.absoluteValue, Arithmetic.unary]
  | call _ _ _ _ _ _ _ ih => exact replays_call (ih (inner (List.forall_mem_cons.mp hs).2))

lemma result_calculate {t : Tree} (h : Replays scope source t) :
    ((t.expression source).calculate scope).result = t.eval scope source := by
  rw [Expression.calculate, expression, result_replay, h]
  cases t.eval scope source <;> rfl

end Tree

namespace Expression

theorem calculate_exact {e : Expression} (h : (parse bound source).result = .ok e)
    (scope : Scope) : ∃ t, IsTree bound source t ∧ (∀ u, IsTree bound source u → u = t) ∧
      t.nodes.map Tree.root = e.postfixTokens ∧
      (e.calculate scope).result = t.eval scope source ∧
      ∀ fault, (e.calculate scope).result = .error fault → t.FirstFault scope source fault := by
  obtain ⟨t, ht, rfl⟩ := exists_isTree h
  have hreplays : Tree.Replays scope source t :=
    Tree.replays_of_derives ht.derives (Token.spelled_of_tokenize ht.tokens)
  refine ⟨t, ht, fun u hu => hu.unique ht, t.map_root_nodes, Tree.result_calculate hreplays, ?_⟩
  intro fault hfault
  rw [Tree.result_calculate hreplays] at hfault
  exact Tree.firstFault_of_eval ht.derives hfault

theorem calculate_exact_unbound : ∃ t, IsTree ⟨fun _ => some 1, fun _ => none⟩ "-y/x" t ∧
    t.FirstFault ⟨fun _ => none, fun _ => none⟩ "-y/x"
      (.atToken (.unknownVariable "y") ⟨"-y/x", 1⟩) := by
  have hparse : (parse ⟨fun _ => some 1, fun _ => none⟩ "-y/x").result = .ok ⟨"-y/x",
      [⟨.unary, "-", 0⟩, ⟨.variableName, "y", 1⟩, ⟨.binary, "/", 2⟩, ⟨.variableName, "x", 3⟩],
      [⟨.variableName, "y", 1⟩, ⟨.unary, "-", 0⟩, ⟨.variableName, "x", 3⟩, ⟨.binary, "/", 2⟩]⟩ := by
    cbv
  obtain ⟨t, ht, -, -, -, hfirst⟩ := calculate_exact hparse ⟨fun _ => none, fun _ => none⟩
  exact ⟨t, ht, hfirst _ rfl⟩

end Expression

end Reckoner
