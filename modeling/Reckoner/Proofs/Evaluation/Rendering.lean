import Reckoner.Expression.Evaluate
import Reckoner.Proofs.Evaluation.Faults
import Reckoner.Proofs.Evaluation.Substitution

/-! The text of an expression is the expression again. Spaces keep the tokens apart, and
whatever is done with the tokens depends on their kinds and not on their offsets. -/

namespace Reckoner

variable {scope : Scope} {source source' : String} {ts us : List Token}

namespace Token

variable {t u : Token}

lemma eq_of_kind {α : Type} {f : Token → α} (hf : ∀ t : Token, f t.unplaced = f t)
    (h : t.kind = u.kind) : f t = f u := by
  rw [← hf t, unplaced_eq_of_kind h, hf]

lemma map_eq_of_kinds {α : Type} {f : Token → α} (hf : ∀ t : Token, f t.unplaced = f t)
    (h : ts.map kind = us.map kind) : ts.map f = us.map f := by
  have hfactor : f = (fun k => f ⟨k.1, k.2, 0⟩) ∘ kind := funext fun t => (hf t).symm
  rw [hfactor, ← List.map_map, h, List.map_map]

lemma replayStep_of_kind (scope : Scope) (source source' : String) (h : t.kind = u.kind)
    (stack : List Float) :
    (t.replayStep scope source stack).result.mapError EvalError.unplaced =
      (u.replayStep scope source' stack).result.mapError EvalError.unplaced := by
  have heval : t.eval scope stack = u.eval scope stack :=
    eq_of_kind (f := fun t => t.eval scope stack) (fun _ => rfl) h
  rw [result_replayStep, result_replayStep, heval]
  cases u.eval scope stack <;> rfl

end Token

lemma replayOn_of_kinds (scope : Scope) (source source' : String)
    (h : ts.map Token.kind = us.map Token.kind) (stack : List Float) :
    (replayOn scope source stack ts).mapError EvalError.unplaced =
      (replayOn scope source' stack us).mapError EvalError.unplaced := by
  induction ts generalizing us stack with
  | nil =>
    obtain rfl : us = [] := by simpa using h.symm
    rfl
  | cons t ts ih =>
    obtain ⟨u, vs, rfl, hu, hvs⟩ := List.map_eq_cons_iff.mp h.symm
    have hstep := Token.replayStep_of_kind scope source source' hu.symm stack
    rw [replayOn_cons, replayOn_cons, Tree.mapError_bind, Tree.mapError_bind, hstep]
    congr 1
    funext rest
    exact ih hvs.symm rest

lemma replay_of_kinds (h : ts.map Token.kind = us.map Token.kind) :
    (replay scope source ts).result.mapError EvalError.unplaced =
      (replay scope source' us).result.mapError EvalError.unplaced := by
  have hstack := replayOn_of_kinds scope source source' h []
  rw [result_replay, result_replay, Tree.mapError_bind, Tree.mapError_bind, hstack]

namespace Tree

lemma leaves_unplaced (t : Tree) : t.unplaced.leaves = t.leaves.map Token.unplaced := by
  induction t with
  | number t | name t => rfl
  | negation s t ih => simp [unplaced, leaves, Token.unplaced, Token.resolve, ih]
  | binary l s r ihl ihr => simp [unplaced, leaves, Token.unplaced, Token.resolve, ihl, ihr]
  | bracket o t c ih | bars o t c ih | call f o t c ih =>
    simp [unplaced, leaves, Token.unplaced, Token.resolve, ih]

lemma postorder_unplaced (t : Tree) : t.unplaced.postorder = t.postorder.map Token.unplaced := by
  induction t with
  | number t | name t => rfl
  | negation s t ih | call f o t c ih => simp [unplaced, postorder, Token.unplaced, Token.resolve, ih]
  | binary l s r ihl ihr => simp [unplaced, postorder, Token.unplaced, Token.resolve, ihl, ihr]
  | bracket o t c ih => exact ih
  | bars o t c ih => simp [unplaced, postorder, Token.unplaced, Conversion.absoluteValue, ih]

lemma kinds_of_unplaced {t u : Tree} (h : t.unplaced = u.unplaced) :
    t.leaves.map Token.kind = u.leaves.map Token.kind ∧
      t.postorder.map Token.kind = u.postorder.map Token.kind := by
  have hkind (ts : List Token) : (ts.map Token.unplaced).map Token.kind = ts.map Token.kind := by
    rw [List.map_map]
    rfl
  constructor
  · rw [← hkind, ← leaves_unplaced, h, leaves_unplaced, hkind]
  · rw [← hkind, ← postorder_unplaced, h, postorder_unplaced, hkind]

end Tree

namespace Expression

variable {e e' : Expression}

section Texts

lemma infixText_of_kinds (h : e'.infixTokens.map Token.kind = e.infixTokens.map Token.kind) :
    e'.infixText = e.infixText := by
  rw [infixText, infixText, Token.map_eq_of_kinds (fun _ => rfl) h]

lemma substitutedText_of_kinds
    (h : e'.infixTokens.map Token.kind = e.infixTokens.map Token.kind) (s : Scope) :
    e'.substitutedText s = e.substitutedText s := by
  rw [substitutedText, substitutedText, Token.map_eq_of_kinds (fun _ => rfl) h]

lemma postfixText_of_kinds
    (h : e'.postfixTokens.map Token.kind = e.postfixTokens.map Token.kind) :
    e'.postfixText = e.postfixText := by
  rw [postfixText, postfixText, Token.map_eq_of_kinds (fun _ => rfl) h]

end Texts

lemma exists_isTree_of_scans {t : Tree} (ht : IsTree scope source t)
    (h : Token.Scans source'.toList (t.tokens.map Token.kind)) :
    ∃ u, IsTree scope source' u ∧ u.unplaced = t.unplaced := by
  obtain ⟨us, hus, hkinds⟩ := h source' 0
  obtain ⟨u, hu, rfl, hplaced⟩ := ht.derives.relabel us hkinds
  exact ⟨u, ⟨hus, hu⟩, hplaced⟩

lemma exists_isTree_infixText {t : Tree} (ht : IsTree scope source t) :
    ∃ u, IsTree scope (t.expression source).infixText u ∧ u.unplaced = t.unplaced := by
  have htexts : (t.expression source).infixText = " ".intercalate (t.tokens.map (·.text)) := by
    rw [infixText, Tree.expression, t.map_leaves fun text _ => text]
  apply exists_isTree_of_scans ht
  rw [htexts, List.map_eq_flatMap (f := Token.kind)]
  exact Token.scans_intercalate fun u hu => (Token.spelled_of_tokenize ht.tokens u hu).scans

theorem infixText_exact (h : (parse scope source).result = .ok e) :
    ∃ e', (parse scope e.infixText).result = .ok e' ∧
      e'.infixTokens.map Token.kind = e.infixTokens.map Token.kind ∧
      e'.postfixTokens.map Token.kind = e.postfixTokens.map Token.kind ∧
      e'.infixText = e.infixText ∧ e'.postfixText = e.postfixText ∧
      (∀ s, e'.substitutedText s = e.substitutedText s) ∧
      ∀ s, (e'.calculate s).result.mapError EvalError.unplaced =
        (e.calculate s).result.mapError EvalError.unplaced := by
  obtain ⟨t, ht, rfl⟩ := exists_isTree h
  obtain ⟨u, hu, hplaced⟩ := exists_isTree_infixText ht
  obtain ⟨hleaves, hpostorder⟩ := Tree.kinds_of_unplaced hplaced
  exact ⟨_, hu.parse, hleaves, hpostorder, infixText_of_kinds hleaves, postfixText_of_kinds hpostorder,
    substitutedText_of_kinds hleaves, fun s => replay_of_kinds hpostorder⟩

theorem infixText_exact_bars :
    ∃ e, (parse ⟨fun _ => some 1, fun _ => none⟩ "| 2. - | | y | | |").result = .ok e ∧
      e.postfixText = "RPN: [ 2. y abs abs - abs ]" := by
  have hparse : (parse ⟨fun _ => some 1, fun _ => none⟩ "|2.-||y|||").result =
      .ok ⟨"|2.-||y|||",
        [⟨.opening, "|", 0⟩, ⟨.number, "2.", 1⟩, ⟨.binary, "-", 3⟩, ⟨.opening, "|", 4⟩,
          ⟨.opening, "|", 5⟩, ⟨.variableName, "y", 6⟩, ⟨.closing, "|", 7⟩, ⟨.closing, "|", 8⟩,
          ⟨.closing, "|", 9⟩],
        [⟨.number, "2.", 1⟩, ⟨.variableName, "y", 6⟩, ⟨.unary, "abs", 7⟩, ⟨.unary, "abs", 8⟩,
          ⟨.binary, "-", 3⟩, ⟨.unary, "abs", 9⟩]⟩ := by
    cbv
  obtain ⟨e, he, -, -, -, hpostorder, -⟩ := infixText_exact hparse
  exact ⟨e, he, hpostorder⟩

end Expression

lemma Scope.evaluate_eq_ok {x : Float} : (scope.evaluate source).result = .ok x ↔
    ∃ e, (Expression.parse scope source).result = .ok e ∧ (e.calculate scope).result = .ok x := by
  simp [evaluate]

lemma Scope.evaluate_of_scans {x : Float} (hx : (scope.evaluate source).result = .ok x)
    (h : ∀ ks, Token.Scans source.toList ks → Token.Scans source'.toList ks) :
    (scope.evaluate source').result = .ok x := by
  obtain ⟨e, he, hvalue⟩ := evaluate_eq_ok.mp hx
  obtain ⟨t, ht, rfl⟩ := Expression.exists_isTree he
  obtain ⟨u, hu, hplaced⟩ :=
    Expression.exists_isTree_of_scans ht (h _ (Token.scans_of_scan ht.tokens))
  refine evaluate_eq_ok.mpr ⟨_, hu.parse, ?_⟩
  have hsame : ((u.expression source').calculate scope).result.mapError EvalError.unplaced =
      ((t.expression source).calculate scope).result.mapError EvalError.unplaced :=
    replay_of_kinds (Tree.kinds_of_unplaced hplaced).2
  rwa [hvalue, Outcome.mapError_ok, Outcome.mapError_eq_ok] at hsame

end Reckoner
