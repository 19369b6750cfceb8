import Reckoner.Proofs.Evaluation.Replay
import Reckoner.Proofs.Grammar.Substitution
import Reckoner.Proofs.Numeral.Display

/-! Substituting numbers for names is evaluating in part. The text with the numbers in it
is read again, and what it lacks decides its value as before. -/

namespace Reckoner

def EvalError.unplaced : EvalError → EvalError
  | atToken f _ => atToken f ⟨"", 0⟩
  | e => e

namespace Tree

variable {scope s : Scope} {source : String} {values : String → Option Float}
  {functions : String → Option UnaryFunction}

lemma eval_ofDisplay {x : Float} {cs : List Char} (h : Numeral.Prints x cs) (offset : Nat) :
    (ofDisplay offset cs).eval scope source = .ok x := by
  rcases h with ⟨hd, hx⟩ | ⟨ds, rfl, -, hx⟩
  · rw [ofDisplay_literal hd]
    simp [eval, Token.literal, hx]
  · simp [ofDisplay, eval, Token.literal, hx, bind, Except.bind, pure, Except.pure]

lemma eval_substitute
    (hx : ∀ name x, s.value? name = some x → Numeral.Prints x (Numeral.display x).toList) (t : Tree) :
    (t.substitute s.value?).eval ⟨values, functions⟩ source =
      t.eval ⟨fun name => (s.value? name).or (values name), functions⟩ source := by
  induction t with
  | number t => rfl
  | name t =>
    cases hv : s.value? t.text with
    | none => simp [substitute, eval, hv]
    | some x =>
      simp only [substitute, hv, eval_ofDisplay (hx _ _ hv)]
      simp [eval, hv]
  | negation s t ih => simp only [substitute, eval, ih]
  | binary l s r ihl ihr => simp only [substitute, eval, ihl, ihr]
  | bracket o t c ih => exact ih
  | bars o t c ih => simp only [substitute, eval, ih]
  | call f o t c ih => simp only [substitute, eval, ih]

section Unplaced

lemma mapError_bind {α β : Type} (x : Except EvalError α) (f : α → Except EvalError β) :
    (x >>= f).mapError EvalError.unplaced =
      x.mapError EvalError.unplaced >>= fun a => (f a).mapError EvalError.unplaced := by
  cases x <;> rfl

lemma mapError_fault {α : Type} (x : Except EvalFault α) {source' : String} {t u : Token} :
    (x.mapError (t.fault source)).mapError EvalError.unplaced =
      (x.mapError (u.fault source')).mapError EvalError.unplaced := by
  cases x <;> rfl

lemma eval_unplaced (source source' : String) (t : Tree) : (t.unplaced.eval scope source').mapError EvalError.unplaced =
    (t.eval scope source).mapError EvalError.unplaced := by
  induction t with
  | number t => rfl
  | name t =>
    simp only [unplaced, eval, Token.unplaced]
    cases scope.value? t.text <;> rfl
  | negation s t ih => simp only [unplaced, eval, mapError_bind, ih]
  | binary l s r ihl ihr =>
    simp only [unplaced, eval, mapError_bind, ihl, ihr]
    congr 1
    funext x
    congr 1
    funext y
    exact mapError_fault _
  | bracket o t c ih => exact ih
  | bars o t c ih => simp only [unplaced, eval, mapError_bind, ih]
  | call f o t c ih =>
    simp only [unplaced, eval, mapError_bind, ih]
    congr 1
    funext x
    have htext : f.unplaced.text = f.text := rfl
    rw [htext]
    cases scope.function? f.text with
    | none => rfl
    | some g =>
      cases hg : g x with
      | ok y => simp [hg]
      | error d =>
        simp only [hg]
        rfl

end Unplaced

end Tree

namespace Expression

theorem substitutedText_exact {bound s : Scope} {source : String} {e : Expression}
    (h : (parse bound source).result = .ok e)
    (hs : ∀ name x, s.value? name = some x → x.isFinite)
    {values : String → Option Float} (hv : ∀ t ∈ e.infixTokens, t.category = .variableName →
      s.value? t.text = none → (values t.text).isSome) :
    ∃ e', (parse ⟨values, bound.function?⟩ (e.substitutedText s)).result = .ok e' ∧
      ∀ functions, (e'.calculate ⟨values, functions⟩).result.mapError EvalError.unplaced =
        (e.calculate ⟨fun name => (s.value? name).or (values name), functions⟩).result.mapError
          EvalError.unplaced := by
  have hprints : ∀ name x, s.value? name = some x → Numeral.Prints x (Numeral.display x).toList :=
    fun name x hx => Numeral.prints_display (hs name x hx)
  obtain ⟨t, ht, rfl⟩ := exists_isTree h
  have hspelled := Token.spelled_of_tokenize ht.tokens
  have htext := (spaced_substitute hspelled hprints).2
  obtain ⟨us, hus, hkinds⟩ := htext ((t.expression source).substitutedText s) 0
  have hderives : Derives ⟨values, bound.function?⟩ .expression (t.substitute s.value?) :=
    ht.derives.substitute rfl hv
  obtain ⟨u, hu, rfl, hplaced⟩ := hderives.relabel us hkinds
  have hparsed : IsTree ⟨values, bound.function?⟩ ((t.expression source).substitutedText s) u :=
    ⟨hus, hu⟩
  refine ⟨_, hparsed.parse, ?_⟩
  intro functions
  rw [Tree.result_calculate (Tree.replays_of_derives hu (Token.spelled_of_tokenize hus)),
    Tree.result_calculate (Tree.replays_of_derives ht.derives hspelled),
    ← Tree.eval_unplaced _ source, hplaced, Tree.eval_unplaced source source, Tree.eval_substitute hprints]

theorem substitutedText_exact_power :
    ∃ e', (parse ⟨fun _ => some 2, fun _ => none⟩ (Expression.substitutedText ⟨"x^y",
      [⟨.variableName, "x", 0⟩, ⟨.binary, "^", 1⟩, ⟨.variableName, "y", 2⟩],
      [⟨.variableName, "x", 0⟩, ⟨.variableName, "y", 2⟩, ⟨.binary, "^", 1⟩]⟩
        ⟨fun name => if name = "x" then some (-3) else none, fun _ => none⟩)).result = .ok e' ∧
      (e'.calculate ⟨fun _ => some 2, fun _ => none⟩).result.mapError EvalError.unplaced =
        .ok (Float.pow (-3) 2) := by
  have hparse : (parse ⟨fun _ => some 1, fun _ => none⟩ "x^y").result = .ok ⟨"x^y",
      [⟨.variableName, "x", 0⟩, ⟨.binary, "^", 1⟩, ⟨.variableName, "y", 2⟩],
      [⟨.variableName, "x", 0⟩, ⟨.variableName, "y", 2⟩, ⟨.binary, "^", 1⟩]⟩ := by
    cbv
  have hfinite : ∀ name (x : Float), (if name = "x" then some (-3) else none) = some x →
      x.isFinite := by
    intro name x hx
    split_ifs at hx
    obtain rfl := Option.some.inj hx
    rfl
  obtain ⟨e', he, hvalue⟩ := @substitutedText_exact _
    ⟨fun name => if name = "x" then some (-3) else none, fun _ => none⟩ _ _ hparse hfinite
    (fun _ => some 2) fun _ _ _ _ => rfl
  exact ⟨e', he, hvalue _⟩

end Expression

end Reckoner
