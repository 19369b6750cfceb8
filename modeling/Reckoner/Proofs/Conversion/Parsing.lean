import Mathlib
import Reckoner.Proofs.Conversion.Simulation
import Reckoner.Proofs.Grammar.Completeness

/-! A source is an expression exactly when its tokens have a derivation. The two orders
in which the expression is kept are read off the tree. -/

namespace Reckoner

namespace Conversion

variable {scope : Scope} {source : String}

def run (scope : Scope) (c : Conversion) (ts : List Token) : Option Conversion :=
  ts.foldlM (fun c t => (c.advance scope t).toOption) c

lemma run_cons (c : Conversion) (t : Token) (ts : List Token) :
    run scope c (t :: ts) = (c.advance scope t).toOption.bind fun d => run scope d ts :=
  List.foldlM_cons

lemma toOption_foldlM_step (source : String) (c : Conversion) (ts : List Token) :
    (ts.foldlM (step scope source) c).result.toOption = run scope c ts := by
  induction ts generalizing c with
  | nil => rfl
  | cons t ts ih =>
    rw [List.foldlM_cons, Logged.result_bind, result_step, run_cons]
    cases h : c.advance scope t with
    | error f => rfl
    | ok d => exact ih d

end Conversion

namespace Sketch

variable {scope : Scope} {d : Sketch} {ts : List Token}

lemma run_conversion (hd : Sound scope d) (hts : ∀ t ∈ ts, t.Spelled) :
    Conversion.run scope d.conversion ts = (run scope d ts).map conversion := by
  induction ts generalizing d with
  | nil => rfl
  | cons t ts ih =>
    have ht : t.Spelled := hts t (by simp)
    rw [Conversion.run_cons, advance_conversion ht hd, run_cons]
    cases h : d.read scope t with
    | none => rfl
    | some e => exact ih (read_sound hd ht h).1 fun u hu => hts u (by simp [hu])

section Finish

variable (source : String)

lemma finish_pending {c : Conversion} (h : (c.pending.find? Conversion.isUnclosed).isSome) :
    (c.finish source).toOption = none := by
  obtain ⟨t, ht⟩ := Option.isSome_iff_exists.mp h
  simp [Conversion.finish, ht, Except.toOption]

lemma finish_absorb (fs : List Frame) (u : Tree) :
    (⟨fs, .operand u⟩ : Sketch).conversion.finish source =
      (⟨(absorb (·.category != .opening) fs u).1,
        .operand (absorb (·.category != .opening) fs u).2⟩ : Sketch).conversion.finish source := by
  -- absorbing changes neither what is unclosed nor the order of evaluation
  fun_induction absorb (·.category != .opening) fs u with
  | case1 l s fs t hp ih =>
    rw [← ih]
    simp [Conversion.finish, Conversion.isUnclosed, conversion, Conversion.previous, Frame.leaves,
      Frame.output, Frame.pending, Focus.leaves, Focus.output, Focus.pending, Tree.leaves,
      Tree.postorder, Token.resolve]
  | case3 s fs t hp ih =>
    rw [← ih]
    simp [Conversion.finish, Conversion.isUnclosed, conversion, Conversion.previous, Frame.leaves,
      Frame.output, Frame.pending, Focus.leaves, Focus.output, Focus.pending, Tree.leaves,
      Tree.postorder, Token.resolve]
  | _ => rfl

lemma finish_operand (u : Tree) :
    (⟨[], .operand u⟩ : Sketch).conversion.finish source = .ok (u.expression source) := by
  have hend : (⟨[], .operand u⟩ : Sketch).conversion.previous.canFollow .finish :=
    canFollow_operand (previous_operand [] u) .finish
  rw [Conversion.finish, if_pos hend]
  simp [conversion, Focus.leaves, Focus.output, Focus.pending, Tree.expression]

lemma finish_conversion (d : Sketch) :
    (d.conversion.finish source).toOption = d.finish.map (Tree.expression source) := by
  obtain ⟨fs, focus⟩ := d
  cases focus with
  | due =>
    have hend : (⟨fs, .due⟩ : Sketch).conversion.previous.canFollow .finish = false :=
      canFollow_due (previous_due fs) .finish
    rw [Conversion.finish]
    split
    · rfl
    · rw [if_neg (by simp [hend])]
      rfl
  | named f =>
    apply finish_pending
    simp [conversion, Focus.pending, Conversion.isUnclosed, Token.resolve]
  | operand u =>
    have hstop := absorb_all fs u
    rw [finish_absorb]
    simp only [finish]
    generalize absorb (·.category != .opening) fs u = r at hstop ⊢
    obtain ⟨gs, v⟩ := r
    rcases hstop with rfl | ⟨f, o, gs, rfl⟩
    · rw [finish_operand]
      rfl
    · apply finish_pending
      simp [conversion, Focus.pending, Frame.pending, Conversion.isUnclosed, Token.resolve]

end Finish

end Sketch

namespace Expression

variable {scope : Scope} {source : String}

lemma result_parse (scope : Scope) (source : String) :
    (parse scope source).result = (convert scope source).result := by
  cases h : (convert scope source).result <;> simp [parse, h]

lemma result_convert {ts : List Token} (hts : Token.tokenize source = .ok ts) :
    (convert scope source).result =
      (ts.foldlM (Conversion.step scope source) {}).result >>= (·.finish source) := by
  simp only [convert, hts, Logged.result_bind, Logged.result_ofExcept]
  rfl

lemma toOption_bind {ε α β : Type} (x : Except ε α) (f : α → Except ε β) :
    (x >>= f).toOption = x.toOption.bind fun a => (f a).toOption := by
  cases x <;> rfl

lemma toOption_parse (scope : Scope) {ts : List Token} (hts : Token.tokenize source = .ok ts) :
    (parse scope source).result.toOption =
      ((Sketch.run scope .empty ts).bind Sketch.finish).map (Tree.expression source) := by
  have hrun : Conversion.run scope {} ts = (Sketch.run scope .empty ts).map Sketch.conversion :=
    Sketch.run_conversion (Sketch.sound_empty scope) (Token.spelled_of_tokenize hts)
  rw [result_parse, result_convert hts, toOption_bind, Conversion.toOption_foldlM_step, hrun]
  cases h : Sketch.run scope .empty ts with
  | none => rfl
  | some d => exact Sketch.finish_conversion source d

lemma result_parse_error {e : ParseError} (h : Token.tokenize source = .error e) :
    (parse scope source).result = .error e := by
  rw [result_parse, convert, h]
  rfl

/-- The tree derives the tokens of the source. -/
structure IsTree (scope : Scope) (source : String) (t : Tree) : Prop where
  tokens : Token.tokenize source = .ok t.tokens
  derives : Derives scope .expression t

lemma IsTree.unique {t u : Tree} (ht : IsTree scope source t) (hu : IsTree scope source u) :
    t = u := by
  have h := ht.tokens.symm.trans hu.tokens
  exact Sketch.derivation_unique ht.derives hu.derives (Except.ok.inj h)

lemma IsTree.parse {t : Tree} (ht : IsTree scope source t) :
    (parse scope source).result = .ok (t.expression source) := by
  have hrun := toOption_parse scope ht.tokens
  rw [Sketch.finish_run_tokens ht.derives, Option.map_some] at hrun
  cases h : (Expression.parse scope source).result with
  | error e => simp [h, Except.toOption] at hrun
  | ok e => simpa [h, Except.toOption] using hrun

lemma exists_isTree {e : Expression} (h : (parse scope source).result = .ok e) :
    ∃ t, IsTree scope source t ∧ e = t.expression source := by
  cases hts : Token.tokenize source with
  | error e' =>
    rw [result_parse_error hts] at h
    cases h
  | ok ts =>
    have hrun := toOption_parse scope hts
    rw [h] at hrun
    obtain ⟨t, ht, he⟩ := Option.map_eq_some_iff.mp hrun.symm
    obtain ⟨hd, rfl⟩ := (Sketch.finish_run_iff (Token.spelled_of_tokenize hts)).mp ht
    exact ⟨t, ⟨hts, hd⟩, he.symm⟩

theorem parse_exact (scope : Scope) (source : String) :
    ((∃ e, (parse scope source).result = .ok e) ↔
      ∃ ts, Token.tokenize source = .ok ts ∧ ∃ t, Derives scope .expression t ∧ t.tokens = ts) ∧
    ∀ e, (parse scope source).result = .ok e →
      ∃ t, IsTree scope source t ∧ (∀ u, IsTree scope source u → u = t) ∧
        e.source = source ∧ e.infixTokens = t.leaves ∧ e.postfixTokens = t.postorder := by
  refine ⟨⟨?_, ?_⟩, ?_⟩
  · rintro ⟨e, he⟩
    obtain ⟨t, ht, -⟩ := exists_isTree he
    exact ⟨t.tokens, ht.tokens, t, ht.derives, rfl⟩
  · rintro ⟨ts, hts, t, ht, rfl⟩
    exact ⟨t.expression source, IsTree.parse ⟨hts, ht⟩⟩
  · intro e he
    obtain ⟨t, ht, rfl⟩ := exists_isTree he
    exact ⟨t, ht, fun u hu => hu.unique ht, rfl, rfl, rfl⟩

theorem parse_exact_call :
    ∃ t, IsTree ⟨fun _ => some 1, fun f => if f = "f" then some .ok else none⟩ "-f(|x|)^2" t ∧
      t.postorder = [⟨.variableName, "x", 4⟩, ⟨.unary, "abs", 5⟩, ⟨.functionName, "f", 1⟩,
        ⟨.unary, "-", 0⟩, ⟨.number, "2", 8⟩, ⟨.binary, "^", 7⟩] := by
  have hparse : (parse ⟨fun _ => some 1, fun f => if f = "f" then some .ok else none⟩
      "-f(|x|)^2").result = .ok ⟨"-f(|x|)^2",
        [⟨.unary, "-", 0⟩, ⟨.functionName, "f", 1⟩, ⟨.opening, "(", 2⟩, ⟨.opening, "|", 3⟩,
          ⟨.variableName, "x", 4⟩, ⟨.closing, "|", 5⟩, ⟨.closing, ")", 6⟩, ⟨.binary, "^", 7⟩,
          ⟨.number, "2", 8⟩],
        [⟨.variableName, "x", 4⟩, ⟨.unary, "abs", 5⟩, ⟨.functionName, "f", 1⟩,
          ⟨.unary, "-", 0⟩, ⟨.number, "2", 8⟩, ⟨.binary, "^", 7⟩]⟩ := by
    cbv
  obtain ⟨t, ht, -, -, -, hpostorder⟩ := (parse_exact _ _).2 _ hparse
  exact ⟨t, ht, hpostorder.symm⟩

end Expression

end Reckoner
