import Reckoner.Proofs.Evaluation.Rendering
import Reckoner.Proofs.Token.Name

/-! The postfix text is the sequence again, as long as nothing is bound to `abs`. A symbol ends
at its space and tells the kind of its token, since signs, numbers and names begin differently;
only the operator that bars leave is written like a name. -/

namespace Reckoner

variable {scope : Scope} {source : String} {t : Token}

/-- The kind of the tokens that are written with a symbol, where nothing is bound to `abs`. -/
def Scope.kindOf (scope : Scope) (symbol : String) : Category × String :=
  if symbol = Token.negationSymbol then (.unary, "-")
  else if symbol = "abs" then (.unary, symbol)
  else
    match symbol.toList.head?.bind Lexeme.category? with
    | some .number => (.number, symbol)
    | some .identifier => ((scope.nameCategory? symbol).getD .identifier, symbol)
    | _ => (.binary, symbol)

namespace Token

/-- The symbol ends at the first space and gives the kind of the token away. -/
structure Legible (scope : Scope) (t : Token) : Prop where
  space_notMem : ' ' ∉ t.postfixSymbol.toList
  kindOf_symbol : scope.kindOf t.postfixSymbol = t.kind

lemma Spelled.category?_head (h : t.Spelled) :
    t.text.toList.head?.bind Lexeme.category? = some t.category := by
  obtain ⟨c, tail, htext, hlexeme⟩ := h
  simp [htext, hlexeme.category_first]

lemma Spelled.ne_negationSymbol (h : t.Spelled) : t.text ≠ negationSymbol := by
  intro heq
  -- only a name begins with a letter, and a minus sign does not continue it
  have hcategory : some Category.identifier = some t.category := by
    rw [← h.category?_head, heq]
    decide
  obtain ⟨c, tail, htext, hlexeme⟩ := h
  obtain ⟨rfl, rfl⟩ : 'u' = c ∧ ['-'] = tail := by
    simpa [heq, negationSymbol] using congrArg String.toList htext
  rw [← Option.some.inj hcategory] at hlexeme
  exact absurd hlexeme.spanTail_tail (by decide)

section Legible

variable {category : Category}

lemma legible_number (ht : t.Spelled) (hc : t.category = .number) :
    (t.resolve .number).Legible scope := by
  have hsymbol : (t.resolve .number).postfixSymbol = t.text := if_neg (by simp [resolve])
  have hfirst := ht.category?_head
  have hne : t.text ≠ "abs" := by
    intro heq
    rw [heq, hc] at hfirst
    exact absurd hfirst (by decide)
  refine ⟨hsymbol ▸ ht.isWord.space_notMem, ?_⟩
  rw [hsymbol, Scope.kindOf, if_neg ht.ne_negationSymbol, if_neg hne, hfirst, hc]
  rfl

lemma legible_name (ht : t.Spelled) (hc : t.category = .identifier) (hne : t.text ≠ "abs")
    (hbound : scope.nameCategory? t.text = some category) (hcategory : category ≠ .unary) :
    (t.resolve category).Legible scope := by
  have hsymbol : (t.resolve category).postfixSymbol = t.text := if_neg (by simp [resolve, hcategory])
  refine ⟨hsymbol ▸ ht.isWord.space_notMem, ?_⟩
  rw [hsymbol, Scope.kindOf, if_neg ht.ne_negationSymbol, if_neg hne, ht.category?_head, hc, hbound]
  rfl

lemma legible_negation (ht : t.text = "-") : (t.resolve .unary).Legible scope := by
  have hsymbol : (t.resolve .unary).postfixSymbol = negationSymbol := if_pos (by simp [resolve, ht])
  refine ⟨by rw [hsymbol]; decide, ?_⟩
  rw [hsymbol, Scope.kindOf, if_pos rfl]
  simp [kind, resolve, ht]

lemma legible_absoluteValue (t : Token) : (Conversion.absoluteValue t).Legible scope :=
  ⟨by simp [Conversion.absoluteValue, postfixSymbol], rfl⟩

lemma legible_binary (ht : t.IsBinary) : (t.resolve .binary).Legible scope := by
  have hsymbol : (t.resolve .binary).postfixSymbol = t.text := if_neg (by simp [resolve])
  have htext : t.text = "+" ∨ t.text = "-" ∨ t.text = "*" ∨ t.text = "/" ∨ t.text = "^" := by
    simpa using ht.2
  rcases htext with htext | htext | htext | htext | htext <;>
    exact ⟨by rw [hsymbol, htext]; decide, by rw [hsymbol, kind, resolve, htext]; rfl⟩

end Legible

end Token

lemma Derives.legible {p : Phrase} {tree : Tree} (h : Derives scope p tree)
    (hs : ∀ u ∈ tree.tokens, u.Spelled) (hfree : scope.nameCategory? "abs" = none) :
    ∀ u ∈ tree.postorder, u.Legible scope := by
  have bound_ne {name : String} {category : Category}
      (hbound : scope.nameCategory? name = some category) : name ≠ "abs" := by
    rintro rfl
    cases hfree.symm.trans hbound
  have binary {l r : Tree} {s : Token} (hsign : s.IsBinary)
      (hl : (∀ u ∈ l.tokens, u.Spelled) → ∀ u ∈ l.postorder, u.Legible scope)
      (hr : (∀ u ∈ r.tokens, u.Spelled) → ∀ u ∈ r.postorder, u.Legible scope)
      (hs : ∀ u ∈ (Tree.binary l s r).tokens, u.Spelled) :
      ∀ u ∈ (Tree.binary l s r).postorder, u.Legible scope := by
    simp only [Tree.tokens, List.forall_mem_append, List.forall_mem_cons] at hs
    simp only [Tree.postorder, List.forall_mem_append, List.forall_mem_singleton]
    exact ⟨⟨hl hs.1, hr hs.2.2⟩, Token.legible_binary hsign⟩
  induction h with
  | sum _ hsign _ ihl ihr => exact binary (hsign.isBinary (by simp)) ihl ihr hs
  | product _ hsign _ ihl ihr => exact binary (hsign.isBinary (by simp)) ihl ihr hs
  | power _ hsign _ ihl ihr => exact binary (hsign.isBinary (by simp)) ihl ihr hs
  | ofTerm _ ih => exact ih hs
  | ofPower _ ih => exact ih hs
  | ofUnary _ ih => exact ih hs
  | ofPrimary _ ih => exact ih hs
  | negation hsign _ ih =>
    have htext := List.mem_singleton.mp hsign.2
    simp only [Tree.postorder, List.forall_mem_append, List.forall_mem_singleton]
    exact ⟨ih (List.forall_mem_cons.mp hs).2, Token.legible_negation htext⟩
  | number hc => simpa [Tree.postorder] using Token.legible_number (hs _ (by simp [Tree.tokens])) hc
  | @name t hc hfunction hvalue =>
    have hbound : scope.nameCategory? t.text = some .variableName := by
      simp [Scope.nameCategory?, hfunction, hvalue]
    simpa [Tree.postorder] using
      Token.legible_name (hs _ (by simp [Tree.tokens])) hc (bound_ne hbound) hbound (by decide)
  | bracket _ _ _ _ ih =>
    simp only [Tree.tokens, List.forall_mem_append, List.forall_mem_cons] at hs
    exact ih hs.2.1
  | bars _ _ _ ih =>
    simp only [Tree.tokens, List.forall_mem_append, List.forall_mem_cons] at hs
    simp only [Tree.postorder, List.forall_mem_append, List.forall_mem_singleton]
    exact ⟨ih hs.2.1, Token.legible_absoluteValue _⟩
  | @call t f o c hc hfunction _ _ _ _ _ ih =>
    have hbound : scope.nameCategory? f.text = some .functionName := by
      simp [Scope.nameCategory?, hfunction]
    simp only [Tree.tokens, List.forall_mem_append, List.forall_mem_cons] at hs
    simp only [Tree.postorder, List.forall_mem_append, List.forall_mem_singleton]
    exact ⟨ih hs.2.2.1, Token.legible_name hs.1 hc (bound_ne hbound) hbound (by decide)⟩

namespace Expression

variable {e e' : Expression}

lemma legible_of_parse (h : (parse scope source).result = .ok e)
    (hfree : scope.nameCategory? "abs" = none) : ∀ t ∈ e.postfixTokens, t.Legible scope := by
  obtain ⟨t, ht, rfl⟩ := exists_isTree h
  exact ht.derives.legible (Token.spelled_of_tokenize ht.tokens) hfree

/-- The texts differ unless the sequences are the same but for the places. -/
lemma kinds_of_postfixText (h : ∀ t ∈ e.postfixTokens, t.Legible scope)
    (h' : ∀ t ∈ e'.postfixTokens, t.Legible scope) (htext : e.postfixText = e'.postfixText) :
    e.postfixTokens.map Token.kind = e'.postfixTokens.map Token.kind := by
  have hkinds {ts : List Token} (hts : ∀ t ∈ ts, t.Legible scope) :
      ts.map Token.kind = (ts.map Token.postfixSymbol).map scope.kindOf := by
    rw [List.map_map]
    exact List.map_congr_left fun t ht => (hts t ht).kindOf_symbol.symm
  have hsymbols : e.postfixTokens.map Token.postfixSymbol = e'.postfixTokens.map Token.postfixSymbol := by
    refine Text.eq_of_join (show " ".toList = [' '] from rfl) ?_ ?_ ?_
    · simpa using fun t ht => (h t ht).space_notMem
    · simpa using fun t ht => (h' t ht).space_notMem
    · rw [List.map_map, List.map_map]
      simpa [postfixText, Function.comp_def] using htext
  rw [hkinds h, hkinds h', hsymbols]

section Ambiguous

/-- Two sources that are accepted and written alike, though they are not the same. -/
def Ambiguous (scope : Scope) (source source' : String) : Prop :=
  ∃ e e', (parse scope source).result = .ok e ∧ (parse scope source').result = .ok e' ∧
    e.postfixText = e'.postfixText ∧
    e.postfixTokens.map Token.kind ≠ e'.postfixTokens.map Token.kind

lemma derives_bars {t : Tree} {o c : Nat} (h : Derives scope .primary t) :
    Derives scope .primary (.bars ⟨.operator, "|", o⟩ t ⟨.operator, "|", c⟩) :=
  .bars ⟨rfl, by simp⟩ ⟨rfl, by simp⟩ (h.loosen (by decide))

lemma derives_zero (scope : Scope) (o : Nat) : Derives scope .primary (.number ⟨.number, "0", o⟩) :=
  .number rfl

lemma ambiguous_function (h : (scope.function? "abs").isSome) :
    Ambiguous scope "abs(0)" "|0|" := by
  have hcall : IsTree scope "abs(0)" (.call ⟨.identifier, "abs", 0⟩ ⟨.opening, "(", 3⟩
      (.number ⟨.number, "0", 4⟩) ⟨.closing, ")", 5⟩) := by
    have hzero := (derives_zero scope 4).loosen (q := .expression) (by decide)
    exact ⟨by cbv, .loosen (.call rfl h rfl rfl rfl rfl hzero) (by decide)⟩
  have hbars : IsTree scope "|0|" (.bars ⟨.operator, "|", 0⟩ (.number ⟨.number, "0", 1⟩)
      ⟨.operator, "|", 2⟩) :=
    ⟨by cbv, (derives_bars (derives_zero scope 1)).loosen (by decide)⟩
  exact ⟨_, _, hcall.parse, hbars.parse, rfl, by decide⟩

lemma ambiguous_variable (h : (scope.value? "abs").isSome) (hfunction : scope.function? "abs" = none) :
    Ambiguous scope "|0|+abs" "0+|abs|" := by
  have hname (o : Nat) : Derives scope .primary (.name ⟨.identifier, "abs", o⟩) :=
    .name rfl hfunction h
  have hleft : IsTree scope "|0|+abs" (.binary (.bars ⟨.operator, "|", 0⟩
      (.number ⟨.number, "0", 1⟩) ⟨.operator, "|", 2⟩) ⟨.operator, "+", 3⟩
      (.name ⟨.identifier, "abs", 4⟩)) :=
    ⟨by cbv, .sum ((derives_bars (derives_zero scope 1)).loosen (by decide)) ⟨rfl, by simp⟩
      ((hname 4).loosen (by decide))⟩
  have hright : IsTree scope "0+|abs|" (.binary (.number ⟨.number, "0", 0⟩) ⟨.operator, "+", 1⟩
      (.bars ⟨.operator, "|", 2⟩ (.name ⟨.identifier, "abs", 3⟩) ⟨.operator, "|", 6⟩)) :=
    ⟨by cbv, .sum ((derives_zero scope 0).loosen (by decide)) ⟨rfl, by simp⟩
      ((derives_bars (hname 3)).loosen (by decide))⟩
  exact ⟨_, _, hleft.parse, hright.parse, rfl, by decide⟩

lemma exists_ambiguous (h : scope.nameCategory? "abs" ≠ none) :
    ∃ source source', Ambiguous scope source source' := by
  by_cases hfunction : scope.function? "abs" = none
  · by_cases hvalue : scope.value? "abs" = none
    · simp [Scope.nameCategory?, hfunction, hvalue] at h
    · exact ⟨_, _, ambiguous_variable (Option.isSome_iff_ne_none.mpr hvalue) hfunction⟩
  · exact ⟨_, _, ambiguous_function (Option.isSome_iff_ne_none.mpr hfunction)⟩

end Ambiguous

theorem postfixText_faithful_iff (scope : Scope) : scope.nameCategory? "abs" = none ↔
    ∀ source source' e e', (parse scope source).result = .ok e →
      (parse scope source').result = .ok e' → e.postfixText = e'.postfixText →
      e.postfixTokens.map Token.kind = e'.postfixTokens.map Token.kind ∧
        ∀ s, (e.calculate s).result.mapError EvalError.unplaced =
          (e'.calculate s).result.mapError EvalError.unplaced := by
  constructor
  · intro hfree source source' e e' he he' htext
    have hkinds := kinds_of_postfixText (legible_of_parse he hfree) (legible_of_parse he' hfree) htext
    exact ⟨hkinds, fun s => replay_of_kinds hkinds⟩
  · intro hfaithful
    by_contra hbound
    obtain ⟨source, source', e, e', he, he', htext, hkinds⟩ := exists_ambiguous hbound
    exact hkinds (hfaithful source source' e e' he he' htext).1

theorem postfixText_ambiguous :
    ∃ (values : VariableTable) (functions : FunctionTable) (e e' : Expression),
      (parse (.ofTables values functions) "abs(x)").result = .ok e ∧
        (parse (.ofTables values functions) "|x|").result = .ok e' ∧
        e.postfixText = e'.postfixText ∧
        e.postfixTokens.map Token.kind ≠ e'.postfixTokens.map Token.kind ∧
        (e.calculate (.ofTables values functions)).result =
          .error (.atToken (.domain "abs" "always fails") ⟨"abs(x)", 0⟩) ∧
        ∃ x, (e'.calculate (.ofTables values functions)).result = .ok x := by
  refine ⟨Table.empty.insert "x" 1 (by decide),
    Table.empty.insert "abs" (fun _ => .error ⟨"always fails"⟩) (by decide),
    ⟨"abs(x)", [⟨.functionName, "abs", 0⟩, ⟨.opening, "(", 3⟩, ⟨.variableName, "x", 4⟩,
      ⟨.closing, ")", 5⟩], [⟨.variableName, "x", 4⟩, ⟨.functionName, "abs", 0⟩]⟩,
    ⟨"|x|", [⟨.opening, "|", 0⟩, ⟨.variableName, "x", 1⟩, ⟨.closing, "|", 2⟩],
      [⟨.variableName, "x", 1⟩, ⟨.unary, "abs", 2⟩]⟩, ?_, ?_, rfl, by decide, rfl, Float.abs 1, rfl⟩
  · cbv
  · cbv

end Expression

end Reckoner
