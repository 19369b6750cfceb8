import Reckoner.Expression.Evaluate
import Reckoner.Proofs.Calculator.Live

/-! Which bindings matter. Reading a source asks only whether the identifiers in it are bound,
and calculating an expression only for what its names are bound to. How the bindings are kept
and what else is bound makes no difference. -/

namespace Reckoner

section Entries

variable {α : Type} {t : Table α} {name : String} {value : α}

lemma Table.get?_eq_some : t.get? name = some value ↔ (name, value) ∈ t.entries := by
  constructor
  · intro h
    obtain ⟨front, back, hentries, -⟩ := List.lookup_eq_some_iff.mp h
    simp [hentries]
  · intro h
    obtain ⟨front, back, hentries⟩ := List.append_of_mem h
    have hincreasing := t.increasing
    rw [hentries, List.pairwise_append] at hincreasing
    refine List.lookup_eq_some_iff.mpr ⟨front, back, hentries, fun e he => ?_⟩
    simpa using (hincreasing.2.2 e he _ (List.mem_cons_self ..)).ne'

lemma Table.get?_eq_none : t.get? name = none ↔ name ∉ t.names := by
  rw [Option.eq_none_iff_forall_ne_some, names]
  simp [Table.get?_eq_some]

lemma Table.mem_names : name ∈ t.names ↔ (t.get? name).isSome := by
  rw [← not_iff_not, ← get?_eq_none, Option.not_isSome_iff_eq_none]

lemma Table.pairwise_names (t : Table α) : t.names.Pairwise (· < ·) :=
  List.pairwise_map.mpr t.increasing

lemma Table.names_eq_iff {u : Table α} :
    t.names = u.names ↔ ∀ name, name ∈ t.names ↔ name ∈ u.names := by
  refine ⟨fun h name => by rw [h], fun h => ?_⟩
  have hperm : t.names.Perm u.names := (List.perm_ext_iff_of_nodup (t.pairwise_names.imp ne_of_lt)
    (u.pairwise_names.imp ne_of_lt)).mpr h
  exact hperm.eq_of_pairwise (fun _ _ _ _ hab hba => absurd hab hba.not_gt) t.pairwise_names
    u.pairwise_names

lemma Table.getElem?_ofList (t : Table α) (name : String) :
    (Std.HashMap.ofList t.entries)[name]? = t.get? name := by
  cases h : t.get? name with
  | none =>
    apply Std.HashMap.getElem?_ofList_of_contains_eq_false
    simpa [Table.names] using Table.get?_eq_none.mp h
  | some value =>
    apply Std.HashMap.getElem?_ofList_of_mem (beq_self_eq_true name) _ (Table.get?_eq_some.mp h)
    exact t.increasing.imp fun hlt => beq_eq_false_iff_ne.mpr hlt.ne

end Entries

namespace Scope

/-- The name is bound to a number in both scopes or in none, and so with functions. -/
def BindsAlike (scope scope' : Scope) (name : String) : Prop :=
  (scope.value? name).isSome = (scope'.value? name).isSome ∧
    (scope.function? name).isSome = (scope'.function? name).isSome

/-- The scopes have the same for what the token names. -/
def AgreesOn (scope scope' : Scope) (t : Token) : Prop :=
  match t.category with
  | .functionName => scope.function? t.text = scope'.function? t.text
  | .variableName => scope.value? t.text = scope'.value? t.text
  | _ => True

lemma AgreesOn.of_lookups {scope scope' : Scope} {t : Token}
    (hvalue : t.category = .variableName → scope.value? t.text = scope'.value? t.text)
    (hfunction : t.category = .functionName → scope.function? t.text = scope'.function? t.text) :
    scope.AgreesOn scope' t := by
  unfold AgreesOn
  split
  next hc => exact hfunction hc
  next hc => exact hvalue hc
  next => trivial

lemma AgreesOn.refl (scope : Scope) (t : Token) : scope.AgreesOn scope t :=
  .of_lookups (fun _ => rfl) fun _ => rfl

lemma AgreesOn.trans {a b c : Scope} {t : Token} (hab : a.AgreesOn b t) (hbc : b.AgreesOn c t) :
    a.AgreesOn c t := by
  unfold AgreesOn at *
  split <;> simp_all

section Maps

variable (values : Std.HashMap String Float) (functions : Std.HashMap String UnaryFunction)

@[grind =] lemma value?_ofMaps (name : String) :
    (ofMaps values functions).value? name = values[name]? :=
  rfl

@[grind =] lemma function?_ofMaps (name : String) :
    (ofMaps values functions).function? name = functions[name]? :=
  rfl

end Maps

lemma ofMaps_entries (values : VariableTable) (functions : FunctionTable) :
    ofMaps (.ofList values.entries) (.ofList functions.entries) = ofTables values functions := by
  have hvalues : (Std.HashMap.ofList values.entries).get? = values.get? :=
    funext fun name => values.getElem?_ofList name
  have hfunctions : (Std.HashMap.ofList functions.entries).get? = functions.get? :=
    funext fun name => functions.getElem?_ofList name
  rw [ofMaps, ofTables, hvalues, hfunctions]

end Scope

variable {scope scope' bound : Scope} {source : String}

section Reading

variable {t : Token}

lemma Token.classify_congr (h : t.category = .identifier → scope.BindsAlike scope' t.text)
    (previous : Category) : t.classify scope previous = t.classify scope' previous := by
  have hrole : t.role scope previous = t.role scope' previous := by
    unfold role
    split
    next hc =>
      obtain ⟨hvalue, hfunction⟩ := h hc
      rw [Scope.nameCategory?, Scope.nameCategory?, hvalue, hfunction]
    all_goals rfl
  rw [classify, classify, hrole]

lemma Conversion.foldlM_step_congr (source : String) {ts : List Token}
    (h : ∀ t ∈ ts, t.category = .identifier → scope.BindsAlike scope' t.text) (c : Conversion) :
    ts.foldlM (step scope source) c = ts.foldlM (step scope' source) c := by
  induction ts generalizing c with
  | nil => rfl
  | cons t ts ih =>
    obtain ⟨ht, hts⟩ := List.forall_mem_cons.mp h
    have hstep : step scope source c t = step scope' source c t := by
      rw [step, step, Token.classify_congr ht]
    rw [List.foldlM_cons, List.foldlM_cons, hstep]
    exact bind_congr fun d => ih hts d

lemma Expression.parse_congr (h : ∀ ts, Token.tokenize source = .ok ts →
    ∀ t ∈ ts, t.category = .identifier → scope.BindsAlike scope' t.text) :
    parse scope source = parse scope' source := by
  have hconvert : convert scope source = convert scope' source := by
    unfold convert
    cases hts : Token.tokenize source with
    | error e => rfl
    | ok ts =>
      have hfold := Conversion.foldlM_step_congr source (h ts hts) {}
      show Logged.bind _ _ = Logged.bind _ _
      simp only [Logged.bind, Logged.ofExcept, hfold]
  rw [parse, parse, hconvert]

end Reading

section Calculating

variable {e : Expression}

lemma Token.eval_congr {t : Token} (h : scope.AgreesOn scope' t) (stack : List Float) :
    t.eval scope stack = t.eval scope' stack := by
  unfold Scope.AgreesOn at h
  unfold eval
  split <;> simp_all

lemma replay_congr {ts : List Token} (h : ∀ t ∈ ts, scope.AgreesOn scope' t) :
    replay scope source ts = replay scope' source ts := by
  have hfold (stack : List Float) : ts.foldlM (Token.replayStep scope source) stack =
      ts.foldlM (Token.replayStep scope' source) stack := by
    induction ts generalizing stack with
    | nil => rfl
    | cons t ts ih =>
      obtain ⟨ht, hts⟩ := List.forall_mem_cons.mp h
      have hstep : t.replayStep scope source stack = t.replayStep scope' source stack := by
        rw [Token.replayStep, Token.replayStep, Token.eval_congr ht]
      rw [List.foldlM_cons, List.foldlM_cons, hstep]
      exact bind_congr fun rest => ih hts rest
  rw [replay, replay, hfold]

lemma Expression.calculate_congr (hread : (parse bound source).result = .ok e)
    (h : ∀ t ∈ e.infixTokens, scope.AgreesOn scope' t) : e.calculate scope = e.calculate scope' := by
  obtain ⟨t, -, rfl⟩ := exists_isTree hread
  refine replay_congr fun u hu => ?_
  rcases Tree.mem_leaves_of_mem_postorder hu with hleaf | ⟨c, rfl⟩
  · exact h u hleaf
  · exact trivial

end Calculating

lemma Calculator.result_calculate_added (c : Calculator) (source : String) :
    (c.addExpression source >>= fun r => r.2.calculate r.1).result =
      (c.scope.evaluate source).result := by
  rw [Logged.result_bind, Scope.evaluate, Logged.result_bind, Logged.result_mapError]
  cases hparse : (Expression.parse c.scope source).result with
  | error e =>
    have hadd : (c.addExpression source).result = .error (.parse e) := by
      simp [addExpression, hparse]
    rw [hadd]
    rfl
  | ok e =>
    have hlast : (c.expressions ++ [e])[c.expressions.length]? = some e := List.getElem?_concat_length
    rw [addExpression_eq_ok.mpr ⟨rfl, e, hparse, rfl⟩]
    exact result_calculate hlast

theorem Expression.names_suffice (scope scope' : Scope) :
    (∀ source, (∀ ts, Token.tokenize source = .ok ts →
        ∀ t ∈ ts, t.category = .identifier → scope.BindsAlike scope' t.text) →
      parse scope source = parse scope' source) ∧
    (∀ bound source e, (parse bound source).result = .ok e →
      (∀ t ∈ e.infixTokens, scope.AgreesOn scope' t) → e.calculate scope = e.calculate scope') ∧
    ∀ source,
      (Calculator.standard.addExpression source >>= fun r => r.2.calculate r.1).result =
        (evaluate source).result ∧
      (Scope.ofMaps (.ofList VariableTable.standard.entries)
        (.ofList FunctionTable.standard.entries)).evaluate source = evaluate source := by
  refine ⟨fun source => parse_congr, fun bound source e hread => calculate_congr hread,
    fun source => ⟨?_, ?_⟩⟩
  · exact Calculator.standard.result_calculate_added source
  · rw [Scope.ofMaps_entries]
    rfl

theorem Expression.names_suffice_maps :
    parse .standard "ln(pi)" =
      parse (.ofMaps (.ofList [("x", 1), ("pi", 3)]) (.ofList [("ln", .ok)])) "ln(pi)" := by
  have hln : Scope.standard.BindsAlike
      (.ofMaps (.ofList [("x", 1), ("pi", 3)]) (.ofList [("ln", .ok)])) "ln" := by
    have hvalue : (VariableTable.standard.get? "ln").isSome = false := by decide
    have hfunction : (FunctionTable.standard.get? "ln").isSome = true := by decide
    exact ⟨hvalue.trans (by grind), hfunction.trans (by grind)⟩
  have hpi : Scope.standard.BindsAlike
      (.ofMaps (.ofList [("x", 1), ("pi", 3)]) (.ofList [("ln", .ok)])) "pi" := by
    have hvalue : (VariableTable.standard.get? "pi").isSome = true := by decide
    have hfunction : (FunctionTable.standard.get? "pi").isSome = false := by decide
    exact ⟨hvalue.trans (by grind), hfunction.trans (by grind)⟩
  have hts : Token.tokenize "ln(pi)" = .ok [⟨.identifier, "ln", 0⟩, ⟨.opening, "(", 2⟩,
      ⟨.identifier, "pi", 3⟩, ⟨.closing, ")", 5⟩] := by
    cbv
  refine (names_suffice _ _).1 "ln(pi)" fun ts h t ht hc => ?_
  obtain rfl := Except.ok.inj (hts.symm.trans h)
  simp only [List.mem_cons, List.not_mem_nil, or_false] at ht
  rcases ht with rfl | rfl | rfl | rfl
  · exact hln
  · cases hc
  · exact hpi
  · cases hc

end Reckoner
