import Reckoner.Proofs.Calculator.Step
import Reckoner.Proofs.Evaluation.Faults

/-! Why the calculation of a stored expression fails. What an expression names is bound when
the expression is added. Afterwards no function is given up, and a variable only by its
removal. -/

namespace Reckoner

lemma Table.isSome_get?_insert {α : Type} {t : Table α} {name other : String} {value : α}
    (h : Lexeme.isIdentifier name) (hbound : (t.get? other).isSome) :
    ((t.insert name value h).get? other).isSome := by
  rw [get?_insert]
  split_ifs
  · rfl
  · exact hbound

lemma Scope.Binds.mono {scope scope' : Scope} {t : Token} (h : scope.Binds t)
    (hvalue : t.category = .variableName → (scope.value? t.text).isSome →
      (scope'.value? t.text).isSome)
    (hfunction : t.category = .functionName → (scope.function? t.text).isSome →
      (scope'.function? t.text).isSome) : scope'.Binds t := by
  unfold Scope.Binds at h ⊢
  split <;> simp_all

namespace Calculator

variable {c d : Calculator} {command : Command} {commands : List Command} {e : Expression}

lemma Change.binds {t : Token} (h : c.Change command d) (ht : c.scope.Binds t)
    (hkept : t.category = .variableName → ∀ name, command ≠ .removeVariable name) :
    d.scope.Binds t := by
  cases h with
  | variableAdded hname => exact ht.mono (fun _ => Table.isSome_get?_insert hname) fun _ hf => hf
  | variableRemoved => exact ht.mono (fun hc => absurd rfl (hkept hc _)) fun _ hf => hf
  | functionAdded hname => exact ht.mono (fun _ hv => hv) fun _ => Table.isSome_get?_insert hname
  | expressionAdded | expressionRemoved => exact ht

lemma Change.mem_expressions (h : c.Change command d) (he : e ∈ d.expressions) :
    e ∈ c.expressions ∨ ∃ source, (Expression.parse d.scope source).result = .ok e := by
  cases h with
  | variableAdded | variableRemoved | functionAdded => exact .inl he
  | expressionAdded hparse =>
    rcases List.mem_append.mp he with he | he
    · exact .inl he
    · obtain rfl := List.mem_singleton.mp he
      exact .inr ⟨_, hparse⟩
  | expressionRemoved => exact .inl (List.mem_of_mem_eraseIdx he)

/-- Every expression has been read, and the tokens of some categories in it name what is bound
in the calculator. -/
def Serves (p : Category → Prop) (c : Calculator) : Prop :=
  ∀ e ∈ c.expressions, (∃ scope source, (Expression.parse scope source).result = .ok e) ∧
    ∀ t ∈ e.infixTokens, p t.category → c.scope.Binds t

lemma Serves.change {p : Category → Prop} (hc : c.Serves p) (h : c.Change command d)
    (hkept : p .variableName → ∀ name, command ≠ .removeVariable name) : d.Serves p := by
  intro e he
  rcases h.mem_expressions he with he | ⟨source, hparse⟩
  · obtain ⟨hread, hbinds⟩ := hc e he
    refine ⟨hread, fun t ht hp => h.binds (hbinds t ht hp) fun hvariable => ?_⟩
    exact hkept (hvariable ▸ hp)
  · exact ⟨⟨_, _, hparse⟩, fun t ht _ => Expression.binds_of_parse hparse t ht⟩

lemma Serves.run (hc : c.Serves (· = .functionName)) (commands : List Command) :
    (c.run commands).2.Serves (· = .functionName) :=
  run_kept (Q := fun _ => True) (fun h _ hc => hc.change h nofun) hc fun _ _ _ _ => trivial

lemma serves_functions (values : VariableTable) (functions : FunctionTable)
    (commands : List Command) :
    ((ofTables values functions).run commands).2.Serves (· = .functionName) :=
  Serves.run (c := ofTables values functions) nofun commands

lemma serves_all {values : VariableTable} {functions : FunctionTable}
    (h : ∀ name answer, (.removeVariable name, answer) ∈
      commands.zip ((ofTables values functions).run commands).1 → ∀ a, answer.result ≠ .ok a) :
    ((ofTables values functions).run commands).2.Serves fun _ => True := by
  refine run_kept (Q := fun command => ∀ name, command ≠ .removeVariable name)
    (fun h hcommand hc => hc.change h fun _ => hcommand) nofun ?_
  rintro _ answer hmem ⟨a, ha⟩ name rfl
  exact h name answer hmem a ha

lemma calculate_eq {i : Nat} (h : c.expressions[i]? = some e) :
    c.calculate i = (e.calculate c.scope).mapError .eval := by
  rw [calculate, expression_eq_ok.mpr h]
  exact Logged.pure_bind e _

lemma result_calculate {i : Nat} (h : c.expressions[i]? = some e) :
    (c.calculate i).result = (e.calculate c.scope).result.mapError .eval := by
  rw [calculate_eq h, Logged.result_mapError]

lemma Serves.not_unbound {p : Category → Prop} (hc : c.Serves p) (he : e ∈ c.expressions)
    {fault : EvalError} (h : e.Faults c.scope fault) :
    (p .functionName → ∀ name o, fault ≠ .atToken (.unknownFunction name) o) ∧
      (p .variableName → ∀ name o, fault ≠ .atToken (.unknownVariable name) o) := by
  constructor
  · rintro hp name o rfl
    cases h with
    | unboundFunction ht hnone =>
      have hbound := (hc e he).2 _ ht hp
      simp [Scope.Binds, hnone] at hbound
  · rintro hp name o rfl
    cases h with
    | unboundVariable ht hnone =>
      have hbound := (hc e he).2 _ ht hp
      simp [Scope.Binds, hnone] at hbound

theorem calculate_live (values : VariableTable) (functions : FunctionTable)
    {answers : List (Logged Error Answer)}
    (h : (ofTables values functions).run commands = (answers, c)) {i : Nat}
    (hi : i < c.expressions.length) :
    (∃ x, (c.calculate i).result = .ok x) ∨
      ∃ fault, (c.calculate i).result = .error (.eval fault) ∧
        c.expressions[i].Faults c.scope fault ∧
        (∀ name p, fault ≠ .atToken (.unknownFunction name) p) ∧
        ((∀ name answer, (.removeVariable name, answer) ∈ commands.zip answers →
            ∀ a, answer.result ≠ .ok a) →
          ∀ name p, fault ≠ .atToken (.unknownVariable name) p) := by
  obtain ⟨rfl, rfl⟩ := Prod.mk.inj h
  set c := ((ofTables values functions).run commands).2
  have hmem := List.getElem_mem hi
  have hfunctions := serves_functions values functions commands
  rw [result_calculate (List.getElem?_eq_getElem hi)]
  cases hfault : (c.expressions[i].calculate c.scope).result with
  | ok x => exact .inl ⟨x, rfl⟩
  | error fault =>
    obtain ⟨⟨bound, source, hread⟩, -⟩ := hfunctions _ hmem
    have hfaults := Expression.faults_of_calculate hread hfault
    refine .inr ⟨fault, rfl, hfaults, (hfunctions.not_unbound hmem hfaults).1 rfl, fun hremoved => ?_⟩
    exact ((serves_all hremoved).not_unbound hmem hfaults).2 trivial

theorem calculate_live_kept : ∃ answers c,
    (ofTables .empty .empty).run [.addVariable "x" 0, .removeVariable "y", .addExpression "1/x"] =
        (answers, c) ∧
      0 < c.expressions.length ∧
      ∀ name p, (c.calculate 0).result ≠ .error (.eval (.atToken (.unknownVariable name) p)) := by
  have hlength : 0 < ((ofTables .empty .empty).run [.addVariable "x" 0, .removeVariable "y",
      .addExpression "1/x"]).2.expressions.length := by
    cbv
  have hrefused : (((ofTables .empty .empty).step (.addVariable "x" 0)).2.step
      (.removeVariable "y")).1.result = .error (.binding (.unknownVariable "y")) := by
    cbv
  refine ⟨_, _, rfl, hlength, fun name p hresult => ?_⟩
  rcases calculate_live .empty .empty rfl hlength with ⟨x, hx⟩ | ⟨fault, hfault, -, -, hkept⟩
  · cases hx.symm.trans hresult
  · obtain rfl := Error.eval.inj (Except.error.inj (hfault.symm.trans hresult))
    refine hkept (fun removed answer hmem a ha => ?_) name p rfl
    obtain ⟨rfl, rfl⟩ : removed = "y" ∧ answer = _ := by simpa [run] using hmem
    cases ha.symm.trans hrefused

end Calculator

end Reckoner
