import Mathlib.Logic.Basic
import Mathlib.Tactic.SplitIfs
import Reckoner.Calculator.Command
import Reckoner.Proofs.Journal.Outcome

/-! What a command makes of a calculator, and what a run keeps. A command that fails or only
reads leaves the calculator as it was, so what every change keeps is kept by a run. -/

namespace Reckoner

lemma VariableTable.add_eq_ok {t u : VariableTable} {name : String} {value : Float} :
    t.add name value = .ok u ↔ ∃ h, t.insert name value h = u := by
  unfold add
  split_ifs with h <;> simp [h]

lemma VariableTable.remove_eq_ok {t u : VariableTable} {name : String} {value : Float} :
    t.remove name = .ok (value, u) ↔ t.get? name = some value ∧ t.erase name = u := by
  unfold remove
  split <;> simp [*]

lemma FunctionTable.add_eq_ok {t u : FunctionTable} {name : String} {function : UnaryFunction} :
    t.add name function = .ok u ↔
      ∃ h, t.get? name = none ∧ t.insert name function h = u := by
  unfold add Table.contains
  split_ifs with h hbound
  · simp [Option.isSome_iff_ne_none.mp hbound]
  · simp [h, Option.not_isSome_iff_eq_none.mp hbound]
  · simp [h]

namespace Calculator

variable {c d : Calculator} {command : Command} {commands : List Command}

def Command.IsReading : Command → Prop
  | .calculate _ | .calculateAll | .list => True
  | _ => False

/-- The calculator that a command leaves when it succeeds and does not only read. -/
inductive Change (c : Calculator) : Command → Calculator → Prop
  | variableAdded {name : String} {value : Float} (h : Lexeme.isIdentifier name) :
      Change c (.addVariable name value)
        { c with variableTable := c.variableTable.insert name value h }
  | variableRemoved {name : String} {value : Float} : c.variableTable.get? name = some value →
      Change c (.removeVariable name) { c with variableTable := c.variableTable.erase name }
  | functionAdded {name : String} {function : UnaryFunction} (h : Lexeme.isIdentifier name) :
      c.functionTable.get? name = none →
      Change c (.addFunction name function)
        { c with functionTable := c.functionTable.insert name function h }
  | expressionAdded {source : String} {e : Expression} :
      (Expression.parse c.scope source).result = .ok e →
      Change c (.addExpression source) { c with expressions := c.expressions ++ [e] }
  | expressionRemoved {index : Nat} {e : Expression} : c.expressions[index]? = some e →
      Change c (.removeExpression index) { c with expressions := c.expressions.eraseIdx index }

lemma expression_eq_ok {index : Nat} {e : Expression} :
    c.expression index = .ok e ↔ c.expressions[index]? = some e := by
  unfold expression
  split <;> simp [*]

lemma addVariable_eq_ok {name : String} {value : Float} :
    (c.addVariable name value).result = .ok d ↔
      ∃ h, { c with variableTable := c.variableTable.insert name value h } = d := by
  simp [addVariable, VariableTable.add_eq_ok]

lemma removeVariable_eq_ok {name : String} {value : Float} :
    (c.removeVariable name).result = .ok (value, d) ↔ c.variableTable.get? name = some value ∧
      { c with variableTable := c.variableTable.erase name } = d := by
  simp [removeVariable, VariableTable.remove_eq_ok, and_assoc, and_left_comm]

lemma addFunction_eq_ok {name : String} {function : UnaryFunction} :
    (c.addFunction name function).result = .ok d ↔ ∃ h, c.functionTable.get? name = none ∧
      { c with functionTable := c.functionTable.insert name function h } = d := by
  simp [addFunction, FunctionTable.add_eq_ok, and_assoc]

lemma addExpression_eq_ok {source : String} {index : Nat} :
    (c.addExpression source).result = .ok (index, d) ↔ c.expressions.length = index ∧
      ∃ e, (Expression.parse c.scope source).result = .ok e ∧
        { c with expressions := c.expressions ++ [e] } = d := by
  simp [addExpression, and_left_comm]

lemma removeExpression_eq_ok {index : Nat} {e : Expression} :
    (c.removeExpression index).result = .ok (e, d) ↔ c.expressions[index]? = some e ∧
      { c with expressions := c.expressions.eraseIdx index } = d := by
  simp [removeExpression, expression_eq_ok, and_left_comm]

lemma change_of_perform {a : Answer} (h : (c.perform command).result = .ok (a, d)) :
    command.IsReading ∧ d = c ∨ c.Change command d := by
  cases command with
  | addVariable name value =>
    obtain ⟨hadd, -⟩ : (c.addVariable name value).result = .ok d ∧ _ := by simpa [perform] using h
    obtain ⟨hname, rfl⟩ := addVariable_eq_ok.mp hadd
    exact .inr (.variableAdded hname)
  | removeVariable name =>
    obtain ⟨value, hremove, -⟩ : ∃ value, (c.removeVariable name).result = .ok (value, d) ∧ _ := by
      simpa [perform] using h
    obtain ⟨hvalue, rfl⟩ := removeVariable_eq_ok.mp hremove
    exact .inr (.variableRemoved hvalue)
  | addFunction name function =>
    obtain ⟨hadd, -⟩ : (c.addFunction name function).result = .ok d ∧ _ := by
      simpa [perform] using h
    obtain ⟨hname, hunbound, rfl⟩ := addFunction_eq_ok.mp hadd
    exact .inr (.functionAdded hname hunbound)
  | addExpression source =>
    obtain ⟨index, hadd, -⟩ : ∃ index, (c.addExpression source).result = .ok (index, d) ∧ _ := by
      simpa [perform] using h
    obtain ⟨-, e, he, rfl⟩ := addExpression_eq_ok.mp hadd
    exact .inr (.expressionAdded he)
  | removeExpression index =>
    obtain ⟨e, hremove, -⟩ : ∃ e, (c.removeExpression index).result = .ok (e, d) ∧ _ := by
      simpa [perform] using h
    obtain ⟨he, rfl⟩ := removeExpression_eq_ok.mp hremove
    exact .inr (.expressionRemoved he)
  | calculate index =>
    obtain ⟨x, -, -, rfl⟩ : ∃ x, (c.calculate index).result = .ok x ∧ _ ∧ c = d := by
      simpa [perform] using h
    exact .inl ⟨trivial, rfl⟩
  | calculateAll =>
    obtain ⟨xs, -, -, rfl⟩ : ∃ xs, c.calculateAll.result = .ok xs ∧ _ ∧ c = d := by
      simpa [perform] using h
    exact .inl ⟨trivial, rfl⟩
  | list =>
    obtain ⟨-, rfl⟩ : _ ∧ c = d := by simpa [perform] using h
    exact .inl ⟨trivial, rfl⟩

lemma step_cases (c : Calculator) (command : Command) :
    (c.step command).2 = c ∧ (command.IsReading ∨ ∀ a, (c.step command).1.result ≠ .ok a) ∨
      (∃ a, (c.step command).1.result = .ok a) ∧ c.Change command (c.step command).2 := by
  cases h : (c.perform command).result with
  | error e => exact .inl ⟨by simp [step, h], .inr (by simp [step, h])⟩
  | ok r =>
    have hnext : (c.step command).2 = r.2 := by simp [step, h]
    rw [hnext]
    rcases change_of_perform h with ⟨hreading, hsame⟩ | hchange
    · exact .inl ⟨hsame, .inl hreading⟩
    · exact .inr ⟨⟨r.1, by simp [step, h, Except.map]⟩, hchange⟩

lemma step_refused {error : Error} (h : (c.step command).1.result = .error error) :
    (c.step command).2 = c := by
  rcases step_cases c command with ⟨hsame, -⟩ | ⟨⟨a, ha⟩, -⟩
  · exact hsame
  · cases ha.symm.trans h

lemma run_kept {P : Calculator → Prop} {Q : Command → Prop}
    (hkept : ∀ {c command d}, Change c command d → Q command → P c → P d) (hc : P c)
    (hrun : ∀ command answer, (command, answer) ∈ commands.zip (c.run commands).1 →
      (∃ a, answer.result = .ok a) → Q command) : P (c.run commands).2 := by
  induction commands generalizing c with
  | nil => exact hc
  | cons command commands ih =>
    show P ((c.step command).2.run commands).2
    refine ih ?_ fun later answer hmem => hrun later answer (List.mem_cons_of_mem _ hmem)
    rcases step_cases c command with ⟨hstep, -⟩ | ⟨hanswer, hchange⟩
    -- nothing is asked of a command that fails or only reads
    · rwa [hstep]
    · exact hkept hchange (hrun command _ (List.mem_cons_self ..) hanswer) hc

end Calculator

end Reckoner
