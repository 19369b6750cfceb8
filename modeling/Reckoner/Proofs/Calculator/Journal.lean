import Reckoner.Proofs.Calculator.Step
import Reckoner.Proofs.Journal.Reading

/-! What the commands of a calculator leave in a journal without traces: nothing if they fail or
only read, and otherwise one record, with one of the expression in front of it if one is added. -/

namespace Reckoner

namespace Expression

variable {scope : Scope} {source : String}

lemma journal_parse {e : Expression} (h : (parse scope source).result = .ok e) :
    (parse scope source).journal .debug = [.parsed source e.postfixText] := by
  rw [Logged.journal, records_parse h, List.filter_append]
  have hquiet := (quietAt_convert scope source).journal
  rw [Logged.journal] at hquiet
  rw [hquiet]
  rfl

lemma journal_parse_error {e : ParseError} (h : (parse scope source).result = .error e) :
    (parse scope source).journal .debug = [] := by
  rw [Logged.journal, records_parse_error h]
  exact (quietAt_convert scope source).journal

end Expression

namespace Calculator

variable {c d : Calculator} {command : Command}

/-- The records of a command that succeeds. -/
inductive Enters (c : Calculator) : Command → List Record → Prop
  | variableAdded {name : String} {value : Float} :
      Enters c (.addVariable name value) [.variableAdded name value]
  | variableRemoved {name : String} : Enters c (.removeVariable name) [.variableRemoved name]
  | functionAdded {name : String} {function : UnaryFunction} :
      Enters c (.addFunction name function) [.functionAdded name]
  | expressionAdded {source : String} {e : Expression} :
      (Expression.parse c.scope source).result = .ok e →
      Enters c (.addExpression source)
        [.parsed source e.postfixText, .expressionAdded c.expressions.length source]
  | expressionRemoved {index : Nat} {e : Expression} : c.expressions[index]? = some e →
      Enters c (.removeExpression index) [.expressionRemoved index e.source]
  | reading {command : Command} : command.IsReading → Enters c command []

/-- A command that fails leaves nothing in the journal. -/
def Journals (c : Calculator) (command : Command) : Prop :=
  match (c.perform command).result with
  | .ok _ => c.Enters command ((c.perform command).journal .debug)
  | .error _ => (c.perform command).journal .debug = []

section Journals

variable (c : Calculator)

lemma journals_addVariable (name : String) (value : Float) :
    c.Journals (.addVariable name value) := by
  rw [Journals, perform, addVariable]
  cases c.variableTable.add name value with
  | error error => rfl
  | ok table => exact .variableAdded

lemma journals_removeVariable (name : String) : c.Journals (.removeVariable name) := by
  rw [Journals, perform, removeVariable]
  cases c.variableTable.remove name with
  | error error => rfl
  | ok r => exact .variableRemoved

lemma journals_addFunction (name : String) (function : UnaryFunction) :
    c.Journals (.addFunction name function) := by
  rw [Journals, perform, addFunction]
  cases c.functionTable.add name function with
  | error error => rfl
  | ok table => exact .functionAdded

lemma journals_addExpression (source : String) : c.Journals (.addExpression source) := by
  rw [Journals, perform, addExpression, Logged.journal_map, Logged.result_map, Logged.result_bind]
  cases h : (Expression.parse c.scope source).result with
  | error error =>
    have herror : ((Expression.parse c.scope source).mapError Error.parse).result =
        .error (.parse error) := by
      rw [Logged.result_mapError, h]
      rfl
    rw [Logged.journal_bind_error herror, herror]
    exact Expression.journal_parse_error h
  | ok e =>
    have hok : ((Expression.parse c.scope source).mapError Error.parse).result = .ok e := by
      rw [Logged.result_mapError, h]
      rfl
    have hparsed : ((Expression.parse c.scope source).mapError Error.parse).journal .debug =
        [.parsed source e.postfixText] :=
      Expression.journal_parse h
    rw [Logged.journal_bind_ok hok, hok, hparsed]
    exact .expressionAdded h

lemma journals_removeExpression (index : Nat) : c.Journals (.removeExpression index) := by
  rw [Journals, perform, removeExpression, expression]
  cases h : c.expressions[index]? with
  | none => rfl
  | some e => exact .expressionRemoved h

lemma journals_reading {command : Command} (h : (c.perform command).QuietAt .debug)
    (hreading : command.IsReading) : c.Journals command := by
  rw [Journals, h.journal]
  cases (c.perform command).result with
  | error error => rfl
  | ok r => exact .reading hreading

end Journals

lemma journals (c : Calculator) (command : Command) : c.Journals command := by
  cases command with
  | addVariable name value => exact c.journals_addVariable name value
  | removeVariable name => exact c.journals_removeVariable name
  | addFunction name function => exact c.journals_addFunction name function
  | addExpression source => exact c.journals_addExpression source
  | removeExpression index => exact c.journals_removeExpression index
  | calculate index => exact c.journals_reading ((c.quietAt_calculate index).map _) trivial
  | calculateAll => exact c.journals_reading (c.quietAt_calculateAll.map _) trivial
  | list => exact .reading trivial

lemma journal_step (c : Calculator) (command : Command) :
    (c.step command).1.journal .debug = (c.perform command).journal .debug :=
  Logged.journal_map _ _

theorem enters_of_step {a : Answer} (h : (c.step command).1.result = .ok a) :
    c.Enters command ((c.step command).1.journal .debug) := by
  have hjournals := c.journals command
  obtain ⟨r, hr, -⟩ := Outcome.map_eq_ok.mp ((Logged.result_map _ _).symm.trans h)
  rw [Journals, hr] at hjournals
  rwa [journal_step]

theorem journal_of_refused {error : Error} (h : (c.step command).1.result = .error error) :
    (c.step command).1.journal .debug = [] := by
  have hjournals := c.journals command
  have herror := Outcome.map_eq_error.mp ((Logged.result_map _ _).symm.trans h)
  rw [Journals, herror] at hjournals
  rwa [journal_step]

end Calculator

end Reckoner
