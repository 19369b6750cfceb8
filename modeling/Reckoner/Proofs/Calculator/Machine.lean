import Mathlib.Data.Finmap
import Mathlib.Data.Finset.Sort
import Mathlib.Data.String.Basic
import Reckoner.Proofs.Scope.Agreement

/-! The calculator without its tables: two finite maps and a list of expressions. A calculator
and its machine answer every command alike and stay in step over every run. -/

namespace Reckoner

namespace Table

variable {α : Type} {t : Table α} {name : String} {value : α}

def toFinmap (t : Table α) : Finmap fun _ : String => α :=
  (t.entries.map fun e => (⟨e.1, e.2⟩ : Sigma fun _ => α)).toFinmap

@[simp]
lemma lookup_toFinmap (t : Table α) (name : String) : t.toFinmap.lookup name = t.get? name := by
  rw [toFinmap, Finmap.dlookup_list_toFinmap, get?]
  induction t.entries with
  | nil => rfl
  | cons e es ih =>
    obtain ⟨key, value⟩ := e
    by_cases h : name = key
    · subst h
      simp
    · rw [List.map_cons, List.dlookup_cons_ne _ _ h, ih, List.lookup_cons, beq_false_of_ne h]

@[simp]
lemma toFinmap_insert (h : Lexeme.isIdentifier name) :
    (t.insert name value h).toFinmap = t.toFinmap.insert name value := by
  refine Finmap.ext_lookup fun other => ?_
  by_cases hother : other = name
  · subst hother
    simp [get?_insert]
  · simp [hother, get?_insert, Finmap.lookup_insert_of_ne]

@[simp]
lemma toFinmap_erase : (t.erase name).toFinmap = t.toFinmap.erase name := by
  refine Finmap.ext_lookup fun other => ?_
  by_cases hother : other = name
  · subst hother
    simp [get?_erase]
  · simp [hother, get?_erase, Finmap.lookup_erase_ne]

lemma sort_keys_toFinmap (t : Table α) : t.toFinmap.keys.sort = t.names := by
  have hkeys : t.toFinmap.keys = t.names.toFinset := by
    ext name
    rw [Finmap.mem_keys, ← Finmap.lookup_isSome, lookup_toFinmap, List.mem_toFinset, mem_names]
  rw [hkeys, List.toFinset_sort (· ≤ ·) (t.pairwise_names.imp ne_of_lt)]
  exact t.pairwise_names.imp le_of_lt

/-- What a function makes of each entry of a map, in the order of the names. -/
def inOrder {β : Type} (map : Finmap fun _ : String => α) (f : String → α → β) : List β :=
  map.keys.sort.filterMap fun name => (map.lookup name).map (f name)

lemma inOrder_toFinmap {β : Type} (t : Table α) (f : String → α → β) :
    inOrder t.toFinmap f = t.entries.map fun e => f e.1 e.2 := by
  rw [inOrder, sort_keys_toFinmap, names, List.filterMap_map, ← List.filterMap_eq_map]
  refine List.filterMap_congr fun e he => ?_
  have hget : t.get? e.1 = some e.2 := get?_eq_some.mpr he
  simp [hget]

lemma toFinmap_inj {t u : Table α} (h : t.toFinmap = u.toFinmap) : t = u := by
  have hentries := congrArg (inOrder · Prod.mk) h
  simp only [inOrder_toFinmap, Prod.mk.eta, List.map_id'] at hentries
  cases t
  cases u
  cases hentries
  rfl

lemma ext_get? {t u : Table α} (h : ∀ name, t.get? name = u.get? name) : t = u :=
  toFinmap_inj (Finmap.ext_lookup fun name => by simpa using h name)

end Table

namespace Calculator

@[ext]
structure Machine where
  values : Finmap fun _ : String => Float
  functions : Finmap fun _ : String => UnaryFunction
  expressions : List Expression

namespace Machine

def scope (m : Machine) : Scope := ⟨m.values.lookup, m.functions.lookup⟩

/-- What an expression comes to with the maps as they are now. -/
def outcome (m : Machine) (e : Expression) : Except Error Float :=
  (e.calculate m.scope).result.mapError .eval

def paragraph (title placeholder : String) (lines : List String) : String :=
  title ++ if lines.isEmpty then placeholder else String.join lines

def listing (m : Machine) : String :=
  paragraph "=== VARIABLES ===\n" "No variables added.\n"
    (Table.inOrder m.values fun name x => name ++ " = " ++ Numeral.display x ++ "\n") ++ "\n" ++
  paragraph "=== FUNCTIONS ===\n" "No functions added.\n"
    (Table.inOrder m.functions fun name _ => name ++ "(x)\n") ++ "\n" ++
  paragraph "=== EXPRESSIONS ===\n" "No expressions added.\n"
    (m.expressions.mapIdx fun i e => expressionLine e (i + 1))

def step (m : Machine) : Command → Except Error Answer × Machine
  | .addVariable name value =>
    if Lexeme.isIdentifier name then (.ok .done, { m with values := m.values.insert name value })
    else (.error (.binding (.invalidName name)), m)
  | .removeVariable name =>
    match m.values.lookup name with
    | some value => (.ok (.value value), { m with values := m.values.erase name })
    | none => (.error (.binding (.unknownVariable name)), m)
  | .addFunction name function =>
    if ¬ Lexeme.isIdentifier name then (.error (.binding (.invalidName name)), m)
    else if name ∈ m.functions then (.error (.binding (.functionAlreadyDefined name)), m)
    else (.ok .done, { m with functions := m.functions.insert name function })
  | .addExpression source =>
    match (Expression.parse m.scope source).result with
    | .ok e => (.ok (.index m.expressions.length), { m with expressions := m.expressions ++ [e] })
    | .error error => (.error (.parse error), m)
  | .removeExpression i =>
    if h : i < m.expressions.length then
      (.ok (.expression m.expressions[i]), { m with expressions := m.expressions.eraseIdx i })
    else (.error (.indexOutOfRange i m.expressions.length), m)
  | .calculate i =>
    if h : i < m.expressions.length then ((m.outcome m.expressions[i]).map .value, m)
    else (.error (.indexOutOfRange i m.expressions.length), m)
  | .calculateAll => (.ok (.results (m.expressions.map m.outcome)), m)
  | .list => (.ok (.text m.listing), m)

def run (m : Machine) : List Command → List (Except Error Answer) × Machine
  | [] => ([], m)
  | command :: commands =>
    let (answer, next) := m.step command
    let (answers, last) := next.run commands
    (answer :: answers, last)

end Machine

variable (c : Calculator)

@[simps]
def machine : Machine := ⟨c.variableTable.toFinmap, c.functionTable.toFinmap, c.expressions⟩

@[simp]
lemma scope_machine : c.machine.scope = c.scope := by
  simp [Machine.scope, scope, Scope.ofTables]

lemma machine_injective : Function.Injective machine := by
  intro c d h
  obtain ⟨hvalues, hfunctions, hexpressions⟩ := Machine.mk.inj h
  cases c
  cases d
  congr
  · exact Table.toFinmap_inj hvalues
  · exact Table.toFinmap_inj hfunctions

lemma listing_machine : c.machine.listing = c.listing := by
  have hfunctions : c.functionTable.names.map (· ++ "(x)\n") =
      c.functionTable.entries.map fun e => e.1 ++ "(x)\n" := by
    simp only [Table.names, List.map_map, Function.comp_def]
  have hexpressions : (c.expressions.zipIdx 1).map (fun e => expressionLine e.1 e.2) =
      c.expressions.mapIdx fun i e => expressionLine e (i + 1) := by
    simp only [List.mapIdx_eq_zipIdx_map, List.zipIdx_succ, List.map_map, Function.comp_def]
  have hempty : (c.expressions.mapIdx fun i e => expressionLine e (i + 1)).isEmpty =
      c.expressions.isEmpty := by
    rw [Bool.eq_iff_iff, List.isEmpty_iff, List.mapIdx_eq_nil_iff, List.isEmpty_iff]
  unfold listing variablesListing functionsListing expressionsListing
  simp only [Machine.listing, Machine.paragraph, machine, Table.inOrder_toFinmap, VariableTable.listing,
    FunctionTable.listing, List.isEmpty_map, hfunctions, hexpressions, hempty]

lemma expression_eq_error {i : Nat} (h : ¬ i < c.expressions.length) :
    c.expression i = .error (.indexOutOfRange i c.expressions.length) := by
  rw [expression, List.getElem?_eq_none (Nat.le_of_not_lt h)]

lemma result_calculateAll :
    c.calculateAll.result = .ok (c.expressions.map c.machine.outcome) := by
  rw [calculateAll, Logged.result_mapM_attempt]
  congr 1
  refine List.ext_getElem (by simp) fun i hi _ => ?_
  have hi : i < c.expressions.length := by simpa using hi
  simp [result_calculate (List.getElem?_eq_getElem hi), Machine.outcome]

section Step

variable {c} {command : Command} {a : Answer} {d : Calculator} {error : Error}

lemma step_ok (h : (c.perform command).result = .ok (a, d)) :
    ((c.step command).1.result, (c.step command).2.machine) = (.ok a, d.machine) := by
  simp [step, h, Except.map]

lemma step_error (h : (c.perform command).result = .error error) :
    ((c.step command).1.result, (c.step command).2.machine) = (.error error, c.machine) := by
  simp [step, h, Except.map]

end Step

/-- The machine of a calculator does with the command what the calculator does. -/
def InStep (command : Command) : Prop :=
  c.machine.step command = ((c.step command).1.result, (c.step command).2.machine)

lemma inStep_addVariable (name : String) (value : Float) :
    c.InStep (.addVariable name value) := by
  by_cases hname : Lexeme.isIdentifier name
  · have h : (c.perform (.addVariable name value)).result =
        .ok (.done, { c with variableTable := c.variableTable.insert name value hname }) := by
      simp [perform, addVariable, VariableTable.add, hname, Except.map]
    rw [InStep, step_ok h]
    simp [Machine.step, machine, hname]
  · have h : (c.perform (.addVariable name value)).result =
        .error (.binding (.invalidName name)) := by
      simp [perform, addVariable, VariableTable.add, hname, Except.map]
    rw [InStep, step_error h]
    simp [Machine.step, hname]

lemma inStep_removeVariable (name : String) : c.InStep (.removeVariable name) := by
  cases hvalue : c.variableTable.get? name with
  | some value =>
    have h : (c.perform (.removeVariable name)).result =
        .ok (.value value, { c with variableTable := c.variableTable.erase name }) := by
      simp [perform, removeVariable, VariableTable.remove, hvalue, Except.map]
    rw [InStep, step_ok h]
    simp [Machine.step, machine, hvalue]
  | none =>
    have h : (c.perform (.removeVariable name)).result =
        .error (.binding (.unknownVariable name)) := by
      simp [perform, removeVariable, VariableTable.remove, hvalue, Except.map]
    rw [InStep, step_error h]
    simp [Machine.step, hvalue]

lemma inStep_addFunction (name : String) (function : UnaryFunction) :
    c.InStep (.addFunction name function) := by
  by_cases hname : Lexeme.isIdentifier name
  · cases hbound : c.functionTable.get? name with
    | some bound =>
      have h : (c.perform (.addFunction name function)).result =
          .error (.binding (.functionAlreadyDefined name)) := by
        simp [perform, addFunction, FunctionTable.add, Table.contains, hname, hbound, Except.map]
      rw [InStep, step_error h]
      simp [Machine.step, hname, ← Finmap.lookup_isSome, hbound]
    | none =>
      have h : (c.perform (.addFunction name function)).result = .ok (.done,
          { c with functionTable := c.functionTable.insert name function hname }) := by
        simp [perform, addFunction, FunctionTable.add, Table.contains, hname, hbound, Except.map]
      rw [InStep, step_ok h]
      simp [Machine.step, machine, hname, ← Finmap.lookup_isSome, hbound]
  · have h : (c.perform (.addFunction name function)).result =
        .error (.binding (.invalidName name)) := by
      simp [perform, addFunction, FunctionTable.add, hname, Except.map]
    rw [InStep, step_error h]
    simp [Machine.step, hname]

lemma inStep_addExpression (source : String) : c.InStep (.addExpression source) := by
  cases hread : (Expression.parse c.scope source).result with
  | ok e =>
    have h : (c.perform (.addExpression source)).result =
        .ok (.index c.expressions.length, { c with expressions := c.expressions ++ [e] }) := by
      simp [perform, addExpression, hread, Except.map]
    rw [InStep, step_ok h]
    simp [Machine.step, hread, Machine.ext_iff]
  | error fault =>
    have h : (c.perform (.addExpression source)).result = .error (.parse fault) := by
      simp [perform, addExpression, hread, Except.map]
    rw [InStep, step_error h]
    simp [Machine.step, hread]

lemma inStep_removeExpression (i : Nat) : c.InStep (.removeExpression i) := by
  by_cases hi : i < c.expressions.length
  · have h : (c.perform (.removeExpression i)).result =
        .ok (.expression c.expressions[i], { c with expressions := c.expressions.eraseIdx i }) := by
      simp [perform, removeExpression, expression, hi, Except.map]
    rw [InStep, step_ok h]
    simp [Machine.step, machine, hi]
  · have h : (c.perform (.removeExpression i)).result =
        .error (.indexOutOfRange i c.expressions.length) := by
      simp [perform, removeExpression, expression_eq_error c hi, Except.map]
    rw [InStep, step_error h]
    simp [Machine.step, hi]

lemma inStep_calculate (i : Nat) : c.InStep (.calculate i) := by
  by_cases hi : i < c.expressions.length
  · have hresult : (c.calculate i).result = c.machine.outcome c.expressions[i] := by
      rw [result_calculate (List.getElem?_eq_getElem hi), Machine.outcome, scope_machine]
    cases houtcome : c.machine.outcome c.expressions[i] with
    | ok x =>
      have h : (c.perform (.calculate i)).result = .ok (.value x, c) := by
        simp [perform, hresult, houtcome, Except.map]
      rw [InStep, step_ok h]
      simp [Machine.step, hi, houtcome, Except.map]
    | error fault =>
      have h : (c.perform (.calculate i)).result = .error fault := by
        simp [perform, hresult, houtcome, Except.map]
      rw [InStep, step_error h]
      simp [Machine.step, hi, houtcome, Except.map]
  · have h : (c.perform (.calculate i)).result =
        .error (.indexOutOfRange i c.expressions.length) := by
      simp [perform, calculate, expression_eq_error c hi, Except.map]
    rw [InStep, step_error h]
    simp [Machine.step, hi]

lemma inStep_calculateAll : c.InStep .calculateAll := by
  have h : (c.perform .calculateAll).result =
      .ok (.results (c.expressions.map c.machine.outcome), c) := by
    simp [perform, result_calculateAll, Except.map]
  rw [InStep, step_ok h]
  rfl

lemma inStep_list : c.InStep .list := by
  have h : (c.perform .list).result = .ok (.text c.listing, c) := rfl
  rw [InStep, step_ok h, ← listing_machine]
  rfl

lemma inStep (command : Command) : c.InStep command := by
  cases command with
  | addVariable name value => exact inStep_addVariable c name value
  | removeVariable name => exact inStep_removeVariable c name
  | addFunction name function => exact inStep_addFunction c name function
  | addExpression source => exact inStep_addExpression c source
  | removeExpression i => exact inStep_removeExpression c i
  | calculate i => exact inStep_calculate c i
  | calculateAll => exact inStep_calculateAll c
  | list => exact inStep_list c

lemma run_machine (commands : List Command) :
    c.machine.run commands = ((c.run commands).1.map Logged.result, (c.run commands).2.machine) := by
  induction commands generalizing c with
  | nil => rfl
  | cons command commands ih =>
    have hstep : c.machine.step command = _ := c.inStep command
    simp only [Machine.run, hstep, ih, run, List.map_cons]

theorem run_refines (values : VariableTable) (functions : FunctionTable) (commands : List Command) :
    Machine.run ⟨values.toFinmap, functions.toFinmap, []⟩ commands =
        (((ofTables values functions).run commands).1.map Logged.result,
          ((ofTables values functions).run commands).2.machine) ∧
      Function.Injective machine ∧
      ∀ (c : Calculator) (command : Command) (error : Error),
        (c.step command).1.result = .error error → (c.step command).2 = c :=
  ⟨run_machine (ofTables values functions) commands, machine_injective,
    fun _ _ _ => step_refused⟩

end Calculator

end Reckoner
