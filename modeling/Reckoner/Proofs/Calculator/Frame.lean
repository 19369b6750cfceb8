import Reckoner.Proofs.Scope.Agreement

/-! What later commands leave alone. An expression that is not removed moves down by the removals
below it, and its functions stay bound as they were, for a bound function is never bound again.
So its value can only change with its variables. -/

namespace Reckoner

lemma Table.isIdentifier_of_get? {α : Type} {t : Table α} {name : String}
    (h : (t.get? name).isSome) : Lexeme.isIdentifier name := by
  obtain ⟨value, hvalue⟩ := Option.isSome_iff_exists.mp h
  exact t.named _ (Table.get?_eq_some.mp hvalue)

lemma FunctionTable.add_bound {t : FunctionTable} {name : String} (h : (t.get? name).isSome)
    (function : UnaryFunction) : t.add name function = .error (.functionAlreadyDefined name) := by
  rw [add, dif_pos (Table.isIdentifier_of_get? h), Table.contains, if_pos h]

section Others

variable {α : Type} {t : Table α} {name other : String}

lemma Table.get?_insert_of_ne {value : α} (h : Lexeme.isIdentifier name) (hne : other ≠ name) :
    (t.insert name value h).get? other = t.get? other := by
  rw [get?_insert, if_neg hne]

lemma Table.get?_erase_of_ne (hne : other ≠ name) : (t.erase name).get? other = t.get? other := by
  rw [get?_erase, if_neg hne]

end Others

namespace Calculator

variable {c d : Calculator} {command : Command} {commands : List Command} {e : Expression} {i : Nat}

/-- How far an answered command moves the expression at an index down. -/
def shift (i : Nat) (command : Command) (answer : Logged Error Answer) : Nat :=
  match command, answer.result with
  | .removeExpression j, .ok _ => if j < i then 1 else 0
  | _, _ => 0

/-- The successful removals below an expression, each below the place that it has by then. -/
def removalsBelow (i : Nat) : List (Command × Logged Error Answer) → Nat
  | [] => 0
  | (command, answer) :: log =>
    shift i command answer + removalsBelow (i - shift i command answer) log

/-- The command is to remove the expression at the index, or to bind or unbind a variable in it. -/
def Command.Concerns (e : Expression) (i : Nat) : Command → Prop
  | .removeExpression j => j = i
  | .addVariable name _ | .removeVariable name =>
    ∃ t ∈ e.infixTokens, t.category = .variableName ∧ t.text = name
  | _ => False

/-- No successful command of the log concerns the expression, wherever it stands by then. -/
def Spares (e : Expression) (i : Nat) (log : List (Command × Logged Error Answer)) : Prop :=
  ∀ front command answer rest, log = front ++ (command, answer) :: rest →
    (∃ a, answer.result = .ok a) → ¬ command.Concerns e (i - removalsBelow i front)

section Log

variable {answer : Logged Error Answer} {log : List (Command × Logged Error Answer)}

lemma shift_idle (h : command.IsReading ∨ ∀ a, answer.result ≠ .ok a) :
    shift i command answer = 0 := by
  unfold shift
  split
  next hanswer => exact (h.resolve_left id _ hanswer).elim
  next => rfl

lemma sub_removalsBelow_cons : i - removalsBelow i ((command, answer) :: log) =
    i - shift i command answer - removalsBelow (i - shift i command answer) log := by
  rw [removalsBelow, Nat.sub_add_eq]

@[simp]
lemma spares_nil : Spares e i [] :=
  fun _ _ _ _ hlog => absurd hlog (by simp)

lemma spares_cons : Spares e i ((command, answer) :: log) ↔
    ((∃ a, answer.result = .ok a) → ¬ command.Concerns e i) ∧
      Spares e (i - shift i command answer) log := by
  constructor
  · refine fun h => ⟨h [] command answer log rfl, fun front later answer' rest hlog => ?_⟩
    rw [← sub_removalsBelow_cons]
    exact h ((command, answer) :: front) later answer' rest (by rw [hlog]; rfl)
  · rintro ⟨hfirst, hrest⟩ front later answer' rest hlog
    cases front with
    | nil =>
      cases hlog
      exact hfirst
    | cons first front =>
      cases hlog
      rw [sub_removalsBelow_cons]
      exact hrest front later answer' rest rfl

end Log

section Change

lemma Change.agreesOn (h : c.Change command d) (hspared : ¬ command.Concerns e i) {t : Token}
    (ht : t ∈ e.infixTokens) (hbound : t.category = .functionName → c.scope.Binds t) :
    c.scope.AgreesOn d.scope t := by
  have variable_ne {name : String} (hc : t.category = .variableName)
      (hn : ¬ ∃ u ∈ e.infixTokens, u.category = .variableName ∧ u.text = name) : t.text ≠ name :=
    fun heq => hn ⟨t, ht, hc, heq⟩
  cases h with
  | variableAdded hname =>
    refine .of_lookups (fun hc => ?_) fun _ => rfl
    exact (Table.get?_insert_of_ne hname (variable_ne hc hspared)).symm
  | variableRemoved =>
    refine .of_lookups (fun hc => ?_) fun _ => rfl
    exact (Table.get?_erase_of_ne (variable_ne hc hspared)).symm
  | functionAdded hname hunbound =>
    refine .of_lookups (fun _ => rfl) fun hc => (Table.get?_insert_of_ne hname ?_).symm
    -- what is bound here cannot be the name that was free
    rintro rfl
    have hsome := hbound hc
    simp [Scope.Binds, hc, scope, Scope.ofTables, hunbound] at hsome
  | expressionAdded | expressionRemoved => exact .refl c.scope t

lemma Change.getElem?_expressions (h : c.Change command d) {answer : Logged Error Answer}
    {a : Answer} (ha : answer.result = .ok a) (hspared : ¬ command.Concerns e i)
    (he : c.expressions[i]? = some e) : d.expressions[i - shift i command answer]? = some e := by
  cases h with
  | variableAdded | variableRemoved | functionAdded => simpa [shift] using he
  | expressionAdded =>
    obtain ⟨hi, -⟩ := List.getElem?_eq_some_iff.mp he
    simpa [shift, List.getElem?_append_left hi] using he
  | @expressionRemoved j removed =>
    have hne : j ≠ i := hspared
    simp only [shift, ha]
    rw [List.getElem?_eraseIdx]
    split_ifs with hlt hbelow
    · omega
    · rw [Nat.sub_add_cancel (Nat.one_le_of_lt hlt)]
      exact he
    · exact he
    · omega

end Change

lemma run_frame (hc : c.Serves (· = .functionName)) (he : c.expressions[i]? = some e)
    (hspared : Spares e i (commands.zip (c.run commands).1)) :
    (c.run commands).2.expressions[i - removalsBelow i (commands.zip (c.run commands).1)]? = some e ∧
      ∀ t ∈ e.infixTokens, c.scope.AgreesOn (c.run commands).2.scope t := by
  induction commands generalizing c i with
  | nil => exact ⟨he, fun t _ => .refl c.scope t⟩
  | cons command commands ih =>
    have hlog : (command :: commands).zip (c.run (command :: commands)).1 =
        (command, (c.step command).1) :: commands.zip ((c.step command).2.run commands).1 := rfl
    rw [hlog, spares_cons] at hspared
    obtain ⟨hhead, hrest⟩ := hspared
    rw [hlog, sub_removalsBelow_cons]
    show ((c.step command).2.run commands).2.expressions[_]? = some e ∧
      ∀ t ∈ e.infixTokens, c.scope.AgreesOn ((c.step command).2.run commands).2.scope t
    rcases step_cases c command with ⟨hsame, hidle⟩ | ⟨⟨a, ha⟩, hchange⟩
    · rw [shift_idle hidle] at hrest ⊢
      rw [hsame] at hrest ⊢
      exact ih hc he hrest
    · have hspared := hhead ⟨a, ha⟩
      obtain ⟨hstays, hagrees⟩ := ih (hc.change hchange nofun)
        (hchange.getElem?_expressions ha hspared he) hrest
      have hbinds := (hc e (List.mem_of_getElem? he)).2
      exact ⟨hstays, fun t ht => (hchange.agreesOn hspared ht (hbinds t ht)).trans (hagrees t ht)⟩

lemma calculate_congr {k : Nat} (hc : c.Serves (· = .functionName)) (he : c.expressions[i]? = some e)
    (hk : d.expressions[k]? = some e) (h : ∀ t ∈ e.infixTokens, c.scope.AgreesOn d.scope t) :
    d.calculate k = c.calculate i := by
  obtain ⟨⟨bound, source, hread⟩, -⟩ := hc e (List.mem_of_getElem? he)
  rw [calculate_eq he, calculate_eq hk, Expression.calculate_congr hread h]

lemma calculate_addFunction (hc : c.Serves (· = .functionName)) (he : c.expressions[i]? = some e)
    (name : String) (function : UnaryFunction) :
    (c.step (.addFunction name function)).2.calculate i = c.calculate i := by
  rcases step_cases c (.addFunction name function) with ⟨hsame, -⟩ | ⟨⟨a, ha⟩, hchange⟩
  · rw [hsame]
  · have hbinds := (hc e (List.mem_of_getElem? he)).2
    exact calculate_congr hc he (hchange.getElem?_expressions ha id he)
      fun t ht => hchange.agreesOn (i := i) id ht (hbinds t ht)

lemma step_addFunction_bound {name : String} (h : (c.functionTable.get? name).isSome)
    (function : UnaryFunction) : (c.step (.addFunction name function)).1.result =
      .error (.binding (.functionAlreadyDefined name)) ∧
        (c.step (.addFunction name function)).2 = c := by
  have hrefused : (c.step (.addFunction name function)).1.result =
      .error (.binding (.functionAlreadyDefined name)) := by
    simp [step, perform, addFunction, FunctionTable.add_bound h, Except.map]
  exact ⟨hrefused, step_refused hrefused⟩

theorem run_undisturbed (values : VariableTable) (functions : FunctionTable)
    {earlier : List Command} {answers : List (Logged Error Answer)}
    (hc : ((ofTables values functions).run earlier).2 = c) (hrun : c.run commands = (answers, d))
    (he : c.expressions[i]? = some e) (hspared : Spares e i (commands.zip answers)) :
    d.expressions[i - removalsBelow i (commands.zip answers)]? = some e ∧
      d.calculate (i - removalsBelow i (commands.zip answers)) = c.calculate i ∧
      (∀ name function, (d.step (.addFunction name function)).2.calculate
        (i - removalsBelow i (commands.zip answers)) = c.calculate i) ∧
      ∀ t ∈ e.infixTokens, t.category = .functionName → ∀ function,
        (d.step (.addFunction t.text function)).1.result =
          .error (.binding (.functionAlreadyDefined t.text)) ∧
        (d.step (.addFunction t.text function)).2 = d := by
  obtain rfl : (c.run commands).1 = answers := by rw [hrun]
  obtain rfl : (c.run commands).2 = d := by rw [hrun]
  have hserves : c.Serves (· = .functionName) := hc ▸ serves_functions values functions earlier
  have hlater := hserves.run commands
  obtain ⟨hstays, hagrees⟩ := run_frame hserves he hspared
  have hcalculate := calculate_congr hserves he hstays hagrees
  refine ⟨hstays, hcalculate, fun name function => ?_, fun t ht hname function => ?_⟩
  · rw [calculate_addFunction hlater hstays, hcalculate]
  · have hbound := (hlater e (List.mem_of_getElem? hstays)).2 t ht hname
    simp only [Scope.Binds, hname] at hbound
    exact step_addFunction_bound hbound function

theorem run_undisturbed_shadowed : ∃ c answers d,
    ((ofTables .empty .empty).run
      [.addVariable "x" 0, .addExpression "2", .addExpression "1/x"]).2 = c ∧
    c.run [.removeExpression 0, .addFunction "x" .ok] = (answers, d) ∧
    d.calculate 0 = c.calculate 1 := by
  obtain ⟨c, hc⟩ : ∃ c, ((ofTables .empty .empty).run
    [.addVariable "x" 0, .addExpression "2", .addExpression "1/x"]).2 = c := ⟨_, rfl⟩
  obtain ⟨answers, d, hrun⟩ : ∃ answers d,
    c.run [.removeExpression 0, .addFunction "x" .ok] = (answers, d) := ⟨_, _, rfl⟩
  have he : c.expressions[1]? = some ⟨"1/x",
      [⟨.number, "1", 0⟩, ⟨.binary, "/", 1⟩, ⟨.variableName, "x", 2⟩],
      [⟨.number, "1", 0⟩, ⟨.variableName, "x", 2⟩, ⟨.binary, "/", 1⟩]⟩ := by
    rw [← hc]
    cbv
  have hremovals :
      removalsBelow 1 ([.removeExpression 0, .addFunction "x" .ok].zip answers) = 1 := by
    obtain rfl : (c.run _).1 = answers := congrArg Prod.fst hrun
    rw [← hc]
    cbv
  refine ⟨c, answers, d, hc, hrun, ?_⟩
  have hstays := (run_undisturbed .empty .empty hc hrun he ?_).2.1
  · rwa [hremovals] at hstays
  · obtain rfl : (c.run _).1 = answers := congrArg Prod.fst hrun
    -- the removal is of the expression below, and a function concerns none
    simp [run, spares_cons, Command.Concerns]

end Calculator

end Reckoner
