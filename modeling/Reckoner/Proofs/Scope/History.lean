import Mathlib.Data.Set.Card
import Reckoner.Proofs.Scope.Agreement

/-! The history of a table. After any calls, refused or not, a table is the map that the last
successful call on each name has left, in the order of the names, and it answers the next call by
that map. -/

namespace Reckoner

variable {α : Type}

namespace Table

inductive Call (α : Type)
  | add (name : String) (value : α)
  | remove (name : String)

def Call.name : Call α → String
  | add name _ | remove name => name

/-- What the call leaves its name bound to. -/
def Call.binding : Call α → Option α
  | add _ value => some value
  | remove _ => none

/-- How tables of a kind take a call. What they do not refuse changes the binding of its name and
of no other. -/
structure Rules (α : Type) where
  perform : Table α → Call α → Except BindingError (Table α)
  get?_perform : ∀ {t u : Table α} {call : Call α}, perform t call = .ok u →
    ∀ name, u.get? name = if name = call.name then call.binding else t.get? name

/-- A table and the calls that were not refused, the latest first. -/
@[ext]
structure History (α : Type) where
  table : Table α
  done : List (Call α) := []

namespace History

/-- What the last call on the name has left, or what the name was bound to before all calls. -/
def latest (start : Table α) (h : History α) (name : String) : Option α :=
  match h.done.find? (·.name == name) with
  | some call => call.binding
  | none => start.get? name

end History

namespace Rules

variable {rules : Rules α} {start : Table α} {h : History α} {call : Call α} {calls : List (Call α)}

def step (rules : Rules α) (h : History α) (call : Call α) : History α :=
  match rules.perform h.table call with
  | .ok table => ⟨table, call :: h.done⟩
  | .error _ => h

def run (rules : Rules α) (start : Table α) (calls : List (Call α)) : History α :=
  calls.foldl rules.step ⟨start, []⟩

lemma step_ok {u : Table α} (hu : rules.perform h.table call = .ok u) :
    rules.step h call = ⟨u, call :: h.done⟩ := by
  rw [step, hu]

lemma step_error {e : BindingError} (he : rules.perform h.table call = .error e) :
    rules.step h call = h := by
  rw [step, he]

lemma run_concat (rules : Rules α) (start : Table α) (calls : List (Call α)) (call : Call α) :
    rules.run start (calls ++ [call]) = rules.step (rules.run start calls) call := by
  rw [run, List.foldl_append]
  rfl

lemma get?_step (hh : ∀ name, h.table.get? name = h.latest start name) (name : String) :
    (rules.step h call).table.get? name = (rules.step h call).latest start name := by
  cases hu : rules.perform h.table call with
  | error e => rw [step_error hu, hh]
  | ok u =>
    rw [step_ok hu, rules.get?_perform hu, hh, History.latest, History.latest, List.find?_cons]
    by_cases hname : name = call.name
    · simp [hname]
    · rw [if_neg hname, beq_false_of_ne (Ne.symm hname)]

lemma get?_run (rules : Rules α) (start : Table α) (calls : List (Call α)) (name : String) :
    (rules.run start calls).table.get? name = (rules.run start calls).latest start name := by
  induction calls using List.reverseRecOn generalizing name with
  | nil => rfl
  | append_singleton calls call ih =>
    rw [run_concat]
    exact get?_step ih name

end Rules

lemma size_eq_ncard (t : Table α) : t.size = {name | (t.get? name).isSome}.ncard := by
  have hset : {name | (t.get? name).isSome} = (t.names.toFinset : Set String) := by
    ext name
    simp [mem_names]
  rw [hset, Set.ncard_coe_finset, List.toFinset_card_of_nodup (t.pairwise_names.imp ne_of_lt),
    names, List.length_map, size]

/-- The table is the map in the order of the names. -/
structure Lists (t : Table α) (map : String → Option α) : Prop where
  get?_eq : ∀ name, t.get? name = map name
  contains_iff : ∀ name, t.contains name ↔ ∃ value, map name = some value
  size_eq : t.size = {name | (map name).isSome}.ncard
  increasing : t.names.Pairwise (· < ·)
  mem_names : ∀ name, name ∈ t.names ↔ ∃ value, map name = some value
  mem_entries : ∀ name value, (name, value) ∈ t.entries ↔ map name = some value
  identifiers : ∀ name value, map name = some value → Lexeme.isIdentifier name

lemma lists_get? (t : Table α) : t.Lists t.get? where
  get?_eq _ := rfl
  contains_iff _ := Option.isSome_iff_exists
  size_eq := t.size_eq_ncard
  increasing := t.pairwise_names
  mem_names _ := Table.mem_names.trans Option.isSome_iff_exists
  mem_entries _ _ := Table.get?_eq_some.symm
  identifiers _ _ h := t.named _ (Table.get?_eq_some.mp h)

lemma lists_run (rules : Rules α) (start : Table α) (calls : List (Call α)) :
    (rules.run start calls).table.Lists ((rules.run start calls).latest start) := by
  have hget := funext (rules.get?_run start calls)
  rw [← hget]
  exact lists_get? _

end Table

open Table

namespace VariableTable

def rules : Rules Float where
  perform t call :=
    match call with
    | .add name x => VariableTable.add t name x
    | .remove name => (VariableTable.remove t name).map Prod.snd
  get?_perform {t u call} h name := by
    cases call with
    | add =>
      obtain ⟨hname, rfl⟩ := VariableTable.add_eq_ok.mp h
      exact get?_insert t _ _ hname name
    | remove =>
      obtain ⟨⟨x, v⟩, hremove, rfl⟩ := Outcome.map_eq_ok.mp h
      obtain ⟨-, rfl⟩ := VariableTable.remove_eq_ok.mp hremove
      exact get?_erase t _ name

/-- The table answers by the map. -/
structure Answers (t : VariableTable) (map : String → Option Float) : Prop where
  add_ok : ∀ name x, Lexeme.isIdentifier name →
    ∃ u, t.add name x = .ok u ∧ u.get? name = some x
  add_invalid : ∀ name x, ¬ Lexeme.isIdentifier name → t.add name x = .error (.invalidName name)
  remove_ok : ∀ name x, map name = some x →
    ∃ u, t.remove name = .ok (x, u) ∧ u.get? name = none
  remove_unknown : ∀ name, map name = none → t.remove name = .error (.unknownVariable name)

lemma answers_get? (t : VariableTable) : Answers t t.get? where
  add_ok name x h := ⟨_, dif_pos h, by rw [get?_insert, if_pos rfl]⟩
  add_invalid name x h := dif_neg h
  remove_ok name x h := ⟨_, by rw [remove, h], by rw [get?_erase, if_pos rfl]⟩
  remove_unknown name h := by rw [remove, h]

end VariableTable

namespace FunctionTable

lemma remove_eq_ok {t u : FunctionTable} {name : String} :
    t.remove name = .ok u ↔ (t.get? name).isSome ∧ t.erase name = u := by
  unfold remove Table.contains
  split_ifs with h <;> simp [h]

def rules : Rules UnaryFunction where
  perform t call :=
    match call with
    | .add name f => FunctionTable.add t name f
    | .remove name => FunctionTable.remove t name
  get?_perform {t u call} h name := by
    cases call with
    | add =>
      obtain ⟨hname, -, rfl⟩ := FunctionTable.add_eq_ok.mp h
      exact get?_insert t _ _ hname name
    | remove =>
      obtain ⟨-, rfl⟩ := FunctionTable.remove_eq_ok.mp h
      exact get?_erase t _ name

structure Answers (t : FunctionTable) (map : String → Option UnaryFunction) : Prop where
  add_ok : ∀ name f, Lexeme.isIdentifier name → map name = none →
    ∃ u, t.add name f = .ok u ∧ u.get? name = some f
  add_invalid : ∀ name f, ¬ Lexeme.isIdentifier name → t.add name f = .error (.invalidName name)
  add_defined : ∀ name f g, Lexeme.isIdentifier name → map name = some g →
    t.add name f = .error (.functionAlreadyDefined name)
  remove_ok : ∀ name f, map name = some f → ∃ u, t.remove name = .ok u ∧ u.get? name = none
  remove_unknown : ∀ name, map name = none → t.remove name = .error (.unknownFunction name)

lemma answers_get? (t : FunctionTable) : Answers t t.get? where
  add_ok name f h hfree :=
    ⟨_, FunctionTable.add_eq_ok.mpr ⟨h, hfree, rfl⟩, by rw [get?_insert, if_pos rfl]⟩
  add_invalid name f h := dif_neg h
  add_defined name f g h hbound := by simp [add, contains, h, hbound]
  remove_ok name f h :=
    ⟨_, remove_eq_ok.mpr ⟨by simp [h], rfl⟩, by rw [get?_erase, if_pos rfl]⟩
  remove_unknown name h := by simp [remove, contains, h]

/-- A function stays as it is until it is removed. -/
lemma get?_kept {t : FunctionTable} {name : String} {f : UnaryFunction} (h : t.get? name = some f)
    (calls : List (Call UnaryFunction)) (hkept : .remove name ∉ (rules.run t calls).done) :
    (rules.run t calls).table.get? name = some f := by
  induction calls using List.reverseRecOn with
  | nil => exact h
  | append_singleton calls call ih =>
    rw [Rules.run_concat] at hkept ⊢
    cases hu : rules.perform (rules.run t calls).table call with
    | error e =>
      rw [Rules.step_error hu] at hkept ⊢
      exact ih hkept
    | ok u =>
      rw [Rules.step_ok hu, List.mem_cons, not_or] at hkept
      have hbound := ih hkept.2
      have hne : name ≠ call.name := by
        rintro rfl
        cases call with
        | add =>
          obtain ⟨-, hfree, -⟩ := FunctionTable.add_eq_ok.mp hu
          exact Option.some_ne_none f (hbound.symm.trans hfree)
        | remove => exact hkept.1 rfl
      rw [Rules.step_ok hu, rules.get?_perform hu, if_neg hne, hbound]

end FunctionTable

theorem history_exact :
    (∀ (start : VariableTable) (calls : List (Call Float)) (h : History Float),
      h = VariableTable.rules.run start calls →
        h.table.Lists (h.latest start) ∧ VariableTable.Answers h.table (h.latest start) ∧
        ∀ call e, VariableTable.rules.perform h.table call = .error e →
          VariableTable.rules.run start (calls ++ [call]) = h) ∧
    ∀ (start : FunctionTable) (calls : List (Call UnaryFunction)) (h : History UnaryFunction),
      h = FunctionTable.rules.run start calls →
        h.table.Lists (h.latest start) ∧ FunctionTable.Answers h.table (h.latest start) ∧
        (∀ call e, FunctionTable.rules.perform h.table call = .error e →
          FunctionTable.rules.run start (calls ++ [call]) = h) ∧
        ∀ name f more, h.latest start name = some f →
          .remove name ∉ (FunctionTable.rules.run h.table more).done →
            (FunctionTable.rules.run h.table more).table.get? name = some f := by
  refine ⟨?_, ?_⟩
  · rintro start calls h rfl
    have hget := funext (VariableTable.rules.get?_run start calls)
    refine ⟨lists_run .., hget ▸ VariableTable.answers_get? _, fun call e he => ?_⟩
    rw [Rules.run_concat, Rules.step_error he]
  · rintro start calls h rfl
    have hget := funext (FunctionTable.rules.get?_run start calls)
    refine ⟨lists_run .., hget ▸ FunctionTable.answers_get? _, fun call e he => ?_,
      fun name f more hf => ?_⟩
    · rw [Rules.run_concat, Rules.step_error he]
    · exact FunctionTable.get?_kept ((congrFun hget name).trans hf) more

/-- The second function of the name is refused, and so is a name that is no identifier. -/
theorem history_exact_refused :
    let h := FunctionTable.rules.run FunctionTable.standard
      [.add "f" .ok, .remove "sin", .add "f" .logarithm]
    h.table.get? "f" = some .ok ∧ h.table.get? "sin" = none ∧
      FunctionTable.add h.table "f" .sine = .error (.functionAlreadyDefined "f") ∧
      FunctionTable.add h.table "2x" .sine = .error (.invalidName "2x") := by
  intro h
  obtain ⟨hlists, hanswers, -⟩ := history_exact.2 FunctionTable.standard
    [.add "f" .ok, .remove "sin", .add "f" .logarithm] h rfl
  have hlatest : h.latest FunctionTable.standard "f" = some .ok := by rfl
  refine ⟨(hlists.get?_eq "f").trans hlatest, (hlists.get?_eq "sin").trans (by rfl), ?_, ?_⟩
  · exact hanswers.add_defined "f" _ _ (by decide) hlatest
  · exact hanswers.add_invalid "2x" _ (by decide)

end Reckoner
