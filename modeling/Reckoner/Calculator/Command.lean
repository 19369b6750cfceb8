import Reckoner.Calculator.Listing

/-! The operations on a calculator as data, and runs of them. A command that fails is
answered and leaves the calculator as it was. -/

namespace Reckoner.Calculator

inductive Command
  | addVariable (name : String) (value : Float)
  | removeVariable (name : String)
  | addFunction (name : String) (function : UnaryFunction)
  | addExpression (source : String)
  | removeExpression (index : Nat)
  | calculate (index : Nat)
  | calculateAll
  | list

inductive Answer
  | done
  | value (x : Float)
  | index (i : Nat)
  | expression (e : Expression)
  | results (xs : List (Except Error Float))
  | text (s : String)

def perform (c : Calculator) : Command → Logged Error (Answer × Calculator)
  | .addVariable name value => (.done, ·) <$> c.addVariable name value
  | .removeVariable name => (fun r => (.value r.1, r.2)) <$> c.removeVariable name
  | .addFunction name function => (.done, ·) <$> c.addFunction name function
  | .addExpression source => (fun r => (.index r.1, r.2)) <$> c.addExpression source
  | .removeExpression index => (fun r => (.expression r.1, r.2)) <$> c.removeExpression index
  | .calculate index => (fun x => (.value x, c)) <$> c.calculate index
  | .calculateAll => (fun xs => (.results xs, c)) <$> c.calculateAll
  | .list => pure (.text c.listing, c)

def step (c : Calculator) (command : Command) : Logged Error Answer × Calculator :=
  let performed := c.perform command
  (Prod.fst <$> performed, match performed.result with
    | .ok (_, d) => d
    | .error _ => c)

def run (c : Calculator) : List Command → List (Logged Error Answer) × Calculator
  | [] => ([], c)
  | command :: commands =>
    let (answer, d) := c.step command
    let (answers, last) := d.run commands
    (answer :: answers, last)

theorem run_append (c : Calculator) (as bs : List Command) :
    c.run (as ++ bs) = ((c.run as).1 ++ ((c.run as).2.run bs).1, ((c.run as).2.run bs).2) := by
  induction as generalizing c with
  | nil => rfl
  | cons a as ih => simp [run, ih]

end Reckoner.Calculator
