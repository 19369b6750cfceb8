import Mathlib.Tactic.Lemma
import Reckoner.Expression.Conversion

/-! Expressions as trees over scanned tokens. The place of a token in its tree gives
the token its role. -/

namespace Reckoner

inductive Tree
  | number (literal : Token)
  | name (variableName : Token)
  | negation (sign : Token) (operand : Tree)
  | binary (left : Tree) (sign : Token) (right : Tree)
  | bracket (opening : Token) (inner : Tree) (closing : Token)
  | bars (opening : Token) (inner : Tree) (closing : Token)
  | call (function opening : Token) (argument : Tree) (closing : Token)

namespace Tree

def tokens : Tree → List Token
  | number t | name t => [t]
  | negation s t => s :: t.tokens
  | binary l s r => l.tokens ++ s :: r.tokens
  | bracket o t c | bars o t c => o :: (t.tokens ++ [c])
  | call f o t c => f :: o :: (t.tokens ++ [c])

/-- The tokens in the written order, each with its role. -/
def leaves : Tree → List Token
  | number t => [t.resolve .number]
  | name t => [t.resolve .variableName]
  | negation s t => s.resolve .unary :: t.leaves
  | binary l s r => l.leaves ++ s.resolve .binary :: r.leaves
  | bracket o t c | bars o t c => o.resolve .opening :: (t.leaves ++ [c.resolve .closing])
  | call f o t c =>
    f.resolve .functionName :: o.resolve .opening :: (t.leaves ++ [c.resolve .closing])

/-- The tokens behind their operands. Brackets leave nothing, and bars leave the operator
for the absolute value at the place of the second bar. -/
def postorder : Tree → List Token
  | number t => [t.resolve .number]
  | name t => [t.resolve .variableName]
  | negation s t => t.postorder ++ [s.resolve .unary]
  | binary l s r => l.postorder ++ r.postorder ++ [s.resolve .binary]
  | bracket _ t _ => t.postorder
  | bars _ t c => t.postorder ++ [Conversion.absoluteValue c]
  | call f _ t _ => t.postorder ++ [f.resolve .functionName]

def expression (source : String) (t : Tree) : Expression := ⟨source, t.leaves, t.postorder⟩

lemma exists_getLast_leaves (t : Tree) :
    ∃ u, t.leaves.getLast? = some u ∧ u.category.endsOperand := by
  induction t with
  | number t => exact ⟨_, rfl, rfl⟩
  | name t => exact ⟨_, rfl, rfl⟩
  | negation s t ih =>
    obtain ⟨u, hu, he⟩ := ih
    exact ⟨u, by simp [leaves, List.getLast?_cons, hu], he⟩
  | binary l s r _ ih =>
    obtain ⟨u, hu, he⟩ := ih
    exact ⟨u, by simp [leaves, List.getLast?_cons, hu], he⟩
  | bracket o t c => exact ⟨c.resolve .closing, by simp [leaves, List.getLast?_cons], rfl⟩
  | bars o t c => exact ⟨c.resolve .closing, by simp [leaves, List.getLast?_cons], rfl⟩
  | call f o t c => exact ⟨c.resolve .closing, by simp [leaves, List.getLast?_cons], rfl⟩

end Tree

end Reckoner
