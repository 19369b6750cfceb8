import Reckoner.Diagnostic.ParseError
import Reckoner.Scope.Basic
import Reckoner.Token.Basic

/-! The part of a token in its expression. A name stands for what it is bound to, a
function before a variable. A minus sign negates and a bar opens where an operand is
due; elsewhere they subtract and close. -/

namespace Reckoner

def Scope.nameCategory? (scope : Scope) (name : String) : Option Category :=
  if (scope.function? name).isSome then some .functionName
  else if (scope.value? name).isSome then some .variableName
  else none

namespace Token

def operatorCategory (previous : Category) (text : String) : Category :=
  if text = "|" then if previous.admitsPrefix then .opening else .closing
  else if text = "-" ∧ previous.admitsPrefix then .unary
  else .binary

/-- The final category, whether or not it may stand in its place. -/
def role (scope : Scope) (previous : Category) (t : Token) : Except ParseFault Category :=
  match t.category with
  | .identifier =>
    match scope.nameCategory? t.text with
    | some category => .ok category
    | none => .error (.unknownIdentifier t.text)
  | .operator => .ok (operatorCategory previous t.text)
  | category => .ok category

/-- Only a round bracket calls a function. -/
def place (previous category : Category) (t : Token) : Except ParseFault Token :=
  if !previous.canFollow category then .error (.unexpectedLexeme t.text)
  else if previous = .functionName ∧ category = .opening ∧ t.text ≠ "(" then
    .error (.callBracket t.text)
  else .ok (t.resolve category)

def classify (scope : Scope) (previous : Category) (t : Token) : Except ParseFault Token := do
  t.place previous (← t.role scope previous)

theorem canFollow_of_place {previous category : Category} {t u : Token}
    (h : t.place previous category = .ok u) : previous.canFollow u.category := by
  unfold place at h
  split at h
  · simp at h
  · split at h
    · simp at h
    · obtain rfl := Except.ok.inj h
      simp_all [resolve]

theorem text_of_classify {scope : Scope} {previous : Category} {t u : Token}
    (h : t.classify scope previous = .ok u) : u.text = t.text ∧ u.offset = t.offset := by
  unfold classify at h
  cases hr : t.role scope previous with
  | error f => simp [hr, bind, Except.bind] at h
  | ok category =>
    simp only [hr, bind, Except.bind, place] at h
    split at h
    · simp at h
    · split at h
      · simp at h
      · obtain rfl := Except.ok.inj h
        exact ⟨rfl, rfl⟩

end Token

end Reckoner
