import Reckoner.Expression.Basic
import Reckoner.Expression.Role

/-! From the written order to the order of evaluation. Operands go out at once;
operators, functions and opening brackets wait until what follows shows that their
operands are complete. -/

namespace Reckoner

structure Conversion where
  accepted : Array Token := #[]
  output : Array Token := #[]
  /-- The latest first. -/
  pending : List Token := []

namespace Conversion

def previous (c : Conversion) : Category := (c.accepted.back?.map (·.category)).getD .start

def emit (c : Conversion) (t : Token) : Conversion := { c with output := c.output.push t }

def hold (c : Conversion) (t : Token) : Conversion := { c with pending := t :: c.pending }

def release (c : Conversion) (p : Token → Bool) : Conversion :=
  { c with output := c.output ++ c.pending.takeWhile p, pending := c.pending.dropWhile p }

theorem release_append (c : Conversion) (p : Token → Bool) :
    (c.release p).output.toList ++ (c.release p).pending = c.output.toList ++ c.pending := by
  simp [release]

/-- Sends out all that waits inside the innermost open bracket. -/
def drain (c : Conversion) : Conversion := c.release (·.category != .opening)

theorem category_of_drain {c : Conversion} {t : Token} {rest : List Token}
    (h : c.drain.pending = t :: rest) : t.category = .opening := by
  have hd := List.head?_dropWhile_not (fun t : Token => t.category != .opening) c.pending
  simp only [drain, release] at h
  simp_all

/-- Whether a pending token takes its operands before a new operator does. -/
def yieldsTo (t pending : Token) : Bool :=
  pending.category != .opening &&
    if t.isRightAssociative then t.precedence < pending.precedence
    else t.precedence ≤ pending.precedence

def call (c : Conversion) : Conversion :=
  match c.pending with
  | [] => c
  | t :: rest =>
    if t.category = .functionName then { c with output := c.output.push t, pending := rest } else c

/-- The operator that stands for a pair of bars, at the place of the second. -/
def absoluteValue (closing : Token) : Token := ⟨.unary, "abs", closing.offset⟩

def close (c : Conversion) (t : Token) : Except ParseFault Conversion :=
  match c.drain.pending with
  | [] => .error (.unexpectedClosing t.firstChar)
  | bracket :: rest =>
    if isMatchingPair bracket.firstChar t.firstChar then
      let closed := { c.drain with pending := rest }
      .ok (if t.firstChar = '|' then closed.emit (absoluteValue t) else closed).call
    else .error (.mismatch bracket.firstChar t.firstChar)

def push (c : Conversion) (t : Token) : Except ParseFault Conversion :=
  match t.category with
  | .number | .variableName => .ok (c.emit t)
  | .opening | .functionName => .ok (c.hold t)
  | .binary | .unary => .ok ((c.release (yieldsTo t)).hold t)
  | .closing => c.close t
  | .separator =>
    if c.drain.pending.isEmpty then .error .separatorOutsideBrackets else .ok c.drain
  | .start | .finish | .identifier | .operator => .error (.unexpectedLexeme t.text)

def accept (c : Conversion) (t : Token) : Except ParseFault Conversion :=
  { c with accepted := c.accepted.push t }.push t

def isUnclosed (t : Token) : Bool := t.category == .opening || t.category == .functionName

/-- A function still waits for the bracket that would call it. -/
def openingChar (t : Token) : Char := if t.category = .functionName then '(' else t.firstChar

def finish (c : Conversion) (source : String) : Except ParseError Expression :=
  match c.pending.find? isUnclosed with
  | some t => .error ⟨.missingClosing (openingChar t), source, t.offset⟩
  | none =>
    if c.previous.canFollow .finish then
      .ok ⟨source, c.accepted.toList, c.output.toList ++ c.pending⟩
    else .error ⟨.unexpectedEnd, .endOf source⟩

end Conversion

end Reckoner
