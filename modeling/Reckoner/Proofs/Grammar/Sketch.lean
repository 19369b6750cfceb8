import Reckoner.Proofs.Grammar.Derivation
import Reckoner.Proofs.Token.Spelling

/-! Half-read expressions. A frame is an operator that still lacks its right operand or
a bracket that is still open, and reading a token keeps every left operand as a tree. A
new operator absorbs the frames that bind at least as tightly as it does. -/

namespace Reckoner

inductive Frame
  | operator (left : Tree) (sign : Token)
  | negation (sign : Token)
  | bracket (function : Option Token) (opening : Token)

inductive Focus
  | due
  | named (function : Token)
  | operand (t : Tree)

structure Sketch where
  /-- The innermost first. -/
  frames : List Frame
  focus : Focus

namespace Frame

def tokens : Frame → List Token
  | operator l s => l.tokens ++ [s]
  | negation s => [s]
  | bracket f o => f.toList ++ [o]

end Frame

namespace Focus

def tokens : Focus → List Token
  | due => []
  | named f => [f]
  | operand t => t.tokens

end Focus

namespace Sketch

def empty : Sketch := ⟨[], .due⟩

def tokens (d : Sketch) : List Token := d.frames.reverse.flatMap Frame.tokens ++ d.focus.tokens

/-- Completes operators with their right operands as long as a condition holds of them. -/
def absorb (p : Token → Bool) : List Frame → Tree → List Frame × Tree
  | .operator l s :: fs, t =>
    if p (s.resolve .binary) then absorb p fs (.binary l s t) else (.operator l s :: fs, t)
  | .negation s :: fs, t =>
    if p (s.resolve .unary) then absorb p fs (.negation s t) else (.negation s :: fs, t)
  | fs, t => (fs, t)

def enclose (o : Token) (t : Tree) (c : Token) : Option Token → Tree
  | some f => .call f o t c
  | none => if c.firstChar = '|' then .bars o t c else .bracket o t c

def close (fs : List Frame) (t : Tree) (c : Token) : Option Sketch :=
  match absorb (·.category != .opening) fs t with
  | (.bracket f o :: gs, u) =>
    if isMatchingPair o.firstChar c.firstChar then some ⟨gs, .operand (enclose o u c f)⟩ else none
  | _ => none

def beginOperand (scope : Scope) (fs : List Frame) (t : Token) : Option Sketch :=
  match t.category with
  | .number => some ⟨fs, .operand (.number t)⟩
  | .identifier =>
    if (scope.function? t.text).isSome then some ⟨fs, .named t⟩
    else if (scope.value? t.text).isSome then some ⟨fs, .operand (.name t)⟩
    else none
  | .opening => some ⟨.bracket none t :: fs, .due⟩
  | .operator =>
    if t.text = "|" then some ⟨.bracket none t :: fs, .due⟩
    else if t.text = "-" then some ⟨.negation t :: fs, .due⟩
    else none
  | _ => none

def openCall (fs : List Frame) (f t : Token) : Option Sketch :=
  if t.category = .opening ∧ t.text = "(" then some ⟨.bracket (some f) t :: fs, .due⟩ else none

def continueOperand (fs : List Frame) (u : Tree) (t : Token) : Option Sketch :=
  match t.category with
  | .operator =>
    if t.text = "|" then close fs u t
    else
      let (gs, l) := absorb (Conversion.yieldsTo (t.resolve .binary)) fs u
      some ⟨.operator l t :: gs, .due⟩
  | .closing => close fs u t
  | _ => none

def read (scope : Scope) (d : Sketch) (t : Token) : Option Sketch :=
  match d.focus with
  | .due => beginOperand scope d.frames t
  | .named f => openCall d.frames f t
  | .operand u => continueOperand d.frames u t

def run (scope : Scope) (d : Sketch) (ts : List Token) : Option Sketch :=
  ts.foldlM (read scope) d

def finish (d : Sketch) : Option Tree :=
  match d.focus with
  | .operand t =>
    match absorb (·.category != .opening) d.frames t with
    | ([], u) => some u
    | _ => none
  | _ => none

lemma run_cons (scope : Scope) (d : Sketch) (t : Token) (ts : List Token) :
    run scope d (t :: ts) = (d.read scope t).bind fun e => run scope e ts :=
  List.foldlM_cons

lemma run_append (scope : Scope) (d : Sketch) (ts us : List Token) :
    run scope d (ts ++ us) = (run scope d ts).bind fun e => run scope e us :=
  List.foldlM_append

lemma tokens_absorb (p : Token → Bool) (fs : List Frame) (t : Tree) :
    (⟨(absorb p fs t).1, .operand (absorb p fs t).2⟩ : Sketch).tokens =
      (⟨fs, .operand t⟩ : Sketch).tokens := by
  fun_induction absorb p fs t with
  | case1 l s fs t hp ih =>
    exact ih.trans (by simp [tokens, Focus.tokens, Tree.tokens, Frame.tokens])
  | case3 s fs t hp ih =>
    exact ih.trans (by simp [tokens, Focus.tokens, Tree.tokens, Frame.tokens])
  | _ => rfl

end Sketch

end Reckoner
