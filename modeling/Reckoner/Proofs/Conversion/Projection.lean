import Reckoner.Proofs.Grammar.Soundness

/-! The conversion that a sketch stands for. What it has put out are the left operands of
the frames, and what it holds are their operators and brackets; only the trees are
forgotten. -/

namespace Reckoner

namespace Frame

def leaves : Frame → List Token
  | operator l s => l.leaves ++ [s.resolve .binary]
  | negation s => [s.resolve .unary]
  | bracket f o => (f.map (·.resolve .functionName)).toList ++ [o.resolve .opening]

def output : Frame → List Token
  | operator l _ => l.postorder
  | negation _ | bracket _ _ => []

def pending : Frame → List Token
  | operator _ s => [s.resolve .binary]
  | negation s => [s.resolve .unary]
  | bracket f o => o.resolve .opening :: (f.map (·.resolve .functionName)).toList

end Frame

namespace Focus

def leaves : Focus → List Token
  | due => []
  | named f => [f.resolve .functionName]
  | operand t => t.leaves

def output : Focus → List Token
  | operand t => t.postorder
  | due | named _ => []

def pending : Focus → List Token
  | named f => [f.resolve .functionName]
  | due | operand _ => []

end Focus

namespace Sketch

def conversion (d : Sketch) : Conversion where
  accepted := (d.frames.reverse.flatMap Frame.leaves ++ d.focus.leaves).toArray
  output := (d.frames.reverse.flatMap Frame.output ++ d.focus.output).toArray
  pending := d.focus.pending ++ d.frames.flatMap Frame.pending

variable {scope : Scope} {fs : List Frame} {t u : Tree}

lemma previous_operand (fs : List Frame) (t : Tree) :
    (⟨fs, .operand t⟩ : Sketch).conversion.previous.endsOperand := by
  obtain ⟨u, hu, he⟩ := t.exists_getLast_leaves
  simp [Conversion.previous, conversion, Focus.leaves, List.getLast?_append, hu, he]

lemma previous_named (fs : List Frame) (f : Token) :
    (⟨fs, .named f⟩ : Sketch).conversion.previous = .functionName := by
  simp [Conversion.previous, conversion, Focus.leaves, List.getLast?_append, Token.resolve]

lemma previous_due (fs : List Frame) :
    (⟨fs, .due⟩ : Sketch).conversion.previous.awaitsOperand := by
  cases fs with
  | nil => rfl
  | cons f fs =>
    cases f <;> simp [Conversion.previous, conversion, Focus.leaves, Frame.leaves,
      List.getLast?_append, Token.resolve, Category.awaitsOperand]

end Sketch

end Reckoner
