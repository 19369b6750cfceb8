import Reckoner.Calculator.Command
import Reckoner.Proofs.Numeral.Reading

/-! A journal as a text with a line for each record, and the commands that can be read from the
text again. -/

namespace Reckoner

open Text (IsWord words)

def Record.transcript (rs : List Record) : String := String.join (rs.map (·.message ++ "\n"))

namespace Calculator.Command

/-- The command that the words of a line tell of. A journal has the names of the functions only, so
what is bound to them comes from elsewhere. -/
def ofWords? (bound : String → UnaryFunction) : List String → Option Command
  | ["variable", name, "=", value] => (Numeral.read value).toOption.map (.addVariable name)
  | ["variable", name, "removed"] => some (.removeVariable name)
  | ["function", name, "added"] => some (.addFunction name (bound name))
  | "expression" :: _ :: "added:" :: source => some (.addExpression (" ".intercalate source))
  | "expression" :: index :: "removed:" :: _ =>
    (Numeral.readNatural? index.toList).map .removeExpression
  | _ => none

def ofText (bound : String → UnaryFunction) (text : String) : List Command :=
  (Text.lines text.toList).filterMap fun line => ofWords? bound (words line)

end Calculator.Command

namespace Record

variable {bound : String → UnaryFunction}

/-- The command that a record is made for. A source that is read is told of twice, and the record
of the reading is passed over. -/
def command? (bound : String → UnaryFunction) : Record → Option Calculator.Command
  | variableAdded name value => some (.addVariable name value)
  | variableRemoved name => some (.removeVariable name)
  | functionAdded name => some (.addFunction name (bound name))
  | expressionAdded _ source => some (.addExpression source)
  | expressionRemoved index _ => some (.removeExpression index)
  | _ => none

/-- The record is one that commands leave, its names end at their blanks, and its message fits into a
line. -/
def Legible : Record → Prop
  | variableAdded name _ | variableRemoved name | functionAdded name => IsWord name
  | parsed source text => '\n' ∉ source.toList ∧ '\n' ∉ text.toList
  | expressionAdded _ source | expressionRemoved _ source => '\n' ∉ source.toList
  | _ => False

section Message

variable (name source text : String) (value : Float) (index : Nat)

lemma toList_parsed : (parsed source text).message.toList =
    "parsed".toList ++ ' ' :: ('\'' :: source.toList ++ "' into ".toList ++ text.toList) := by
  show ("parsed '" ++ source ++ "' into " ++ text).toList = _
  simp

lemma toList_variableAdded : (variableAdded name value).message.toList =
    "variable".toList ++ ' ' :: (name.toList ++ ' ' ::
      ("=".toList ++ ' ' :: (Numeral.display value).toList)) := by
  show ("variable " ++ name ++ " = " ++ Numeral.display value).toList = _
  simp

lemma toList_variableRemoved : (variableRemoved name).message.toList =
    "variable".toList ++ ' ' :: (name.toList ++ ' ' :: "removed".toList) := by
  show ("variable " ++ name ++ " removed").toList = _
  simp

lemma toList_functionAdded : (functionAdded name).message.toList =
    "function".toList ++ ' ' :: (name.toList ++ ' ' :: "added".toList) := by
  show ("function " ++ name ++ " added").toList = _
  simp

lemma toList_expressionAdded : (expressionAdded index source).message.toList =
    "expression".toList ++ ' ' :: ((Nat.repr index).toList ++ ' ' ::
      ("added:".toList ++ ' ' :: source.toList)) := by
  show ("expression " ++ Nat.repr index ++ " added: " ++ source).toList = _
  simp

lemma toList_expressionRemoved : (expressionRemoved index source).message.toList =
    "expression".toList ++ ' ' :: ((Nat.repr index).toList ++ ' ' ::
      ("removed:".toList ++ ' ' :: source.toList)) := by
  show ("expression " ++ Nat.repr index ++ " removed: " ++ source).toList = _
  simp

end Message

section Line

open Calculator.Command (ofWords? ofText)

variable {r : Record}

lemma ofWords?_message (h : r.Legible) :
    ofWords? bound (words r.message.toList) = r.command? bound := by
  cases r with
  | parsed source text =>
    rw [toList_parsed, Text.words_append (by decide)]
    rfl
  | variableAdded name value =>
    have hwords : words (variableAdded name value).message.toList =
        ["variable", name, "=", Numeral.display value] := by
      rw [toList_variableAdded, Text.words_append (by decide), Text.words_append h.space_notMem,
        Text.words_append (by decide), Text.words_single (Numeral.isWord_display value).space_notMem]
    rw [hwords]
    simp [ofWords?, command?, Numeral.read_display, Except.toOption]
  | variableRemoved name =>
    rw [toList_variableRemoved, Text.words_append (by decide), Text.words_append h.space_notMem,
      Text.words_single (by decide)]
    rfl
  | functionAdded name =>
    rw [toList_functionAdded, Text.words_append (by decide), Text.words_append h.space_notMem,
      Text.words_single (by decide)]
    rfl
  | expressionAdded index source =>
    have hsource : " ".intercalate (words source.toList) = source :=
      String.toList_inj.mp (Text.toList_intercalate_words source.toList)
    rw [toList_expressionAdded, Text.words_append (by decide),
      Text.words_append (Numeral.isWord_repr index).space_notMem, Text.words_append (by decide)]
    exact congrArg (some ∘ Calculator.Command.addExpression) hsource
  | expressionRemoved index source =>
    rw [toList_expressionRemoved, Text.words_append (by decide),
      Text.words_append (Numeral.isWord_repr index).space_notMem, Text.words_append (by decide)]
    simp [ofWords?, command?, Numeral.readNatural?_toDigits]
  | shunting | computed | lineRejected => exact h.elim

lemma newline_notMem_message (h : r.Legible) : '\n' ∉ r.message.toList := by
  cases r with
  | parsed source text =>
    rw [toList_parsed]
    simp [h.1, h.2]
  | variableAdded name value =>
    rw [toList_variableAdded]
    simp [h.newline_notMem, (Numeral.isWord_display value).newline_notMem]
  | variableRemoved name =>
    rw [toList_variableRemoved]
    simp [h.newline_notMem]
  | functionAdded name =>
    rw [toList_functionAdded]
    simp [h.newline_notMem]
  | expressionAdded index source =>
    have hsource : '\n' ∉ source.toList := h
    rw [toList_expressionAdded]
    simpa [hsource] using (Numeral.isWord_repr index).newline_notMem
  | expressionRemoved index source =>
    have hsource : '\n' ∉ source.toList := h
    rw [toList_expressionRemoved]
    simpa [hsource] using (Numeral.isWord_repr index).newline_notMem
  | shunting | computed | lineRejected => exact h.elim

/-- The line behind the last record is empty and tells of nothing. -/
theorem ofText_transcript {rs : List Record} (h : ∀ r ∈ rs, r.Legible) :
    ofText bound (transcript rs) = rs.filterMap (command? bound) := by
  induction rs with
  | nil => rfl
  | cons r rs ih =>
    obtain ⟨hr, hrs⟩ := List.forall_mem_cons.mp h
    have hlines : Text.lines (transcript (r :: rs)).toList =
        r.message.toList :: Text.lines (transcript rs).toList := by
      have htext : (transcript (r :: rs)).toList =
          r.message.toList ++ '\n' :: (transcript rs).toList := by
        simp [transcript]
      rw [htext, Text.lines_append_newline, Text.lines_single (newline_notMem_message hr)]
      rfl
    rw [ofText, hlines, List.filterMap_cons, ofWords?_message hr, ← ofText, ih hrs,
      List.filterMap_cons]

end Line

end Record

end Reckoner
