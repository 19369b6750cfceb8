import Reckoner.Diagnostic.Pointer

/-! Why a text is no expression, and where. -/

namespace Reckoner

inductive ParseFault
  | unknownSymbol (symbol : Char)
  | unknownIdentifier (name : String)
  | unexpectedLexeme (lexeme : String)
  /-- A function name in front of a bracket that calls nothing. -/
  | callBracket (lexeme : String)
  | separatorOutsideBrackets
  | unexpectedEnd
  | missingClosing (opening : Char)
  | unexpectedClosing (closing : Char)
  | mismatch (opening closing : Char)
  deriving DecidableEq

structure ParseError where
  fault : ParseFault
  pointer : Pointer
  deriving DecidableEq

namespace ParseFault

def lexeme? : ParseFault → Option String
  | unexpectedLexeme lexeme | callBracket lexeme => some lexeme
  | separatorOutsideBrackets => some ","
  | _ => none

def message : ParseFault → String
  | unknownSymbol symbol => s!"Unknown symbol '{symbol}'."
  | unknownIdentifier name => s!"Unknown identifier '{name}'."
  | unexpectedLexeme lexeme => s!"Syntax error: unexpected lexeme '{lexeme}'."
  | callBracket lexeme =>
    s!"Syntax error: functions must be called using '(', but found '{lexeme}'."
  | separatorOutsideBrackets => "Syntax error: separator outside of brackets."
  | unexpectedEnd => "Syntax error: unexpected end of expression."
  | missingClosing opening =>
    s!"Mismatched brackets: missing closing bracket for '{opening}'."
  | unexpectedClosing closing =>
    s!"Mismatched brackets: unexpected closing bracket '{closing}'."
  | mismatch opening closing =>
    s!"Mismatched brackets: expected matching for '{opening}', but found '{closing}'."

end ParseFault

def ParseError.message (e : ParseError) : String := e.fault.message ++ "\n" ++ e.pointer.render

end Reckoner
