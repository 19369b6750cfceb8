import Reckoner.Diagnostic.ParseError
import Reckoner.Token.Basic
import Reckoner.Token.Lexeme

/-! The tokens of a source, with provisional categories. Blanks between lexemes are
skipped, and every other character belongs to exactly one token. -/

namespace Reckoner.Token

/-- The tokens of the rest of a source that begins at a byte offset. -/
def scan (source : String) (offset : Nat) : List Char → Except ParseError (List Token)
  | [] => .ok []
  | c :: cs =>
    if Lexeme.isSkipped c then scan source (offset + c.utf8Size) cs
    else
      match Lexeme.category? c with
      | none => .error ⟨.unknownSymbol c, source, offset⟩
      | some category =>
        let text := c :: (Lexeme.spanTail category cs).1
        (scan source (offset + Text.byteSize text) (Lexeme.spanTail category cs).2).map
          (⟨category, String.ofList text, offset⟩ :: ·)
termination_by cs => cs.length
decreasing_by
  · simp
  · have := Lexeme.length_spanTail_le category cs
    simp only [List.length_cons]
    omega

def tokenize (source : String) : Except ParseError (List Token) := scan source 0 source.toList

theorem scan_nil (source : String) (offset : Nat) : scan source offset [] = .ok [] := by
  rw [scan]

theorem scan_skipped {c : Char} (h : Lexeme.isSkipped c) (source : String) (offset : Nat)
    (cs : List Char) :
    scan source offset (c :: cs) = scan source (offset + c.utf8Size) cs := by
  rw [scan, if_pos h]

theorem scan_stray {c : Char} (h : ¬ Lexeme.isSkipped c) (hc : Lexeme.category? c = none)
    (source : String) (offset : Nat) (cs : List Char) :
    scan source offset (c :: cs) = .error ⟨.unknownSymbol c, source, offset⟩ := by
  rw [scan, if_neg h, hc]

theorem scan_lexeme {c : Char} {category : Category} (h : ¬ Lexeme.isSkipped c)
    (hc : Lexeme.category? c = some category) (source : String) (offset : Nat) (cs : List Char) :
    scan source offset (c :: cs) =
      (scan source (offset + Text.byteSize (c :: (Lexeme.spanTail category cs).1))
        (Lexeme.spanTail category cs).2).map
          (⟨category, String.ofList (c :: (Lexeme.spanTail category cs).1), offset⟩ :: ·) := by
  rw [scan, if_neg h, hc]

end Reckoner.Token
