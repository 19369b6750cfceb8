import Reckoner.Text.Bytes

/-! A position in an expression, shown as the expression with a caret under it. -/

namespace Reckoner

structure Pointer where
  source : String
  /-- Counted in bytes. -/
  offset : Nat
  deriving DecidableEq

namespace Pointer

def endOf (source : String) : Pointer := ⟨source, Text.byteSize source.toList⟩

def column (p : Pointer) : Nat := (Text.cut p.source p.offset).length

def render (p : Pointer) : String :=
  p.source ++ "\n" ++ String.ofList (List.replicate p.column ' ') ++ "^"

theorem column_eq (p : Pointer) :
    p.column = (Text.takeBytes p.offset p.source.toList).length := by
  rw [column, ← String.length_toList, Text.toList_cut]

end Pointer

end Reckoner
