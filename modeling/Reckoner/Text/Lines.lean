/-! A text cut at its line feeds. -/

namespace Reckoner.Text

/-- There is always one line more than there are line feeds. -/
def lines : List Char → List (List Char)
  | [] => [[]]
  | c :: cs =>
    match c == '\n', lines cs with
    | true, ls => [] :: ls
    | false, [] => [[c]]
    | false, l :: ls => (c :: l) :: ls

theorem lines_append_newline (cs ds : List Char) :
    lines (cs ++ '\n' :: ds) = lines cs ++ lines ds := by
  induction cs with
  | nil => simp [lines]
  | cons c cs ih =>
    simp only [List.cons_append, lines, ih]
    cases c == '\n' <;> cases h : lines cs <;> simp
    cases cs <;> simp [lines] at h
    split at h <;> simp at h

end Reckoner.Text
