import Reckoner.Proofs.Text.Pieces
import Reckoner.Proofs.Token.Segmentation

/-! Names as the scanner sees them. A name is a text that the scanner takes as one identifier
from its first byte to its last, and then it finds nothing more. -/

namespace Reckoner

/-- An ASCII letter. -/
def Lexeme.IsAsciiLetter (c : Char) : Prop := 'A' ≤ c ∧ c ≤ 'Z' ∨ 'a' ≤ c ∧ c ≤ 'z'

/-- A letter or an underscore, and behind it letters, digits and underscores. -/
def Lexeme.IsName (cs : List Char) : Prop :=
  ∃ c tail, cs = c :: tail ∧ (IsAsciiLetter c ∨ c = '_') ∧
    ∀ d ∈ tail, IsAsciiLetter d ∨ '0' ≤ d ∧ d ≤ '9' ∨ d = '_'

namespace Lexeme

variable {c : Char} {cs : List Char} {name : String}

lemma isAlpha_iff : c.isAlpha ↔ IsAsciiLetter c := by
  show (decide (c.val ≥ 'A'.val ∧ c.val ≤ 'Z'.val) ||
    decide (c.val ≥ 'a'.val) && decide (c.val ≤ 'z'.val)) = true ↔ IsAsciiLetter c
  simp [IsAsciiLetter, Char.le_def]

lemma isLetter_iff : isLetter c ↔ IsAsciiLetter c ∨ c = '_' := by
  simp [isLetter, isAlpha_iff]

lemma isWordChar_iff : isWordChar c ↔ IsAsciiLetter c ∨ '0' ≤ c ∧ c ≤ '9' ∨ c = '_' := by
  simp [isWordChar, Char.isAlphanum, isAlpha_iff, Char.isDigit, Char.le_def, or_assoc]

lemma spells_identifier_iff : Spells .identifier cs ↔
    ∃ c tail, cs = c :: tail ∧ isLetter c ∧ ∀ d ∈ tail, isWordChar d := by
  constructor
  · intro h
    cases h with
    | word hc htail => exact ⟨_, _, rfl, hc, htail⟩
    | sign hs => cases hs
  · rintro ⟨c, tail, rfl, hc, htail⟩
    exact .word hc htail

lemma isIdentifier_iff_spells : isIdentifier name ↔ Spells .identifier name.toList := by
  rw [spells_identifier_iff, isIdentifier]
  cases name.toList <;> simp

lemma isWord_of_isIdentifier (h : isIdentifier name) : Text.IsWord name :=
  (isIdentifier_iff_spells.mp h).not_blank

lemma isIdentifier_iff_isName : isIdentifier name ↔ IsName name.toList := by
  rw [isIdentifier_iff_spells, spells_identifier_iff]
  simp only [isLetter_iff, isWordChar_iff, IsName]

end Lexeme

namespace Token

/-- What the scanner meets next. -/
inductive Next
  | finished
  | stray (c : Char) (offset : Nat)
  | lexeme (t : Token) (rest : List Char)

/-- The first lexeme behind what is skipped, and what stands behind the lexeme. -/
def next (offset : Nat) : List Char → Next
  | [] => .finished
  | c :: cs =>
    if Lexeme.isSkipped c then next (offset + c.utf8Size) cs
    else
      match Lexeme.category? c with
      | none => .stray c offset
      | some category =>
        .lexeme ⟨category, String.ofList (c :: (Lexeme.spanTail category cs).1), offset⟩
          (Lexeme.spanTail category cs).2

/-- The first lexeme is an identifier that spans the name, and nothing comes after it. -/
def SpansName (name : String) : Prop :=
  ∃ t rest, next 0 name.toList = .lexeme t rest ∧ t.category = .identifier ∧ t.offset = 0 ∧
    t.stop = name.utf8ByteSize ∧ next t.stop rest = .finished

variable {source name : String} {offset : Nat} {cs rest : List Char} {t : Token}

lemma scan_eq_next (source : String) (offset : Nat) (cs : List Char) : scan source offset cs =
    match next offset cs with
    | .finished => .ok []
    | .stray c o => .error ⟨.unknownSymbol c, source, o⟩
    | .lexeme t rest => (scan source t.stop rest).map (t :: ·) := by
  fun_induction next offset cs with
  | case1 offset => exact scan_nil source offset
  | case2 offset c cs hs ih => rw [scan_skipped hs, ih]
  | case3 offset c cs hs hc => exact scan_stray hs hc source offset cs
  | case4 offset c cs hs category hc =>
    rw [scan_lexeme hs hc]
    simp only [stop, ← Text.byteSize_toList, String.toList_ofList]

lemma next_lexeme (h : next offset cs = .lexeme t rest) : t.Spelled ∧
    ∃ front, cs = front ++ (t.text.toList ++ rest) ∧ t.offset = offset + Text.byteSize front := by
  fun_induction next offset cs with
  | case1 => cases h
  | case2 offset c cs hs ih =>
    obtain ⟨hspelled, front, rfl, hoffset⟩ := ih h
    exact ⟨hspelled, c :: front, rfl, by rw [hoffset, Text.byteSize, Nat.add_assoc]⟩
  | case3 => cases h
  | case4 offset c cs hs category hc =>
    cases h
    refine ⟨⟨c, _, rfl, Lexeme.isLexeme_spanTail hc cs⟩, [], ?_, rfl⟩
    simp [Lexeme.spanTail_append]

lemma next_identifier (h : Lexeme.isIdentifier name) (offset : Nat) :
    next offset name.toList = .lexeme ⟨.identifier, name, offset⟩ [] := by
  obtain ⟨c, tail, htext, hc, htail⟩ :=
    Lexeme.spells_identifier_iff.mp (Lexeme.isIdentifier_iff_spells.mp h)
  have hlexeme := Lexeme.isLexeme_word hc htail
  have hspan : Lexeme.spanTail .identifier tail = (tail, []) := by
    simpa using Lexeme.spanTail_append_of_stopsAt hlexeme.spanTail_tail (Lexeme.stopsAt_nil _ _)
  rw [htext, next, if_neg hlexeme.not_skipped, hlexeme.category_first]
  simp only [hspan, ← htext, String.ofList_toList]

lemma spansName_of_isIdentifier (h : Lexeme.isIdentifier name) : SpansName name := by
  refine ⟨_, [], next_identifier h 0, rfl, rfl, ?_, rfl⟩
  rw [stop, Nat.zero_add]

/-- The whole name is the identifier, since the lexeme begins and ends where the name does. -/
lemma SpansName.tokenize (h : SpansName name) : tokenize name = .ok [⟨.identifier, name, 0⟩] := by
  obtain ⟨t, rest, hnext, hcategory, hoffset, hstop, hfinished⟩ := h
  obtain ⟨-, front, hname, hfront⟩ := next_lexeme hnext
  obtain rfl : front = [] := Text.eq_nil_of_byteSize (by omega)
  have hsize := congrArg Text.byteSize hname
  rw [List.nil_append, Text.byteSize_append, Text.byteSize_toList, Text.byteSize_toList] at hsize
  obtain rfl : rest = [] := Text.eq_nil_of_byteSize (by rw [stop] at hstop; omega)
  have htext : name = t.text := String.ext (by simpa using hname)
  have ht : t = ⟨.identifier, name, 0⟩ := by
    cases t
    simp_all
  rw [Token.tokenize, scan_eq_next, hnext]
  simp only [scan_nil, ht, Except.map]

lemma Spelled.isWord (h : t.Spelled) : Text.IsWord t.text := by
  obtain ⟨c, tail, htext, hlexeme⟩ := h
  rw [htext, Text.IsWord, String.toList_ofList]
  exact (Lexeme.spells_of_isLexeme hlexeme).not_blank

lemma Spelled.isIdentifier (h : t.Spelled) (hc : t.category = .identifier) :
    Lexeme.isIdentifier t.text := by
  obtain ⟨c, tail, htext, hlexeme⟩ := h
  rw [Lexeme.isIdentifier_iff_spells, htext, String.toList_ofList, ← hc]
  exact Lexeme.spells_of_isLexeme hlexeme

lemma isIdentifier_of_tokenize (h : Token.tokenize name = .ok [⟨.identifier, name, 0⟩]) :
    Lexeme.isIdentifier name :=
  (spelled_of_tokenize h _ (List.mem_singleton_self _)).isIdentifier rfl

end Token

end Reckoner
