import Mathlib.Tactic.Lemma
import Reckoner.Diagnostic.Pointer

/-! What a source shows at a position. Two cuts of one source are either the same or at
least a whole character apart, although positions are counted in bytes. -/

namespace Reckoner

namespace Text

lemma eq_nil_of_byteSize {cs : List Char} (h : byteSize cs = 0) : cs = [] := by
  cases cs with
  | nil => rfl
  | cons c cs =>
    have hc := c.utf8Size_pos
    rw [byteSize] at h
    omega

lemma append_of_byteSize_le {as bs cs ds : List Char} (h : as ++ bs = cs ++ ds)
    (hle : byteSize as ≤ byteSize cs) : ∃ es, cs = as ++ es ∧ bs = es ++ ds := by
  rcases List.append_eq_append_iff.mp h with ⟨es, hcs, hbs⟩ | ⟨es, has, hds⟩
  · exact ⟨es, hcs, hbs⟩
  · have hes : es = [] := by
      rw [has, byteSize_append] at hle
      exact eq_nil_of_byteSize (by omega)
    subst hes
    exact ⟨[], by simpa using has.symm, by simpa using hds.symm⟩

end Text

namespace Pointer

/-- The source goes on with the text at the position. -/
def Shows (p : Pointer) (text : String) : Prop :=
  ∃ front back, p.source = front ++ text ++ back ∧ front.utf8ByteSize = p.offset

variable {source text : String} {o : Nat} {front cs : List Char} {c : Char}

lemma shows_of_append (front back : List Char)
    (hs : source.toList = front ++ text.toList ++ back) :
    (⟨source, Text.byteSize front⟩ : Pointer).Shows text := by
  refine ⟨String.ofList front, String.ofList back, ?_, ?_⟩
  · apply String.ext
    simpa using hs
  · rw [← Text.byteSize_toList, String.toList_ofList]

lemma Shows.append (h : (⟨source, o⟩ : Pointer).Shows text) :
    ∃ front back, source.toList = front ++ (text.toList ++ back) ∧ Text.byteSize front = o := by
  obtain ⟨front, back, hsource, hsize⟩ := h
  refine ⟨front.toList, back.toList, ?_, by rwa [Text.byteSize_toList]⟩
  rw [← List.append_assoc, ← String.toList_append, ← String.toList_append]
  exact congrArg String.toList hsource

lemma Shows.split (h : (⟨source, o⟩ : Pointer).Shows text) (hs : source.toList = front ++ cs)
    (hle : Text.byteSize front ≤ o) :
    ∃ mid back, cs = mid ++ text.toList ++ back ∧ o = Text.byteSize (front ++ mid) := by
  obtain ⟨before, back, hsource, rfl⟩ := h.append
  obtain ⟨mid, rfl, hcs⟩ := Text.append_of_byteSize_le (hs.symm.trans hsource) hle
  exact ⟨mid, back, by rw [hcs, List.append_assoc], rfl⟩

lemma Shows.here (h : (⟨source, Text.byteSize front⟩ : Pointer).Shows text)
    (hs : source.toList = front ++ cs) : ∃ back, cs = text.toList ++ back := by
  obtain ⟨mid, back, hcs, hsize⟩ := h.split hs (Nat.le_refl _)
  obtain rfl : mid = [] := by
    rw [Text.byteSize_append] at hsize
    exact Text.eq_nil_of_byteSize (by omega)
  exact ⟨back, by simpa using hcs⟩

lemma Shows.beyond (h : (⟨source, o⟩ : Pointer).Shows text) (hs : source.toList = front ++ c :: cs)
    (hlt : Text.byteSize front < o) : Text.byteSize (front ++ [c]) ≤ o := by
  obtain ⟨mid, back, hcs, rfl⟩ := h.split hs (Nat.le_of_lt hlt)
  cases mid with
  | nil => simp at hlt
  | cons d ds =>
    obtain ⟨rfl, -⟩ := List.cons.inj hcs
    simp only [Text.byteSize_append, Text.byteSize]
    omega

lemma Shows.first {p : Pointer} (h : p.Shows (String.ofList (c :: cs))) :
    p.Shows (String.singleton c) := by
  obtain ⟨front, back, hsource, hsize⟩ := h
  refine ⟨front, String.ofList cs ++ back, ?_, hsize⟩
  apply String.ext
  simp [hsource]

end Pointer

end Reckoner
