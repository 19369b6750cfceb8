/-! Positions in a text are counted in the bytes of its UTF-8 form, while a
reader counts characters. A cut at a byte position keeps the characters that end
at or before it: a position inside a character falls back to its start, and one
behind the text to its end. -/

namespace Reckoner.Text

def byteSize : List Char → Nat
  | [] => 0
  | c :: cs => c.utf8Size + byteSize cs

theorem byteSize_append (cs ds : List Char) :
    byteSize (cs ++ ds) = byteSize cs + byteSize ds := by
  induction cs with
  | nil => simp [byteSize]
  | cons c cs ih => simp [byteSize, ih, Nat.add_assoc]

theorem byteSize_toList (s : String) : byteSize s.toList = s.utf8ByteSize := by
  have h (cs : List Char) : byteSize cs = (String.ofList cs).utf8ByteSize := by
    induction cs with
    | nil => simp [byteSize]
    | cons c cs ih =>
      rw [← List.singleton_append, String.ofList_append, String.utf8ByteSize_append, ← ih,
        ← String.singleton_eq_ofList, String.utf8ByteSize_singleton]
      rfl
  rw [h, String.ofList_toList]

/-- The characters that end within the first `n` bytes. -/
def takeBytes : Nat → List Char → List Char
  | _, [] => []
  | n, c :: cs => if c.utf8Size ≤ n then c :: takeBytes (n - c.utf8Size) cs else []

theorem takeBytes_append (cs ds : List Char) (n : Nat) :
    takeBytes (byteSize cs + n) (cs ++ ds) = cs ++ takeBytes n ds := by
  induction cs with
  | nil => simp [byteSize]
  | cons c cs ih =>
    have h : c.utf8Size + byteSize cs + n - c.utf8Size = byteSize cs + n := by omega
    simp [byteSize, takeBytes, Nat.add_assoc, ← ih]

theorem takeBytes_append_eq {cs ds : List Char} {n : Nat} (h : byteSize cs ≤ n)
    (hd : ∀ d rest, ds = d :: rest → n < byteSize cs + d.utf8Size) :
    takeBytes n (cs ++ ds) = cs := by
  obtain ⟨r, rfl⟩ := Nat.exists_eq_add_of_le h
  rw [takeBytes_append]
  cases ds with
  | nil => simp [takeBytes]
  | cons d rest =>
    have hlt := hd d rest rfl
    rw [takeBytes, if_neg (by omega), List.append_nil]

theorem ne_zero_of_not_isValid {s : String} {n : Nat} (h : ¬ String.Pos.Raw.IsValid s ⟨n⟩) :
    n ≠ 0 := by
  rintro rfl
  exact h String.Pos.Raw.isValid_zero

/-- Goes back from a byte to where a character begins or the text ends. -/
def boundaryBefore (s : String) (n : Nat) : s.Pos :=
  if h : String.Pos.Raw.isValid s ⟨n⟩ then ⟨⟨n⟩, String.Pos.Raw.isValid_eq_true_iff.mp h⟩
  else boundaryBefore s (n - 1)
termination_by n
decreasing_by
  have hn := ne_zero_of_not_isValid (mt String.Pos.Raw.isValid_eq_true_iff.mpr h)
  omega

/-- The text in front of a byte, without the character that the byte may be inside. -/
def cut (s : String) (n : Nat) : String :=
  (s.sliceTo (boundaryBefore s (min n s.utf8ByteSize))).copy

theorem exists_steps_boundaryBefore (s : String) (n : Nat) :
    ∃ steps, steps ≤ n ∧ (boundaryBefore s n).offset.byteIdx = n - steps ∧
      ∀ i < steps, ¬ String.Pos.Raw.IsValid s ⟨n - i⟩ := by
  fun_induction boundaryBefore s n with
  | case1 n h => exact ⟨0, Nat.zero_le n, rfl, by simp⟩
  | case2 n h ih =>
    rw [String.Pos.Raw.isValid_eq_true_iff] at h
    have hn := ne_zero_of_not_isValid h
    obtain ⟨steps, hle, hoffset, hsteps⟩ := ih
    refine ⟨steps + 1, by omega, by omega, fun i hi => ?_⟩
    cases i with
    | zero => exact h
    | succ i =>
      have hback : n - (i + 1) = n - 1 - i := by omega
      exact hback ▸ hsteps i (by omega)

theorem not_isValid_of_boundaryBefore_lt {s : String} {n m : Nat}
    (h : (boundaryBefore s n).offset.byteIdx < m) (hle : m ≤ n) :
    ¬ String.Pos.Raw.IsValid s ⟨m⟩ := by
  obtain ⟨steps, -, hoffset, hsteps⟩ := exists_steps_boundaryBefore s n
  have hm : n - (n - m) = m := by omega
  exact hm ▸ hsteps (n - m) (by omega)

theorem toList_sliceTo {s : String} (p : s.Pos) :
    byteSize (s.sliceTo p).copy.toList = p.offset.byteIdx ∧
      ∃ rest, s.toList = (s.sliceTo p).copy.toList ++ rest := by
  constructor
  · rw [byteSize_toList, p.splits.offset_eq_rawEndPos, String.byteIdx_rawEndPos]
  · exact ⟨_, (congrArg String.toList p.splits.eq_append).trans String.toList_append⟩

theorem isValid_byteSize {s : String} {cs ds : List Char} (h : s.toList = cs ++ ds) :
    String.Pos.Raw.IsValid s ⟨byteSize cs⟩ ∧ byteSize cs ≤ s.utf8ByteSize := by
  constructor
  · refine String.Pos.Raw.isValid_iff_exists_append.mpr ⟨String.ofList cs, String.ofList ds, ?_, ?_⟩
    · rw [← String.ofList_append, ← h, String.ofList_toList]
    · rw [← String.toList_ofList (l := cs), byteSize_toList, String.toList_ofList]
      rfl
  · rw [← byteSize_toList, h, byteSize_append]
    exact Nat.le_add_right _ _

theorem toList_cut (s : String) (n : Nat) : (cut s n).toList = takeBytes n s.toList := by
  obtain ⟨steps, -, hoffset, -⟩ := exists_steps_boundaryBefore s (min n s.utf8ByteSize)
  obtain ⟨hsize, rest, hs⟩ := toList_sliceTo (boundaryBefore s (min n s.utf8ByteSize))
  rw [← cut] at hsize hs
  rw [hs, takeBytes_append_eq (by omega)]
  rintro d rest rfl
  -- the next character would otherwise end at a boundary further on
  apply Nat.lt_of_not_le
  intro hfits
  have hd := d.utf8Size_pos
  have hnext : s.toList = ((cut s n).toList ++ [d]) ++ rest := by simpa using hs
  obtain ⟨hvalid, hle⟩ := isValid_byteSize hnext
  simp only [byteSize_append, byteSize] at hvalid hle
  refine not_isValid_of_boundaryBefore_lt (n := min n s.utf8ByteSize) ?_ ?_ hvalid <;> omega

end Reckoner.Text
