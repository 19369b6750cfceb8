import Reckoner.Proofs.Token.Kind

/-! The column of a caret. Going back from any byte comes to a boundary between two characters,
and the column counts the characters in front of it, however wide they are. -/

namespace Reckoner

namespace Text

lemma byteSize_take_succ (c : Char) (cs : List Char) (k : Nat) :
    byteSize ((c :: cs).take (k + 1)) = c.utf8Size + byteSize (cs.take k) := by
  rw [List.take_succ_cons, byteSize]

lemma length_takeBytes (n : Nat) (cs : List Char) :
    (takeBytes n cs).length =
      (List.range cs.length).countP fun k => byteSize (cs.take (k + 1)) ≤ n := by
  induction cs generalizing n with
  | nil => rfl
  | cons c cs ih =>
    rw [takeBytes, List.length_cons, List.range_succ_eq_map, List.countP_cons, List.countP_map]
    simp only [Function.comp_def, byteSize_take_succ]
    by_cases hc : c.utf8Size ≤ n
    · have hshift (k : Nat) : c.utf8Size + byteSize (cs.take (k + 1)) ≤ n ↔
          byteSize (cs.take (k + 1)) ≤ n - c.utf8Size := by
        omega
      simp [hc, ih, byteSize, hshift]
    · have hbehind (k : Nat) : ¬ c.utf8Size + byteSize (cs.take k) ≤ n := by omega
      simp [hc, byteSize, hbehind]

lemma byteSize_take_le (cs : List Char) (k : Nat) : byteSize (cs.take k) ≤ byteSize cs := by
  have hsplit := byteSize_append (cs.take k) (cs.drop k)
  rw [List.take_append_drop] at hsplit
  omega

lemma takeBytes_of_le {cs : List Char} {n : Nat} (h : byteSize cs ≤ n) : takeBytes n cs = cs := by
  have hfront : takeBytes n (cs ++ []) = cs := takeBytes_append_eq h (by simp)
  rwa [List.append_nil] at hfront

end Text

namespace Pointer

variable (source : String)

lemma exists_splits_column (o : Nat) : ∃ front back,
    (Text.boundaryBefore source (min o source.utf8ByteSize)).Splits front back ∧
      (⟨source, o⟩ : Pointer).column = front.length :=
  ⟨_, _, (Text.boundaryBefore source (min o source.utf8ByteSize)).splits, rfl⟩

lemma column_eq_countP (o : Nat) : (⟨source, o⟩ : Pointer).column =
    (List.range source.length).countP fun k =>
      Text.byteSize (source.toList.take (k + 1)) ≤ min o source.utf8ByteSize := by
  rw [column_eq, Text.length_takeBytes, String.length_toList]
  refine List.countP_congr fun k _ => ?_
  have hle := Text.byteSize_take_le source.toList (k + 1)
  rw [Text.byteSize_toList] at hle
  simp only [decide_eq_true_eq]
  omega

lemma column_le_column {o o' : Nat} (h : o ≤ o') :
    (⟨source, o⟩ : Pointer).column ≤ (⟨source, o'⟩ : Pointer).column := by
  simp only [column_eq, Text.length_takeBytes]
  refine List.countP_mono_left fun k _ hk => ?_
  exact decide_eq_true (Nat.le_trans (of_decide_eq_true hk) h)

lemma column_start {k : Nat} (hk : k ≤ source.length) :
    (⟨source, Text.byteSize (source.toList.take k)⟩ : Pointer).column = k := by
  have hfront := Token.takeBytes_front (source.toList.take k) (source.toList.drop k)
  rw [List.take_append_drop] at hfront
  rw [column_eq, hfront, List.length_take, String.length_toList, Nat.min_eq_left hk]

lemma column_end {o : Nat} (h : source.utf8ByteSize ≤ o) :
    (⟨source, o⟩ : Pointer).column = source.length := by
  rw [column_eq, Text.takeBytes_of_le (by rwa [Text.byteSize_toList]), String.length_toList]

theorem column_exact (source : String) :
    (∀ o n, n = min o source.utf8ByteSize → ∃ front back steps,
      (Text.boundaryBefore source n).Splits front back ∧
      steps ≤ n ∧ front.utf8ByteSize = n - steps ∧
      (∀ i < steps, ¬ String.Pos.Raw.IsValid source ⟨n - i⟩) ∧
      (⟨source, o⟩ : Pointer).column = front.length) ∧
    (∀ o, (⟨source, o⟩ : Pointer).column = (List.range source.length).countP fun k =>
      Text.byteSize (source.toList.take (k + 1)) ≤ min o source.utf8ByteSize) ∧
    (∀ o o', o ≤ o' → (⟨source, o⟩ : Pointer).column ≤ (⟨source, o'⟩ : Pointer).column) ∧
    (∀ k < source.length, (⟨source, Text.byteSize (source.toList.take k)⟩ : Pointer).column = k) ∧
    ∀ o, source.utf8ByteSize ≤ o → (⟨source, o⟩ : Pointer).column = source.length := by
  refine ⟨?_, column_eq_countP source, fun o o' => column_le_column source,
    fun k hk => column_start source (Nat.le_of_lt hk), fun o => column_end source⟩
  rintro o n rfl
  obtain ⟨front, back, hsplits, hcolumn⟩ := exists_splits_column source o
  obtain ⟨steps, hle, hoffset, hsteps⟩ :=
    Text.exists_steps_boundaryBefore source (min o source.utf8ByteSize)
  have hsize : front.utf8ByteSize = min o source.utf8ByteSize - steps := by
    rw [← hoffset, hsplits.offset_eq_rawEndPos, String.byteIdx_rawEndPos]
  exact ⟨front, back, steps, hsplits, hle, hsize, hsteps, hcolumn⟩

/-- The third byte of the second character, and a byte far behind the text. -/
theorem column_exact_wide :
    (⟨"é€", 4⟩ : Pointer).column = 1 ∧ (⟨"é€", 9⟩ : Pointer).column = 2 := by
  obtain ⟨-, hcount, -, -, hend⟩ := column_exact "é€"
  exact ⟨(hcount 4).trans (by decide), hend 9 (by decide)⟩

end Pointer

end Reckoner
