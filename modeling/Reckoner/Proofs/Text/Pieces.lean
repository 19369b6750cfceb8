import Mathlib.Data.List.Basic
import Mathlib.Data.String.Basic
import Mathlib.Tactic.Lemma
import Reckoner.Text.Blank
import Reckoner.Text.Lines

/-! Texts put together of pieces. A mark that is in no piece shows where the pieces end, so that the
text gives the pieces away. -/

namespace Reckoner.Text

section Mark

variable {α : Type} {mark : α} {xs ys us vs : List α}

lemma eq_of_append_cons (hx : mark ∉ xs) (hy : mark ∉ ys) (h : xs ++ mark :: us = ys ++ mark :: vs) :
    xs = ys ∧ us = vs := by
  induction xs generalizing ys with
  | nil =>
    cases ys with
    | nil => exact ⟨rfl, (List.cons.inj h).2⟩
    | cons y ys => exact absurd (List.mem_cons.mpr (.inl (List.cons.inj h).1)) hy
  | cons x xs ih =>
    cases ys with
    | nil => exact absurd (List.mem_cons.mpr (.inl (List.cons.inj h).1.symm)) hx
    | cons y ys =>
      obtain ⟨rfl, htail⟩ := List.cons.inj h
      obtain ⟨rfl, rfl⟩ :=
        ih (List.not_mem_of_not_mem_cons hx) (List.not_mem_of_not_mem_cons hy) htail
      exact ⟨rfl, rfl⟩

lemma map_eq_of_map_eq {β γ : Type} {f : α → β} {g : α → γ}
    (hfg : ∀ x ∈ xs, ∀ y ∈ ys, f x = f y → g x = g y) (h : xs.map f = ys.map f) :
    xs.map g = ys.map g := by
  induction xs generalizing ys with
  | nil =>
    obtain rfl := List.map_eq_nil_iff.mp h.symm
    rfl
  | cons x xs ih =>
    obtain ⟨y, ys, rfl, hy, hys⟩ := List.map_eq_cons_iff.mp h.symm
    rw [List.map_cons, List.map_cons, hfg x (by simp) y (by simp) hy.symm,
      ih (fun x hx y hy => hfg x (by simp [hx]) y (by simp [hy])) hys.symm]

end Mark

variable {mark : Char} {ending : String} {xs ys : List String}

lemma eq_of_join (hmark : ending.toList = [mark]) (hx : ∀ x ∈ xs, mark ∉ x.toList)
    (hy : ∀ y ∈ ys, mark ∉ y.toList)
    (h : String.join (xs.map (· ++ ending)) = String.join (ys.map (· ++ ending))) : xs = ys := by
  have hlist {zs : List String} : (String.join (zs.map (· ++ ending))).toList =
      zs.flatMap fun z => z.toList ++ [mark] := by
    simp [String.toList_join, List.flatMap_map, hmark]
  have hchars := congrArg String.toList h
  rw [hlist, hlist] at hchars
  clear h
  induction xs generalizing ys with
  | nil =>
    cases ys with
    | nil => rfl
    | cons y ys => simp at hchars
  | cons x xs ih =>
    cases ys with
    | nil => simp at hchars
    | cons y ys =>
      obtain ⟨hx, hxs⟩ := List.forall_mem_cons.mp hx
      obtain ⟨hy, hys⟩ := List.forall_mem_cons.mp hy
      obtain ⟨hhead, htail⟩ := eq_of_append_cons hx hy (by simpa using hchars)
      rw [String.toList_inj.mp hhead, ih hxs hys htail]

/-- The pieces between the spaces, of which there is one more than there are spaces. -/
def words (cs : List Char) : List String := (cs.splitOn ' ').map String.ofList

section Words

variable {word : String}

lemma words_append (h : ' ' ∉ word.toList) (cs : List Char) :
    words (word.toList ++ ' ' :: cs) = word :: words cs := by
  rw [words, List.splitOn_append_cons_self_of_not_mem h, List.map_cons, String.ofList_toList, words]

lemma words_single (h : ' ' ∉ word.toList) : words word.toList = [word] := by
  rw [words, List.splitOn_eq_singleton h, List.map_singleton, String.ofList_toList]

lemma toList_intercalate_words (cs : List Char) : (" ".intercalate (words cs)).toList = cs := by
  simp [words, Function.comp_def, List.intercalate_splitOn]

lemma words_intercalate (hx : ∀ x ∈ xs, ' ' ∉ x.toList) (hxs : xs ≠ []) :
    words (" ".intercalate xs).toList = xs := by
  have hsplit : ((" ".toList).intercalate (xs.map String.toList)).splitOn ' ' =
      xs.map String.toList :=
    List.splitOn_intercalate ' ' (by simpa using hx) (by simpa using hxs)
  rw [words, String.toList_intercalate, hsplit, List.map_map]
  simp [Function.comp_def]

end Words

lemma mem_of_mem_intercalate {c : Char} (h : c ∈ (ending.intercalate xs).toList) :
    c ∈ ending.toList ∨ ∃ x ∈ xs, c ∈ x.toList := by
  induction xs with
  | nil => simp at h
  | cons x xs ih =>
    cases xs with
    | nil => exact .inr ⟨x, by simp, by simpa using h⟩
    | cons y ys =>
      simp only [String.intercalate_cons_cons, String.toList_append, List.mem_append] at h
      rcases h with (h | h) | h
      · exact .inr ⟨x, by simp, h⟩
      · exact .inl h
      · exact (ih h).imp_right fun ⟨z, hz, hc⟩ => ⟨z, List.mem_cons_of_mem _ hz, hc⟩

lemma lines_single {cs : List Char} (h : '\n' ∉ cs) : lines cs = [cs] := by
  induction cs with
  | nil => rfl
  | cons c cs ih =>
    obtain ⟨hc, hcs⟩ := not_or.mp (List.mem_cons.not.mp h)
    have hc : (c == '\n') = false := by simpa using Ne.symm hc
    simp [lines, ih hcs, hc]

/-- No blank is in the text, so a blank ends it. -/
def IsWord (text : String) : Prop := ∀ c ∈ text.toList, isBlank c = false

section IsWord

variable {text : String} (h : IsWord text)
include h

lemma IsWord.blank_notMem {c : Char} (hc : isBlank c) : c ∉ text.toList := by
  intro hmem
  rw [h c hmem] at hc
  cases hc

lemma IsWord.space_notMem : ' ' ∉ text.toList := h.blank_notMem rfl

lemma IsWord.newline_notMem : '\n' ∉ text.toList := h.blank_notMem rfl

end IsWord

end Reckoner.Text
