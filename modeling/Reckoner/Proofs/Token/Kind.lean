import Reckoner.Proofs.Token.Spelling

/-! The kinds of the tokens of a text. They depend neither on the place of the text in a
source nor on what is skipped around it. -/

namespace Reckoner

namespace Lexeme

lemma spanTail_append_skipped (category : Category) (cs : List Char) {rest : List Char}
    (hr : ∀ c, rest.head? = some c → isSkipped c) :
    spanTail category (cs ++ rest) = ((spanTail category cs).1, (spanTail category cs).2 ++ rest) := by
  have hstop : StopsAt category (spanTail category cs).1 ((spanTail category cs).2 ++ rest) := by
    have hcs := stopsAt_spanTail category cs
    cases hback : (spanTail category cs).2 with
    | cons d ds =>
      rw [hback] at hcs
      exact hcs
    | nil =>
      cases rest with
      | nil => exact stopsAt_nil _ _
      | cons d ds => exact stopsAt_skipped _ _ _ (hr d rfl)
  have h := spanTail_append_of_stopsAt (spanTail_spanTail category cs) hstop
  rwa [← List.append_assoc, spanTail_append] at h

end Lexeme

namespace Token

def kind (t : Token) : Category × String := (t.category, t.text)

/-- The tokens of the text have these kinds wherever the text begins. -/
def Scans (cs : List Char) (ks : List (Category × String)) : Prop :=
  ∀ source offset, ∃ ts, scan source offset cs = .ok ts ∧ ts.map kind = ks

variable {source : String} {offset : Nat} {cs ds : List Char} {ts : List Token}
  {ks ls : List (Category × String)}

lemma scans_nil : Scans [] [] := fun source offset => ⟨[], scan_nil source offset, rfl⟩

lemma Scans.unique (h : Scans cs ks) (h' : Scans cs ls) :
    ks = ls := by
  obtain ⟨ts, hts, rfl⟩ := h "" 0
  obtain ⟨us, hus, rfl⟩ := h' "" 0
  rw [Except.ok.inj (hts.symm.trans hus)]

lemma Scans.skipped {c : Char} (hc : Lexeme.isSkipped c) (h : Scans cs ks) : Scans (c :: cs) ks := by
  intro source offset
  rw [scan_skipped hc]
  exact h _ _

lemma Scans.lexeme {c : Char} {tail : List Char} {category : Category}
    (hl : Lexeme.IsLexeme category c tail) (hs : Lexeme.StopsAt category tail cs) (h : Scans cs ks) :
    Scans (c :: (tail ++ cs)) ((category, String.ofList (c :: tail)) :: ks) := by
  intro source offset
  obtain ⟨ts, hts, hks⟩ := h source (offset + Text.byteSize (c :: tail))
  rw [scan_lexeme hl.not_skipped hl.category_first, Lexeme.spanTail_append_of_stopsAt hl.spanTail_tail hs,
    hts]
  exact ⟨_, rfl, by simp [kind, hks]⟩

lemma Spelled.scans {t : Token} (ht : t.Spelled) : Scans t.text.toList [t.kind] := by
  obtain ⟨c, tail, htext, hl⟩ := ht
  have h := Scans.lexeme hl (Lexeme.stopsAt_nil _ _) scans_nil
  simpa [kind, htext] using h

lemma scan_eq_nil_iff : scan source offset cs = .ok [] ↔ ∀ c ∈ cs, Lexeme.isSkipped c := by
  fun_induction scan source offset cs with
  | case1 => simp
  | case2 offset c cs hs ih => simpa [hs] using ih
  | case3 offset c cs hs => simp [hs]
  | case4 offset c cs hs => simp [hs]

lemma tokenize_eq_nil_iff : tokenize source = .ok [] ↔ ∀ c ∈ source.toList, Lexeme.isSkipped c :=
  scan_eq_nil_iff

lemma scan_append (h : scan source offset cs = .ok ts)
    (hd : ∀ c, ds.head? = some c → Lexeme.isSkipped c) (source' : String) (offset' : Nat) :
    ∃ us, us.map kind = ts.map kind ∧ scan source' offset' (cs ++ ds) =
      (scan source' (offset' + Text.byteSize cs) ds).map (us ++ ·) := by
  fun_induction scan source offset cs generalizing ts offset' with
  | case1 =>
    obtain rfl : [] = ts := Except.ok.inj h
    refine ⟨[], rfl, ?_⟩
    cases hs : scan source' offset' ds <;> simp [hs, Text.byteSize, Except.map]
  | case2 offset c cs hs ih =>
    obtain ⟨us, hus, hscan⟩ := ih h (offset' + c.utf8Size)
    refine ⟨us, hus, ?_⟩
    rw [List.cons_append, scan_skipped hs, hscan, Text.byteSize, Nat.add_assoc]
  | case3 => cases h
  | case4 offset c cs hs category hc text =>
    rename_i ih
    obtain ⟨ts', hr, rfl⟩ := Outcome.map_eq_ok.mp h
    obtain ⟨us, hus, hscan⟩ := ih hr (offset' + Text.byteSize text)
    refine ⟨⟨category, String.ofList text, offset'⟩ :: us, by simp [kind, hus], ?_⟩
    have hsize : Text.byteSize (c :: cs) =
        Text.byteSize text + Text.byteSize (Lexeme.spanTail category cs).2 := by
      rw [← Text.byteSize_append, List.cons_append, Lexeme.spanTail_append]
    rw [List.cons_append, scan_lexeme hs hc, Lexeme.spanTail_append_skipped category cs hd, hscan,
      hsize, Nat.add_assoc]
    cases scan source' (offset' + (Text.byteSize text +
      Text.byteSize (Lexeme.spanTail category cs).2)) ds <;> rfl

lemma head_space (ds : List Char) : ∀ c, (' ' :: ds).head? = some c → Lexeme.isSkipped c := by
  intro c hc
  obtain rfl : ' ' = c := by simpa using hc
  rfl

lemma scans_of_scan (h : scan source offset cs = .ok ts) : Scans cs (ts.map kind) := by
  intro source' offset'
  obtain ⟨us, hus, hscan⟩ := scan_append h (by simp : ∀ c, ([] : List Char).head? = some c → _)
    source' offset'
  rw [List.append_nil, scan_nil] at hscan
  exact ⟨us, by simpa [Except.map] using hscan, hus⟩

lemma Scans.space (h : Scans cs ks) (hd : Scans ds ls) : Scans (cs ++ ' ' :: ds) (ks ++ ls) := by
  intro source offset
  obtain ⟨ts, hts, rfl⟩ := h source offset
  obtain ⟨us, hus, hscan⟩ := scan_append hts (head_space ds) source offset
  obtain ⟨vs, hvs, rfl⟩ := hd.skipped (c := ' ') rfl source (offset + Text.byteSize cs)
  rw [hvs] at hscan
  exact ⟨us ++ vs, hscan, by simp [hus]⟩

lemma Scans.front (h : Scans cs ks) (hd : Scans (cs ++ ' ' :: ds) ls) : ∃ ms, ls = ks ++ ms := by
  obtain ⟨ts, hts, rfl⟩ := h "" 0
  obtain ⟨us, hus, hscan⟩ := scan_append hts (head_space ds) "" 0
  obtain ⟨vs, hvs, rfl⟩ := hd "" 0
  rw [hvs] at hscan
  generalize scan "" (0 + Text.byteSize cs) (' ' :: ds) = r at hscan
  cases r with
  | error e => cases hscan
  | ok ws =>
    obtain rfl : vs = us ++ ws := Except.ok.inj hscan
    exact ⟨ws.map kind, by simp [hus]⟩

lemma scans_intercalate {α : Type} {f : α → String} {g : α → List (Category × String)} {l : List α}
    (h : ∀ a ∈ l, Scans (f a).toList (g a)) :
    Scans (" ".intercalate (l.map f)).toList (l.flatMap g) := by
  induction l with
  | nil => exact scans_nil
  | cons a l ih =>
    have hfirst := h a (by simp)
    have hrest := ih fun b hb => h b (by simp [hb])
    cases l with
    | nil => simpa using hfirst
    | cons b l =>
      rw [List.map_cons, List.map_cons, String.intercalate_cons_cons]
      simpa using hfirst.space hrest

section Prefix

variable {before after : List Token} {t : Token}

lemma takeBytes_front (cs ds : List Char) : Text.takeBytes (Text.byteSize cs) (cs ++ ds) = cs :=
  Text.takeBytes_append_eq (Nat.le_refl _) fun d _ _ => Nat.lt_add_of_pos_right d.utf8Size_pos

lemma scans_front (h : scan source offset cs = .ok (before ++ t :: after)) :
    ∃ front back, cs = front ++ back ∧ t.offset = offset + Text.byteSize front ∧
      Scans front (before.map kind) := by
  fun_induction scan source offset cs generalizing before with
  | case1 => simp at h
  | case2 offset c cs hs ih =>
    obtain ⟨front, back, rfl, hoffset, hfront⟩ := ih h
    refine ⟨c :: front, back, rfl, ?_, hfront.skipped hs⟩
    rw [hoffset, Text.byteSize, Nat.add_assoc]
  | case3 => cases h
  | case4 offset c cs hs category hc text =>
    rename_i ih
    obtain ⟨us, hr, hts⟩ := Outcome.map_eq_ok.mp h
    cases before with
    | nil =>
      obtain ⟨rfl, -⟩ := List.cons.inj hts
      exact ⟨[], c :: cs, rfl, rfl, scans_nil⟩
    | cons b bs =>
      obtain ⟨rfl, rfl⟩ := List.cons.inj hts
      obtain ⟨front, back, hcs, hoffset, hfront⟩ := ih hr
      have hstop : Lexeme.StopsAt category (Lexeme.spanTail category cs).1 front := by
        have hspan := Lexeme.stopsAt_spanTail category cs
        intro d hd
        cases front with
        | nil => cases hd
        | cons f fs => exact hspan d (by simpa [hcs] using hd)
      refine ⟨text ++ front, back, ?_, ?_, ?_⟩
      · rw [List.append_assoc, ← hcs, List.cons_append, Lexeme.spanTail_append]
      · rw [hoffset, Text.byteSize_append, Nat.add_assoc]
      · exact Scans.lexeme (Lexeme.isLexeme_spanTail hc cs) hstop hfront

end Prefix

end Token

end Reckoner
