import Reckoner.Proofs.Token.Segmentation

/-! Blanks around a text and inside it. No lexeme has one, so a text with a blank that is not
skipped has no tokens, and blanks that are skipped change nothing about its tokens. -/

namespace Reckoner

namespace Token

variable {source : String} {offset : Nat} {cs front back : List Char} {ts : List Token}
  {ks : List (Category × String)}

lemma skipped_of_scan (h : scan source offset cs = .ok ts) :
    ∀ c ∈ cs, Text.isBlank c → Lexeme.isSkipped c := by
  fun_induction scan source offset cs generalizing ts with
  | case1 => simp
  | case2 offset c cs hs ih => exact List.forall_mem_cons.mpr ⟨fun _ => hs, ih h⟩
  | case3 => cases h
  | case4 offset c cs hs category hc text =>
    rename_i ih
    obtain ⟨us, hr, -⟩ := Outcome.map_eq_ok.mp h
    have hspells := Lexeme.spells_of_isLexeme (Lexeme.isLexeme_spanTail hc cs)
    have hsplit : c :: cs = text ++ (Lexeme.spanTail category cs).2 := by
      rw [List.cons_append, Lexeme.spanTail_append]
    rw [hsplit]
    intro d hd hblank
    rcases List.mem_append.mp hd with hd | hd
    · rw [hspells.not_blank d hd] at hblank
      cases hblank
    · exact ih hr d hd hblank

lemma Scans.append_skipped (h : Scans cs ks) (hback : ∀ c ∈ back, Lexeme.isSkipped c) :
    Scans (cs ++ back) ks := by
  intro source offset
  obtain ⟨ts, hts, rfl⟩ := h source offset
  obtain ⟨us, hus, hscan⟩ := scan_append hts (fun c hc => hback c (List.mem_of_head? hc)) source offset
  rw [scan_eq_nil_iff.mpr hback] at hscan
  exact ⟨us, by simpa [Except.map] using hscan, hus⟩

lemma Scans.skipped_append (h : Scans cs ks) (hfront : ∀ c ∈ front, Lexeme.isSkipped c) :
    Scans (front ++ cs) ks := by
  induction front with
  | nil => exact h
  | cons c front ih =>
    obtain ⟨hc, hfront⟩ := List.forall_mem_cons.mp hfront
    exact (ih hfront).skipped hc

lemma scan_skipped_append (hfront : ∀ c ∈ front, Lexeme.isSkipped c) (source : String)
    (offset : Nat) (cs : List Char) :
    scan source offset (front ++ cs) = scan source (offset + Text.byteSize front) cs := by
  induction front generalizing offset with
  | nil => rfl
  | cons c front ih =>
    obtain ⟨hc, hfront⟩ := List.forall_mem_cons.mp hfront
    rw [List.cons_append, scan_skipped hc, ih hfront, Text.byteSize, Nat.add_assoc]

/-- Whatever stands behind, a stray character stays stray. -/
lemma exists_scan_of_append (h : scan source offset (cs ++ back) = .ok ts) :
    ∃ us, scan source offset cs = .ok us := by
  cases hcs : scan source offset cs with
  | ok us => exact ⟨us, rfl⟩
  | error e =>
    obtain ⟨front, c, rest, us, rfl, hskipped, hc, -, hscan, hstop⟩ := scan_error hcs
    have herror := scan_stray_append (hscan source) hskipped hc hstop source (rest ++ back)
    rw [List.append_assoc, List.cons_append, herror] at h
    cases h

lemma scans_surrounded_iff (hfront : ∀ c ∈ front, Lexeme.isSkipped c)
    (hback : ∀ c ∈ back, Lexeme.isSkipped c) : Scans (front ++ cs ++ back) ks ↔ Scans cs ks := by
  constructor
  · intro h
    obtain ⟨ts, hts, -⟩ := h "" 0
    rw [List.append_assoc, scan_skipped_append hfront] at hts
    obtain ⟨us, hus⟩ := exists_scan_of_append hts
    have hcs := scans_of_scan hus
    rwa [h.unique ((hcs.skipped_append hfront).append_skipped hback)]
  · intro h
    exact (h.skipped_append hfront).append_skipped hback

end Token

end Reckoner
