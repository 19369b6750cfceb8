import Mathlib.Data.List.Basic
import Reckoner.Proofs.Diagnostic.Place
import Reckoner.Proofs.Token.Kind
import Reckoner.Proofs.Token.Lexeme

/-! Scanning as a division of the source. The tokens are lexemes that are as long as they
can be, in the order of the source, and blanks are all that stands between them. A source
that has no such division has a first character that belongs to no lexeme. -/

namespace Reckoner

namespace Token

/-- The byte behind the token. -/
def stop (t : Token) : Nat := t.offset + t.text.utf8ByteSize

/-- The token is a piece of the source and a lexeme of its category, and with the character
behind it it would be none. -/
structure IsPiece (source : String) (t : Token) : Prop where
  shown : (⟨source, t.offset⟩ : Pointer).Shows t.text
  spelled : Lexeme.Spells t.category t.text.toList
  longest : ∀ c, (⟨source, t.offset⟩ : Pointer).Shows (t.text.push c) →
    ¬ Lexeme.Spells t.category (t.text.push c).toList

/-- The tokens divide the source from a byte on. -/
structure Segments (source : String) (start : Nat) (ts : List Token) : Prop where
  behind : ∀ t ∈ ts, start ≤ t.offset
  ordered : ts.Pairwise fun t u => t.offset < u.offset ∧ t.stop ≤ u.offset
  pieces : ∀ t ∈ ts, t.IsPiece source
  blank : ∀ o c, start ≤ o → (⟨source, o⟩ : Pointer).Shows (String.singleton c) →
    (∀ t ∈ ts, o < t.offset ∨ t.stop ≤ o) → c ∈ [' ', '\t', '\x0c']

/-- A character that is no blank and belongs to no lexeme, behind tokens that do not reach
it. -/
structure Stray (source : String) (c : Char) (o : Nat) : Prop where
  shown : (⟨source, o⟩ : Pointer).Shows (String.singleton c)
  not_blank : c ∉ [' ', '\t', '\x0c']
  begins_nothing : ∀ category tail, ¬ Lexeme.Spells category (c :: tail)
  front : ∃ ts, tokenize (String.ofList (Text.takeBytes o source.toList)) = .ok ts ∧
    ∀ t ∈ ts, t.stop = o → ¬ Lexeme.Spells t.category (t.text.push c).toList

lemma begins_nothing_iff {c : Char} :
    (∀ category tail, ¬ Lexeme.Spells category (c :: tail)) ↔ Lexeme.category? c = none := by
  constructor
  · intro h
    cases hc : Lexeme.category? c with
    | none => rfl
    | some category =>
      exact absurd (Lexeme.spells_iff.mpr (Lexeme.isLexeme_spanTail hc [])) (h category _)
  · intro h category tail hs
    rw [(Lexeme.spells_iff.mp hs).category_first] at h
    cases h

section Pieces

variable {source : String} {front cs : List Char} {c : Char} {t : Token} {ts : List Token}
  {category : Category}

lemma stop_ofList (category : Category) (text front : List Char) :
    (⟨category, String.ofList text, Text.byteSize front⟩ : Token).stop =
      Text.byteSize (front ++ text) := by
  rw [stop, ← Text.byteSize_toList, String.toList_ofList, Text.byteSize_append]

lemma IsPiece.offset_lt_stop (h : t.IsPiece source) : t.offset < t.stop := by
  obtain ⟨c, tail, htext⟩ := h.spelled.exists_cons
  have hsize := Text.byteSize_toList t.text
  have hc := c.utf8Size_pos
  rw [htext, Text.byteSize] at hsize
  rw [stop]
  omega

lemma IsPiece.lexeme (h : t.IsPiece source) (ho : t.offset = Text.byteSize front)
    (hs : source.toList = front ++ c :: cs) :
    Lexeme.category? c = some t.category ∧
      t.text = String.ofList (c :: (Lexeme.spanTail t.category cs).1) := by
  obtain ⟨hshown, hspelled, hlongest⟩ := h
  rw [ho] at hshown hlongest
  obtain ⟨rest, hrest⟩ := hshown.here hs
  obtain ⟨d, tail, htext⟩ := hspelled.exists_cons
  rw [htext] at hrest hspelled
  obtain ⟨rfl, hcs⟩ := List.cons.inj hrest
  have hl := Lexeme.spells_iff.mp hspelled
  have hstop : Lexeme.StopsAt t.category tail rest := by
    intro d hd
    obtain ⟨rest, rfl⟩ := List.head?_eq_some_iff.mp hd
    by_contra hcontinues
    apply hlongest d
    · apply Pointer.shows_of_append front rest
      simp [hs, htext, hcs]
    · rw [String.toList_push, htext]
      exact (Lexeme.spells_push_iff hl d).mpr (by simpa using hcontinues)
  have hspan : Lexeme.spanTail t.category cs = (tail, rest) :=
    hcs ▸ Lexeme.spanTail_append_of_stopsAt hl.spanTail_tail hstop
  refine ⟨hl.category_first, String.ext ?_⟩
  simpa [hspan] using htext

lemma isPiece_spanTail (hc : Lexeme.category? c = some category)
    (hs : source.toList = front ++ c :: cs) :
    (⟨category, String.ofList (c :: (Lexeme.spanTail category cs).1), Text.byteSize front⟩ :
      Token).IsPiece source := by
  have hl := Lexeme.isLexeme_spanTail hc cs
  have hsplit : source.toList =
      front ++ (c :: (Lexeme.spanTail category cs).1) ++ (Lexeme.spanTail category cs).2 := by
    rw [hs, List.append_assoc, List.cons_append, Lexeme.spanTail_append]
  refine ⟨Pointer.shows_of_append _ _ (by simpa using hsplit), ?_, ?_⟩
  · simpa using Lexeme.spells_iff.mpr hl
  · intro d hd
    rw [List.append_assoc] at hsplit
    obtain ⟨rest, hrest⟩ := hd.here hsplit
    have hcontinues := Lexeme.stopsAt_spanTail category cs d (by
      simp only [String.toList_push, String.toList_ofList, List.append_assoc,
        List.append_cancel_left_eq] at hrest
      simp [hrest])
    rw [String.toList_push, String.toList_ofList, Lexeme.spells_push_iff hl, hcontinues]
    exact Bool.false_ne_true

end Pieces

section Division

variable {source : String} {front cs : List Char} {c : Char} {t : Token} {ts : List Token}
  {start : Nat} {category : Category}

lemma Segments.tail (h : Segments source start (t :: ts)) : Segments source t.stop ts := by
  obtain ⟨hfirst, hordered⟩ := List.pairwise_cons.mp h.ordered
  refine ⟨fun u hu => (hfirst u hu).2, hordered, fun u hu => h.pieces u (by simp [hu]), ?_⟩
  intro o c ho hshown huncovered
  have hstart := h.behind t (by simp)
  have hlt := (h.pieces t (by simp)).offset_lt_stop
  exact h.blank o c (by omega) hshown (List.forall_mem_cons.mpr ⟨.inr ho, huncovered⟩)

lemma Segments.cons (h : Segments source t.stop ts) (ht : t.IsPiece source) :
    Segments source t.offset (t :: ts) := by
  have hlt := ht.offset_lt_stop
  refine ⟨?_, List.pairwise_cons.mpr ⟨?_, h.ordered⟩, List.forall_mem_cons.mpr ⟨ht, h.pieces⟩, ?_⟩
  · intro u hu
    rcases List.mem_cons.mp hu with rfl | hu
    · exact Nat.le_refl _
    · exact Nat.le_trans (Nat.le_of_lt hlt) (h.behind u hu)
  · intro u hu
    exact ⟨Nat.lt_of_lt_of_le hlt (h.behind u hu), h.behind u hu⟩
  · intro o c ho hshown huncovered
    obtain ⟨hout, huncovered⟩ := List.forall_mem_cons.mp huncovered
    exact h.blank o c (by omega) hshown huncovered

lemma segments_end (hs : source.toList = front) :
    Segments source (Text.byteSize front) ts ↔ ts = [] := by
  have hend : source.toList = front ++ [] := by simpa using hs
  have hnothing {o : Nat} {text : String} (h : (⟨source, o⟩ : Pointer).Shows text)
      (ho : Text.byteSize front ≤ o) : text.toList = [] := by
    obtain ⟨mid, back, hnil, -⟩ := h.split hend ho
    simp_all
  constructor
  · intro h
    cases ts with
    | nil => rfl
    | cons t ts =>
      obtain ⟨c, tail, htext⟩ := (h.pieces t (by simp)).spelled.exists_cons
      rw [hnothing (h.pieces t (by simp)).shown (h.behind t (by simp))] at htext
      cases htext
  · rintro rfl
    refine ⟨by simp, .nil, by simp, ?_⟩
    intro o c ho hshown _
    have hc := hnothing hshown ho
    simp at hc

/-- A token begins where a division does, unless a blank stands there. -/
lemma Segments.first (h : Segments source (Text.byteSize front) ts)
    (hs : source.toList = front ++ c :: cs) :
    (∃ t us, ts = t :: us ∧ t.offset = Text.byteSize front) ∨ Lexeme.isSkipped c := by
  by_cases hbegins : ∃ t ∈ ts, t.offset = Text.byteSize front
  · obtain ⟨t, ht, ho⟩ := hbegins
    left
    cases ts with
    | nil => cases ht
    | cons u us =>
      rcases List.mem_cons.mp ht with rfl | ht
      · exact ⟨t, us, rfl, ho⟩
      · -- a later token cannot begin as early as the first one
        have hlt := ((List.pairwise_cons.mp h.ordered).1 t ht).1
        have hle := h.behind u (by simp)
        omega
  · right
    have hshown : (⟨source, Text.byteSize front⟩ : Pointer).Shows (String.singleton c) :=
      Pointer.shows_of_append front cs (by simpa using hs)
    refine Lexeme.skipped_iff.mpr (h.blank _ c (Nat.le_refl _) hshown ?_)
    intro t ht
    exact .inl (Nat.lt_of_le_of_ne (h.behind t ht) fun heq => hbegins ⟨t, ht, heq.symm⟩)

lemma segments_skipped (hc : Lexeme.isSkipped c) (hs : source.toList = front ++ c :: cs) :
    Segments source (Text.byteSize front) ts ↔ Segments source (Text.byteSize (front ++ [c])) ts := by
  have hle : Text.byteSize front ≤ Text.byteSize (front ++ [c]) := by
    rw [Text.byteSize_append]
    omega
  constructor
  · intro h
    refine ⟨?_, h.ordered, h.pieces, fun o d ho => h.blank o d (Nat.le_trans hle ho)⟩
    intro t ht
    refine (h.pieces t ht).shown.beyond hs (Nat.lt_of_le_of_ne (h.behind t ht) ?_)
    intro heq
    have hfirst := ((h.pieces t ht).lexeme heq.symm hs).1
    rw [Lexeme.category?_skipped hc] at hfirst
    cases hfirst
  · intro h
    refine ⟨fun t ht => Nat.le_trans hle (h.behind t ht), h.ordered, h.pieces, ?_⟩
    intro o d ho hshown huncovered
    rcases Nat.eq_or_lt_of_le ho with rfl | hlt
    · obtain ⟨back, hback⟩ := hshown.here hs
      obtain ⟨rfl, -⟩ : c = d ∧ _ := by simpa using hback
      exact Lexeme.skipped_iff.mp hc
    · exact h.blank o d (hshown.beyond hs hlt) hshown huncovered

lemma segments_lexeme (hc : Lexeme.category? c = some category)
    (hs : source.toList = front ++ c :: cs) :
    Segments source (Text.byteSize front) ts ↔
      ∃ us, ts = ⟨category, String.ofList (c :: (Lexeme.spanTail category cs).1),
          Text.byteSize front⟩ :: us ∧
        Segments source (Text.byteSize (front ++ c :: (Lexeme.spanTail category cs).1)) us := by
  constructor
  · intro h
    rcases h.first hs with ⟨t, us, rfl, ho⟩ | hskipped
    · obtain ⟨hfirst, htext⟩ := (h.pieces t (by simp)).lexeme ho hs
      obtain ⟨category', text, offset⟩ := t
      dsimp only at ho hfirst htext
      obtain rfl : category = category' := Option.some.inj (hc.symm.trans hfirst)
      subst ho htext
      exact ⟨us, rfl, by simpa only [stop_ofList] using h.tail⟩
    · rw [Lexeme.category?_skipped hskipped] at hc
      cases hc
  · rintro ⟨us, rfl, h⟩
    rw [← stop_ofList category] at h
    exact h.cons (isPiece_spanTail hc hs)

lemma not_segments_stray (hskipped : ¬ Lexeme.isSkipped c) (hc : Lexeme.category? c = none)
    (hs : source.toList = front ++ c :: cs) : ¬ Segments source (Text.byteSize front) ts := by
  intro h
  rcases h.first hs with ⟨t, us, rfl, ho⟩ | hblank
  · have hfirst := ((h.pieces t (by simp)).lexeme ho hs).1
    rw [hc] at hfirst
    cases hfirst
  · exact hskipped hblank

end Division

section Scanning

variable {source : String}

theorem scan_eq_ok_iff {cs : List Char} {offset : Nat} {ts : List Token} (front : List Char)
    (hs : source.toList = front ++ cs) (ho : Text.byteSize front = offset) :
    scan source offset cs = .ok ts ↔ Segments source offset ts := by
  fun_induction scan source offset cs generalizing front ts with
  | case1 =>
    subst ho
    rw [segments_end (by simpa using hs)]
    exact ⟨fun h => (Except.ok.inj h).symm, fun h => congrArg Except.ok h.symm⟩
  | case2 offset c cs hskipped ih =>
    subst ho
    have hnext : Text.byteSize (front ++ [c]) = Text.byteSize front + c.utf8Size := by
      simp [Text.byteSize_append, Text.byteSize]
    rw [segments_skipped hskipped hs, hnext]
    exact ih _ (by simpa using hs) hnext
  | case3 offset c cs hskipped hc =>
    subst ho
    constructor
    · intro h
      cases h
    · intro h
      exact absurd h (not_segments_stray hskipped hc hs)
  | case4 offset c cs hskipped category hc text =>
    rename_i ih
    subst ho
    have hrest : source.toList = front ++ text ++ (Lexeme.spanTail category cs).2 := by
      rw [hs, List.append_assoc, List.cons_append, Lexeme.spanTail_append]
    have hnext := Text.byteSize_append front text
    rw [segments_lexeme hc hs, hnext]
    constructor
    · intro h
      obtain ⟨us, hr, rfl⟩ := Outcome.map_eq_ok.mp h
      exact ⟨us, rfl, (ih _ hrest hnext).mp hr⟩
    · rintro ⟨us, rfl, h⟩
      rw [(ih _ hrest hnext).mpr h]
      rfl

lemma scan_error {offset : Nat} {cs : List Char} {e : ParseError}
    (h : scan source offset cs = .error e) :
    ∃ front c back ts, cs = front ++ c :: back ∧ ¬ Lexeme.isSkipped c ∧
      Lexeme.category? c = none ∧ e = ⟨.unknownSymbol c, source, offset + Text.byteSize front⟩ ∧
      (∀ other, scan other offset front = .ok ts) ∧
      ∀ t ∈ ts, t.stop = offset + Text.byteSize front →
        ¬ Lexeme.Spells t.category (t.text.push c).toList := by
  fun_induction scan source offset cs with
  | case1 => cases h
  | case2 offset c cs hskipped ih =>
    obtain ⟨front, d, back, ts, rfl, hd, hdc, rfl, hscan, hstop⟩ := ih h
    have hsize : offset + Text.byteSize (c :: front) = offset + c.utf8Size + Text.byteSize front := by
      rw [Text.byteSize, Nat.add_assoc]
    refine ⟨c :: front, d, back, ts, rfl, hd, hdc, by rw [hsize], ?_, by rwa [hsize]⟩
    intro other
    rw [scan_skipped hskipped, hscan]
  | case3 offset c cs hskipped hc =>
    obtain rfl := Except.error.inj h
    exact ⟨[], c, cs, [], rfl, hskipped, hc, rfl, fun other => scan_nil other offset, by simp⟩
  | case4 offset c cs hskipped category hc text =>
    rename_i ih
    obtain ⟨front, d, back, ts, hcs, hd, hdc, rfl, hscan, hstop⟩ := ih (Outcome.map_eq_error.mp h)
    have hl : Lexeme.IsLexeme category c (Lexeme.spanTail category cs).1 :=
      Lexeme.isLexeme_spanTail hc cs
    have hspan := Lexeme.stopsAt_spanTail category cs
    have hsize : offset + Text.byteSize (text ++ front) =
        offset + Text.byteSize text + Text.byteSize front := by
      rw [Text.byteSize_append, Nat.add_assoc]
    refine ⟨text ++ front, d, back, ⟨category, String.ofList text, offset⟩ :: ts, ?_, hd, hdc,
      by rw [hsize], ?_, List.forall_mem_cons.mpr ⟨?_, by rwa [hsize]⟩⟩
    · rw [List.append_assoc, ← hcs, List.cons_append, Lexeme.spanTail_append]
    · intro other
      have hback : Lexeme.StopsAt category (Lexeme.spanTail category cs).1 front := by
        intro f hf
        obtain ⟨fs, rfl⟩ := List.head?_eq_some_iff.mp hf
        exact hspan f (by simp [hcs])
      rw [List.cons_append, scan_lexeme hskipped hc,
        Lexeme.spanTail_append_of_stopsAt hl.spanTail_tail hback, hscan]
      rfl
    · -- a token that reaches the character has nothing behind it in front of the character
      intro hreaches
      have hfront : front = [] := by
        rw [hsize, stop, ← Text.byteSize_toList, String.toList_ofList] at hreaches
        exact Text.eq_nil_of_byteSize (Nat.left_eq_add.mp hreaches)
      subst hfront
      rw [String.toList_push, String.toList_ofList, Lexeme.spells_push_iff hl,
        hspan d (by simp [hcs])]
      exact Bool.false_ne_true

lemma scan_stray_append {offset : Nat} {front : List Char} {c : Char} {ts : List Token}
    (h : scan source offset front = .ok ts) (hskipped : ¬ Lexeme.isSkipped c)
    (hc : Lexeme.category? c = none)
    (hstop : ∀ t ∈ ts, t.stop = offset + Text.byteSize front →
      ¬ Lexeme.Spells t.category (t.text.push c).toList) (other : String) (back : List Char) :
    scan other offset (front ++ c :: back) =
      .error ⟨.unknownSymbol c, other, offset + Text.byteSize front⟩ := by
  fun_induction scan source offset front generalizing ts with
  | case1 offset => exact scan_stray hskipped hc other offset back
  | case2 offset d cs hd ih =>
    rw [List.cons_append, scan_skipped hd, Text.byteSize, ← Nat.add_assoc]
    exact ih h (by simpa [Text.byteSize, Nat.add_assoc] using hstop)
  | case3 => cases h
  | case4 offset d cs hd category hdc text =>
    rename_i ih
    obtain ⟨us, hr, rfl⟩ := Outcome.map_eq_ok.mp h
    obtain ⟨hfirst, hrest⟩ := List.forall_mem_cons.mp hstop
    have hl : Lexeme.IsLexeme category d (Lexeme.spanTail category cs).1 :=
      Lexeme.isLexeme_spanTail hdc cs
    have hsize : offset + Text.byteSize (d :: cs) =
        offset + Text.byteSize text + Text.byteSize (Lexeme.spanTail category cs).2 := by
      rw [Nat.add_assoc, ← Text.byteSize_append, List.cons_append, Lexeme.spanTail_append]
    have hback : Lexeme.StopsAt category (Lexeme.spanTail category cs).1
        ((Lexeme.spanTail category cs).2 ++ c :: back) := by
      intro f hf
      cases hrests : (Lexeme.spanTail category cs).2 with
      | cons g gs => exact Lexeme.stopsAt_spanTail category cs f (by simp_all)
      | nil =>
        obtain rfl : c = f := by simpa [hrests] using hf
        have hspells := hfirst (by
          rw [hsize, hrests, stop, ← Text.byteSize_toList, String.toList_ofList]
          rfl)
        rw [String.toList_push, String.toList_ofList, Lexeme.spells_push_iff hl] at hspells
        simpa using hspells
    have hspan := Lexeme.spanTail_append_of_stopsAt hl.spanTail_tail hback
    rw [← List.append_assoc, Lexeme.spanTail_append] at hspan
    rw [List.cons_append, scan_lexeme hd hdc, hspan, ih hr (by rwa [← hsize]), hsize]
    rfl

lemma segments_iff (source : String) (ts : List Token) :
    tokenize source = .ok ts ↔ Segments source 0 ts :=
  scan_eq_ok_iff [] rfl rfl

lemma stray_of_error {e : ParseError} (h : tokenize source = .error e) :
    ∃ c o, e = ⟨.unknownSymbol c, source, o⟩ ∧ Stray source c o := by
  obtain ⟨front, c, back, ts, hs, hskipped, hc, rfl, hscan, hstop⟩ := scan_error h
  rw [Nat.zero_add] at hstop
  refine ⟨c, Text.byteSize front, by rw [Nat.zero_add], ?_, ?_, begins_nothing_iff.mpr hc, ts, ?_, hstop⟩
  · exact Pointer.shows_of_append front back (by simpa using hs)
  · exact fun hblank => hskipped (Lexeme.skipped_iff.mpr hblank)
  · rw [hs, takeBytes_front, tokenize, String.toList_ofList]
    exact hscan _

lemma Stray.error {c : Char} {o : Nat} (h : Stray source c o) :
    tokenize source = .error ⟨.unknownSymbol c, source, o⟩ := by
  obtain ⟨hshown, hblank, hnothing, ts, hts, hstop⟩ := h
  obtain ⟨front, back, hs, rfl⟩ := hshown.append
  rw [hs, takeBytes_front, tokenize, String.toList_ofList] at hts
  have hskipped : ¬ Lexeme.isSkipped c := fun hc => hblank (Lexeme.skipped_iff.mp hc)
  have herror := scan_stray_append hts hskipped (begins_nothing_iff.mp hnothing)
    (by simpa using hstop) source back
  rw [tokenize, hs]
  simpa using herror

end Scanning

theorem tokenize_exact (source : String) :
    (∀ ts, tokenize source = .ok ts ↔ Segments source 0 ts) ∧
    (∀ e, tokenize source = .error e ↔
      ∃ c o, e = ⟨.unknownSymbol c, source, o⟩ ∧ Stray source c o) ∧
    ((∃ ts, Segments source 0 ts) ↔ ¬ ∃ c o, Stray source c o) := by
  refine ⟨segments_iff source, fun e => ⟨stray_of_error, ?_⟩, ?_⟩
  · rintro ⟨c, o, rfl, h⟩
    exact h.error
  · constructor
    · rintro ⟨ts, hts⟩ ⟨c, o, hstray⟩
      have hok := (segments_iff source ts).mpr hts
      rw [hstray.error] at hok
      cases hok
    · intro hnone
      cases hts : tokenize source with
      | ok ts => exact ⟨ts, (segments_iff source ts).mp hts⟩
      | error e =>
        obtain ⟨c, o, -, hstray⟩ := stray_of_error hts
        exact absurd ⟨c, o, hstray⟩ hnone

end Token

end Reckoner
