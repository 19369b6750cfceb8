import Reckoner.Proofs.Conversion.Brackets
import Reckoner.Proofs.Diagnostic.Pointing

/-! Bracket errors. A source whose brackets do not match is refused where the matcher of brackets
alone is stuck, or at its end for what the matcher has left open. -/

namespace Reckoner

variable {scope : Scope} {source : String} {ts us opened : List Token} {t u : Token}

namespace Brackets

/-- Classification accepts the token and all in front of it, and the matcher gets past those but
not past the token. -/
def StuckAt (scope : Scope) (ts opened : List Token) (u : Token) : Prop :=
  ∃ before t after us, ts = before ++ t :: after ∧
    Token.classifyAll scope .start (before ++ [t]) = .ok (us ++ [u]) ∧
    run us = some opened ∧ u.category = .closing ∧ read opened u = none

/-- What is to be closed at the end: a call that lacks its brackets, or the innermost bracket. -/
inductive Lacks (us opened : List Token) : Char → Nat → Prop
  | call {f : Token} : us.getLast? = some f → f.category = .functionName →
      Lacks us opened '(' f.offset
  | bracket {o : Token} {rest : List Token} : opened = o :: rest →
      (∀ f, us.getLast? = some f → f.category ≠ .functionName) →
      Lacks us opened o.firstChar o.offset

def EndsInOperator (us : List Token) : Prop :=
  ∃ o, us.getLast? = some o ∧ (o.category = .binary ∨ o.category = .unary)

lemma closing_of_read (h : read opened u = none) : u.category = .closing := by
  by_contra hc
  by_cases ho : u.category = .opening
  · simp [read_opening ho] at h
  · simp [read_other ho hc] at h

lemma stuckAt_iff : StuckAt scope ts opened u ↔ ∃ before t after us, ts = before ++ t :: after ∧
    Passes scope before us opened ∧ t.classify scope (Token.lastCategory .start us) = .ok u ∧
      read opened u = none := by
  constructor
  · rintro ⟨before, t, after, us, rfl, hclassified, hrun, -, hread⟩
    obtain ⟨us', u', hus, hu, hsplit⟩ := Token.classifyAll_concat.mp hclassified
    obtain ⟨rfl, rfl⟩ : us = us' ∧ u = u' := by simpa using hsplit
    exact ⟨before, t, after, us, rfl, ⟨hus, hrun⟩, hu, hread⟩
  · rintro ⟨before, t, after, us, rfl, ⟨hus, hrun⟩, hu, hread⟩
    exact ⟨before, t, after, us, rfl, Token.classifyAll_concat.mpr ⟨us, u, hus, hu, rfl⟩, hrun,
      closing_of_read hread, hread⟩

lemma lacks_nothing_iff : (∀ b o, ¬ Lacks us opened b o) ↔
    opened = [] ∧ ∀ f, us.getLast? = some f → f.category ≠ .functionName := by
  constructor
  · intro h
    have hf : ∀ f, us.getLast? = some f → f.category ≠ .functionName :=
      fun f hlast hcall => h _ _ (.call hlast hcall)
    cases opened with
    | nil => exact ⟨rfl, hf⟩
    | cons o rest => exact absurd (.bracket rfl hf) (h o.firstChar o.offset)
  · rintro ⟨rfl, hf⟩ b o (⟨hlast, hcall⟩ | ⟨hopened, -⟩)
    · exact hf _ hlast hcall
    · cases hopened

lemma eq_nil_iff (h : Passes scope ts us opened) : ts = [] ↔ us = [] := by
  rcases List.eq_nil_or_concat ts with rfl | ⟨before, t, rfl⟩
  · simpa using (passes_nil.mp h).1
  · rw [List.concat_eq_append] at h
    obtain ⟨us, u, opened, -, -, -, rfl⟩ := passes_concat.mp h
    simp

lemma canFollow_finish_iff (hts : ∀ t ∈ ts, t.Spelled) (h : Passes scope ts us [])
    (hf : ∀ f, us.getLast? = some f → f.category ≠ .functionName) :
    (Token.lastCategory .start us).canFollow .finish ↔ us ≠ [] ∧ ¬ EndsInOperator us := by
  rcases List.eq_nil_or_concat ts with rfl | ⟨before, t, rfl⟩
  · obtain ⟨rfl, -⟩ := passes_nil.mp h
    simp [Token.lastCategory, Category.canFollow, Category.awaitsOperand, Category.beginsOperand,
      Category.endsOperand]
  rw [List.concat_eq_append] at h hts
  obtain ⟨us, u, opened, -, hu, hread, rfl⟩ := passes_concat.mp h
  have hfunction : u.category ≠ .functionName := hf u (by simp)
  have hopening : u.category ≠ .opening := by
    intro ho
    simp [read_opening ho] at hread
  have hclassified := Conversion.isClassified_of_classify (hts t (by simp)) hu
  simp only [Conversion.IsClassified, List.mem_cons, List.not_mem_nil, or_false] at hclassified
  simp only [EndsInOperator, Token.lastCategory, List.getLast?_concat, Option.map_some,
    Option.getD_some, Option.some.injEq, exists_eq_left']
  rcases hclassified with h | h | h | h | h | h | h <;> simp_all [Category.canFollow,
    Category.awaitsOperand, Category.beginsOperand, Category.endsOperand, Category.continuesOperand]

end Brackets

namespace Conversion

variable {c : Conversion}

lemma Tracks.holds (h : c.Tracks opened)
    (hf : ∀ f, c.accepted.toList.getLast? = some f → f.category ≠ .functionName) :
    Holds c.pending opened := by
  have hprevious : c.previous ≠ .functionName := by
    rw [previous_eq rfl, Token.lastCategory]
    cases hlast : c.accepted.toList.getLast? with
    | none => simp
    | some f => exact hf f hlast
  rwa [Tracks, if_neg hprevious] at h

lemma finish_lacks {b : Char} {o : Nat} (h : c.Tracks opened)
    (hl : Brackets.Lacks c.accepted.toList opened b o) (source : String) :
    c.finish source = .error ⟨.missingClosing b, source, o⟩ := by
  cases hl with
  | @call f hlast hf =>
    have hprevious : c.previous = .functionName := by
      rw [previous_eq rfl, Token.lastCategory, hlast, ← hf]
      rfl
    rw [Tracks, if_pos hprevious] at h
    obtain ⟨g, ps, hg, hpending, -⟩ := h
    obtain rfl : f = g := by
      rw [Array.getLast?_toList] at hlast
      exact Option.some.inj (hlast.symm.trans hg)
    simp [finish, hpending, isUnclosed, openingChar, hf]
  | @bracket o rest hopened hf =>
    subst hopened
    have hheld := h.holds hf
    have hopening : o.category = .opening := hheld.opening_of_head rfl
    simp [finish, hheld.find?_isUnclosed, openingChar, hopening]

lemma finish_complete (h : c.Tracks [])
    (hf : ∀ f, c.accepted.toList.getLast? = some f → f.category ≠ .functionName) (source : String) :
    c.finish source = if c.previous.canFollow .finish then
        .ok ⟨source, c.accepted.toList, c.output.toList ++ c.pending⟩
      else .error ⟨.unexpectedEnd, .endOf source⟩ := by
  simp [finish, (h.holds hf).find?_isUnclosed]

end Conversion

namespace Expression

lemma parse_of_stuck (hts : Token.tokenize source = .ok ts)
    (h : Brackets.StuckAt scope ts opened u) :
    (parse scope source).result = .error ⟨Brackets.fault opened u, source, u.offset⟩ := by
  obtain ⟨before, t, after, us, rfl, hbefore, hu, hread⟩ := Brackets.stuckAt_iff.mp h
  have hspelled := Token.spelled_of_tokenize hts
  obtain ⟨c, hrun, haccepted, htracks⟩ :=
    Conversion.run_of_passes (fun t ht => hspelled t (by simp [ht])) hbefore
  rw [← Conversion.previous_eq haccepted] at hu
  have halike := Conversion.accept_alike htracks (hspelled t (by simp)) hu
  rw [hread] at halike
  generalize hr : c.accept u = r at halike
  cases halike
  rw [(Token.text_of_classify hu).2]
  exact parse_of_fault hts hrun ((Conversion.advance_of_classify hu).trans hr)

/-- A fault of a closing bracket is where the matcher is stuck. -/
lemma stuck_of_parse (hts : Token.tokenize source = .ok ts) {f : ParseFault} {p : Pointer}
    (h : (parse scope source).result = .error ⟨f, p⟩)
    (hf : (∃ c, f = .unexpectedClosing c) ∨ ∃ b c, f = .mismatch b c) :
    ∃ opened u, Brackets.StuckAt scope ts opened u ∧ f = Brackets.fault opened u ∧
      p = ⟨source, u.offset⟩ := by
  have hspelled := Token.spelled_of_tokenize hts
  rcases parse_fault_cases hts h with ⟨c, -, hfinish⟩ | ⟨before, t, after, c, g, rfl, hrun, hadvance, he⟩
  · have hincomplete := Conversion.finish_fault hfinish
    rcases hf with ⟨c, rfl⟩ | ⟨b, c, rfl⟩ <;> cases hincomplete
  obtain ⟨rfl, rfl⟩ := ParseError.mk.inj he
  obtain ⟨opened, hpasses, htracks⟩ :=
    Conversion.passes_of_run (fun t ht => hspelled t (by simp [ht])) hrun
  cases hu : t.classify scope c.previous with
  | error g =>
    obtain rfl : g = f := by simpa [Conversion.advance, hu, bind, Except.bind] using hadvance
    rcases Conversion.classify_error hu with rfl | rfl | rfl <;> simp at hf
  | ok u =>
    rw [Conversion.advance_of_classify hu] at hadvance
    have halike := Conversion.accept_alike htracks (hspelled t (by simp)) hu
    rw [hadvance] at halike
    rw [Conversion.previous_eq rfl] at hu
    generalize hread : Brackets.read opened u = o at halike
    cases halike
    exact ⟨opened, u, Brackets.stuckAt_iff.mpr ⟨before, t, after, _, rfl, hpasses, hu, hread⟩, rfl,
      by rw [(Token.text_of_classify hu).2]⟩

lemma parse_of_lacks (hts : Token.tokenize source = .ok ts) {b : Char} {o : Nat}
    (h : Brackets.Passes scope ts us opened) (hl : Brackets.Lacks us opened b o) :
    (parse scope source).result = .error ⟨.missingClosing b, source, o⟩ := by
  obtain ⟨c, hrun, rfl, htracks⟩ := Conversion.run_of_passes (Token.spelled_of_tokenize hts) h
  rw [parse_of_run hts hrun]
  exact Conversion.finish_lacks htracks hl source

lemma parse_of_complete (hts : Token.tokenize source = .ok ts)
    (h : Brackets.Passes scope ts us opened) (hnone : ∀ b o, ¬ Brackets.Lacks us opened b o) :
    (us = [] ∨ Brackets.EndsInOperator us →
        (parse scope source).result = .error ⟨.unexpectedEnd, .endOf source⟩) ∧
      (¬ (us = [] ∨ Brackets.EndsInOperator us) → ∃ e, (parse scope source).result = .ok e) := by
  have hspelled := Token.spelled_of_tokenize hts
  obtain ⟨rfl, hf⟩ := Brackets.lacks_nothing_iff.mp hnone
  have hend := Brackets.canFollow_finish_iff hspelled h hf
  obtain ⟨c, hrun, rfl, htracks⟩ := Conversion.run_of_passes hspelled h
  rw [← Conversion.previous_eq rfl, ← not_or] at hend
  rw [parse_of_run hts hrun, Conversion.finish_complete htracks hf]
  split_ifs with hfollow
  · exact ⟨fun h => absurd h (hend.mp hfollow), fun _ => ⟨_, rfl⟩⟩
  · exact ⟨fun _ => rfl, fun h => absurd (hend.mpr h) hfollow⟩

/-- At the end of the source everything has passed. -/
lemma passes_of_incomplete (hts : Token.tokenize source = .ok ts) {e : ParseError}
    (h : (parse scope source).result = .error e) (he : e.fault.isIncomplete) :
    ∃ us opened, Brackets.Passes scope ts us opened := by
  rcases parse_fault_cases hts h with ⟨c, hrun, -⟩ | ⟨before, t, after, c, f, -, -, hadvance, rfl⟩
  · obtain ⟨opened, hpasses, -⟩ := Conversion.passes_of_run (Token.spelled_of_tokenize hts) hrun
    exact ⟨_, opened, hpasses⟩
  · cases he.symm.trans (Conversion.advance_fault hadvance).not_incomplete

lemma missingClosing_iff (hts : Token.tokenize source = .ok ts) (b : Char) (p : Pointer) :
    (parse scope source).result = .error ⟨.missingClosing b, p⟩ ↔ ∃ us opened o,
      Brackets.Passes scope ts us opened ∧ Brackets.Lacks us opened b o ∧ p = ⟨source, o⟩ := by
  constructor
  · intro h
    obtain ⟨us, opened, hpasses⟩ := passes_of_incomplete hts h rfl
    by_cases hl : ∃ b o, Brackets.Lacks us opened b o
    · obtain ⟨b', o, hl⟩ := hl
      cases h.symm.trans (parse_of_lacks hts hpasses hl)
      exact ⟨us, opened, o, hpasses, hl, rfl⟩
    · obtain ⟨hincomplete, hcomplete⟩ := parse_of_complete hts hpasses (by simpa using hl)
      by_cases hend : us = [] ∨ Brackets.EndsInOperator us
      · cases h.symm.trans (hincomplete hend)
      · obtain ⟨e, he⟩ := hcomplete hend
        cases h.symm.trans he
  · rintro ⟨us, opened, o, hpasses, hl, rfl⟩
    exact parse_of_lacks hts hpasses hl

lemma unexpectedEnd_iff (hts : Token.tokenize source = .ok ts) (p : Pointer) :
    (parse scope source).result = .error ⟨.unexpectedEnd, p⟩ ↔ ∃ us opened,
      Brackets.Passes scope ts us opened ∧ (∀ b o, ¬ Brackets.Lacks us opened b o) ∧
        (us = [] ∨ Brackets.EndsInOperator us) ∧ p = .endOf source := by
  constructor
  · intro h
    obtain ⟨us, opened, hpasses⟩ := passes_of_incomplete hts h rfl
    have hnone : ∀ b o, ¬ Brackets.Lacks us opened b o := by
      intro b o hl
      cases h.symm.trans (parse_of_lacks hts hpasses hl)
    obtain ⟨hincomplete, hcomplete⟩ := parse_of_complete hts hpasses hnone
    by_cases hend : us = [] ∨ Brackets.EndsInOperator us
    · cases h.symm.trans (hincomplete hend)
      exact ⟨us, opened, hpasses, hnone, hend, rfl⟩
    · obtain ⟨e, he⟩ := hcomplete hend
      cases h.symm.trans he
  · rintro ⟨us, opened, hpasses, hnone, hend, rfl⟩
    exact (parse_of_complete hts hpasses hnone).1 hend

/-- A separator is not accepted anywhere, so it never comes to the brackets around it. -/
lemma parse_of_separator {before after : List Token}
    (hts : Token.tokenize source = .ok (before ++ t :: after)) (ht : t.category = .separator)
    (h : Brackets.Passes scope before us opened) :
    (parse scope source).result = .error ⟨.unexpectedLexeme ",", source, t.offset⟩ := by
  have hspelled := Token.spelled_of_tokenize hts
  have htext : t.text = "," := by
    obtain ⟨c, hc, htext⟩ := (hspelled t (by simp)).sign (by simp [ht]) (by simp [ht])
    rw [ht] at hc
    obtain rfl : c = ',' := by simpa [Lexeme.signs] using hc
    exact htext
  obtain ⟨c, hrun, -, -⟩ := Conversion.run_of_passes (fun t ht => hspelled t (by simp [ht])) h
  refine parse_of_fault hts hrun ?_
  have hfollow : c.previous.canFollow .separator = false := by cases c.previous <;> rfl
  simp [Conversion.advance, Token.classify, Token.role, Token.place, ht, hfollow, htext, bind,
    Except.bind]

lemma parse_ne_separator (p : Pointer) :
    (parse scope source).result ≠ .error ⟨.separatorOutsideBrackets, p⟩ := by
  intro h
  exact (pointer_of_parse_error h).2

theorem brackets_exact (scope : Scope) (source : String) :
    (∀ p, (parse scope source).result ≠ .error ⟨.separatorOutsideBrackets, p⟩) ∧
    ∀ ts, Token.tokenize source = .ok ts →
      (∀ c p, (parse scope source).result = .error ⟨.unexpectedClosing c, p⟩ ↔
        ∃ u, Brackets.StuckAt scope ts [] u ∧ c = u.firstChar ∧ p = ⟨source, u.offset⟩) ∧
      (∀ b c p, (parse scope source).result = .error ⟨.mismatch b c, p⟩ ↔
        ∃ o rest u, Brackets.StuckAt scope ts (o :: rest) u ∧ b = o.firstChar ∧ c = u.firstChar ∧
          p = ⟨source, u.offset⟩) ∧
      (∀ b p, (parse scope source).result = .error ⟨.missingClosing b, p⟩ ↔ ∃ us opened o,
        Brackets.Passes scope ts us opened ∧ Brackets.Lacks us opened b o ∧ p = ⟨source, o⟩) ∧
      (∀ p, (parse scope source).result = .error ⟨.unexpectedEnd, p⟩ ↔ ∃ us opened,
        Brackets.Passes scope ts us opened ∧ (∀ b o, ¬ Brackets.Lacks us opened b o) ∧
          ((∀ c ∈ source.toList, Lexeme.isSkipped c) ∨ Brackets.EndsInOperator us) ∧
          p = .endOf source) ∧
      ∀ before t after us opened, ts = before ++ t :: after → t.category = .separator →
        Brackets.Passes scope before us opened →
          (parse scope source).result = .error ⟨.unexpectedLexeme ",", source, t.offset⟩ := by
  refine ⟨parse_ne_separator, fun ts hts => ⟨fun c p => ⟨fun h => ?_, ?_⟩,
    fun b c p => ⟨fun h => ?_, ?_⟩, missingClosing_iff hts, fun p => ?_, ?_⟩⟩
  · obtain ⟨opened, u, hstuck, hfault, rfl⟩ := stuck_of_parse hts h (.inl ⟨c, rfl⟩)
    cases opened with
    | nil => exact ⟨u, hstuck, ParseFault.unexpectedClosing.inj hfault, rfl⟩
    | cons o rest => cases hfault
  · rintro ⟨u, hstuck, rfl, rfl⟩
    exact parse_of_stuck hts hstuck
  · obtain ⟨opened, u, hstuck, hfault, rfl⟩ := stuck_of_parse hts h (.inr ⟨b, c, rfl⟩)
    cases opened with
    | nil => cases hfault
    | cons o rest =>
      obtain ⟨hopening, hclosing⟩ := ParseFault.mismatch.inj hfault
      exact ⟨o, rest, u, hstuck, hopening, hclosing, rfl⟩
  · rintro ⟨o, rest, u, hstuck, rfl, rfl, rfl⟩
    exact parse_of_stuck hts hstuck
  · rw [unexpectedEnd_iff hts]
    have hblank : ts = [] ↔ ∀ c ∈ source.toList, Lexeme.isSkipped c := by
      rw [← Token.tokenize_eq_nil_iff, hts, Except.ok.injEq]
    rw [← hblank]
    constructor
    · rintro ⟨us, opened, h, hnone, hend, hp⟩
      exact ⟨us, opened, h, hnone, by rwa [Brackets.eq_nil_iff h], hp⟩
    · rintro ⟨us, opened, h, hnone, hend, hp⟩
      exact ⟨us, opened, h, hnone, by rwa [← Brackets.eq_nil_iff h], hp⟩
  · rintro before t after us opened rfl ht hpasses
    exact parse_of_separator hts ht hpasses

theorem brackets_exact_bar :
    (parse ⟨fun _ => some 1, fun f => if f = "f" then some .ok else none⟩ "f(|x)").result =
      .error ⟨.mismatch '|' ')', "f(|x)", 4⟩ := by
  have hts : Token.tokenize "f(|x)" = .ok [⟨.identifier, "f", 0⟩, ⟨.opening, "(", 1⟩,
      ⟨.operator, "|", 2⟩, ⟨.identifier, "x", 3⟩, ⟨.closing, ")", 4⟩] := by
    cbv
  obtain ⟨-, hmismatch, -⟩ := (brackets_exact
    ⟨fun _ => some 1, fun f => if f = "f" then some .ok else none⟩ "f(|x)").2 _ hts
  have hstuck : Brackets.StuckAt ⟨fun _ => some 1, fun f => if f = "f" then some .ok else none⟩
      [⟨.identifier, "f", 0⟩, ⟨.opening, "(", 1⟩, ⟨.operator, "|", 2⟩, ⟨.identifier, "x", 3⟩,
        ⟨.closing, ")", 4⟩] [⟨.opening, "|", 2⟩, ⟨.opening, "(", 1⟩] ⟨.closing, ")", 4⟩ :=
    ⟨[⟨.identifier, "f", 0⟩, ⟨.opening, "(", 1⟩, ⟨.operator, "|", 2⟩, ⟨.identifier, "x", 3⟩],
      ⟨.closing, ")", 4⟩, [], [⟨.functionName, "f", 0⟩, ⟨.opening, "(", 1⟩, ⟨.opening, "|", 2⟩,
        ⟨.variableName, "x", 3⟩], rfl, by rfl, rfl, rfl, rfl⟩
  exact (hmismatch '|' ')' _).mpr ⟨_, _, _, hstuck, rfl, rfl, rfl⟩

end Expression

end Reckoner
