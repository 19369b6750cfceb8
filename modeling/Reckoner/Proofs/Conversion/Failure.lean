import Reckoner.Proofs.Conversion.Parsing
import Reckoner.Proofs.Grammar.Completion

/-! Where a source fails. At the end of the source it is incomplete, and more text mends
it. At a token it is wrong, and nothing behind the token mends it. -/

namespace Reckoner

/-- What is missing may still come. -/
def ParseFault.isIncomplete : ParseFault → Bool
  | missingClosing _ | unexpectedEnd => true
  | _ => false

/-- The faults of a token in its place, each with the text of the token. -/
inductive ParseFault.Blames (t : Token) : ParseFault → Prop
  | identifier : Blames t (.unknownIdentifier t.text)
  | lexeme : Blames t (.unexpectedLexeme t.text)
  | bracket : Blames t (.callBracket t.text)
  | closing : Blames t (.unexpectedClosing t.firstChar)
  | mismatch (opening : Char) : Blames t (.mismatch opening t.firstChar)

lemma ParseFault.Blames.not_incomplete {t : Token} {f : ParseFault} (h : f.Blames t) :
    f.isIncomplete = false := by
  cases h <;> rfl

namespace Conversion

variable {scope : Scope} {source : String} {c : Conversion} {t : Token} {f : ParseFault}

lemma classify_error {previous : Category} (h : t.classify scope previous = .error f) :
    f = .unknownIdentifier t.text ∨ f = .unexpectedLexeme t.text ∨ f = .callBracket t.text := by
  cases hr : t.role scope previous with
  | ok k =>
    simp only [Token.classify, hr, bind, Except.bind, Token.place] at h
    split_ifs at h <;> obtain rfl := Except.error.inj h
    · exact .inr (.inl rfl)
    · exact .inr (.inr rfl)
  | error g =>
    obtain rfl : g = f := by simpa [Token.classify, hr, bind, Except.bind] using h
    unfold Token.role at hr
    split at hr
    · split at hr
      · cases hr
      · exact .inl (Except.error.inj hr).symm
    · cases hr
    · cases hr

lemma classify_fault {previous : Category} (h : t.classify scope previous = .error f) :
    f.Blames t := by
  rcases classify_error h with rfl | rfl | rfl
  · exact .identifier
  · exact .lexeme
  · exact .bracket

lemma close_fault (h : c.close t = .error f) : f.Blames t := by
  rw [close] at h
  split at h
  · obtain rfl := Except.error.inj h
    exact .closing
  · split_ifs at h
    obtain rfl := Except.error.inj h
    exact .mismatch _

lemma accept_fault (h : c.accept t = .error f) (hs : t.category ≠ .separator) : f.Blames t := by
  cases hc : t.category with
  | closing =>
    simp only [accept, push, hc] at h
    exact close_fault h
  | separator => exact absurd hc hs
  | start | finish | identifier | operator =>
    simp only [accept, push, hc] at h
    obtain rfl := Except.error.inj h
    exact .lexeme
  | _ =>
    simp only [accept, push, hc] at h
    cases h

lemma category_of_classify {previous : Category} {u : Token}
    (h : t.classify scope previous = .ok u) : u.category ≠ .separator := by
  intro hu
  cases hr : t.role scope previous with
  | error g => simp [Token.classify, hr, bind, Except.bind] at h
  | ok k =>
    simp only [Token.classify, hr, bind, Except.bind] at h
    have hfollow := Token.canFollow_of_place h
    rw [hu] at hfollow
    revert hfollow
    cases previous <;> decide

lemma advance_fault (h : c.advance scope t = .error f) : f.Blames t := by
  cases hu : t.classify scope c.previous with
  | error g =>
    obtain rfl : g = f := by simpa [advance, hu, bind, Except.bind] using h
    exact classify_fault hu
  | ok u =>
    simp only [advance, hu, bind, Except.bind] at h
    have htext := (Token.text_of_classify hu).1
    have hfirst : u.firstChar = t.firstChar := by rw [Token.firstChar, htext, Token.firstChar]
    cases accept_fault h (category_of_classify hu) with
    | identifier => exact htext ▸ .identifier
    | lexeme => exact htext ▸ .lexeme
    | bracket => exact htext ▸ .bracket
    | closing => exact hfirst ▸ .closing
    | mismatch o => exact hfirst ▸ .mismatch o

lemma finish_fault {e : ParseError} (h : c.finish source = .error e) : e.fault.isIncomplete := by
  rw [finish] at h
  split at h
  · obtain rfl := Except.error.inj h
    rfl
  · split_ifs at h
    obtain rfl := Except.error.inj h
    rfl

lemma result_foldlM_step {ts : List Token} {d : Conversion} (h : run scope c ts = some d) :
    (ts.foldlM (step scope source) c).result = .ok d := by
  rw [← toOption_foldlM_step source] at h
  cases hfold : (ts.foldlM (step scope source) c).result with
  | error e => simp [hfold, Except.toOption] at h
  | ok d' => simpa [hfold, Except.toOption] using h

lemma foldlM_step_error {ts : List Token} {e : ParseError}
    (h : (ts.foldlM (step scope source) c).result = .error e) :
    ∃ before t after d f, ts = before ++ t :: after ∧ run scope c before = some d ∧
      d.advance scope t = .error f ∧ e = f.locate source t.offset := by
  induction ts generalizing c with
  | nil => cases h
  | cons t ts ih =>
    rw [List.foldlM_cons, Logged.result_bind, result_step] at h
    cases hd : c.advance scope t with
    | error f =>
      obtain rfl : f.locate source t.offset = e := by
        simpa [hd, bind, Except.bind] using h
      exact ⟨[], t, ts, c, f, rfl, rfl, hd, rfl⟩
    | ok d =>
      rw [hd] at h
      obtain ⟨before, u, after, d', f, rfl, hrun, hadvance, he⟩ := ih h
      -- the accepted tokens in front of the fault grow by this one
      refine ⟨t :: before, u, after, d', f, rfl, ?_, hadvance, he⟩
      rw [run_cons, hd]
      exact hrun

end Conversion

namespace Expression

variable {scope : Scope} {source : String} {ts : List Token}

def Accepted (scope : Scope) (source : String) : Prop := ∃ e, (parse scope source).result = .ok e

def Completable (scope : Scope) (source : String) : Prop :=
  ∃ rest, Accepted scope (source ++ " " ++ rest)

lemma parse_of_run (hts : Token.tokenize source = .ok ts) {c : Conversion}
    (h : Conversion.run scope {} ts = some c) : (parse scope source).result = c.finish source := by
  rw [result_parse, result_convert hts, Conversion.result_foldlM_step h]
  rfl

lemma parse_of_fault {before after : List Token} {t : Token} {c : Conversion} {f : ParseFault}
    (hts : Token.tokenize source = .ok (before ++ t :: after))
    (h : Conversion.run scope {} before = some c) (hf : c.advance scope t = .error f) :
    (parse scope source).result = .error (f.locate source t.offset) := by
  have hfold : ((before ++ t :: after).foldlM (Conversion.step scope source) {}).result =
      .error (f.locate source t.offset) := by
    rw [List.foldlM_append, Logged.result_bind, Conversion.result_foldlM_step h]
    simp only [bind, Except.bind]
    rw [List.foldlM_cons, Logged.result_bind, Conversion.result_step, hf]
    rfl
  rw [result_parse, result_convert hts, hfold]
  rfl

/-- Either all tokens are read and the end is at fault, or one of them is. -/
lemma parse_fault_cases (hts : Token.tokenize source = .ok ts) {e : ParseError}
    (h : (parse scope source).result = .error e) :
    (∃ c, Conversion.run scope {} ts = some c ∧ c.finish source = .error e) ∨
      ∃ before t after c, ∃ f : ParseFault, ts = before ++ t :: after ∧
        Conversion.run scope {} before = some c ∧ c.advance scope t = .error f ∧
        e = f.locate source t.offset := by
  cases hrun : Conversion.run scope {} ts with
  | some c => exact .inl ⟨c, rfl, (parse_of_run hts hrun).symm.trans h⟩
  | none =>
    rw [← Conversion.toOption_foldlM_step source] at hrun
    rw [result_parse, result_convert hts] at h
    cases hfold : (ts.foldlM (Conversion.step scope source) {}).result with
    | ok c => simp [hfold, Except.toOption] at hrun
    | error e' =>
      obtain rfl : e' = e := by simpa [hfold, bind, Except.bind] using h
      exact .inr (Conversion.foldlM_step_error hfold)

lemma parse_error_cases (hts : Token.tokenize source = .ok ts) {e : ParseError}
    (h : (parse scope source).result = .error e) :
    (∃ d, Sketch.run scope .empty ts = some d ∧ d.conversion.finish source = .error e) ∨
      ∃ before t after d, ∃ f : ParseFault, ts = before ++ t :: after ∧ f.Blames t ∧
        e = f.locate source t.offset ∧ Sketch.run scope .empty before = some d ∧
        d.read scope t = none := by
  have hspelled := Token.spelled_of_tokenize hts
  have hrun {us : List Token} (hus : ∀ u ∈ us, u.Spelled) :
      Conversion.run scope {} us = (Sketch.run scope .empty us).map Sketch.conversion :=
    Sketch.run_conversion (Sketch.sound_empty scope) hus
  rcases parse_fault_cases hts h with ⟨c, hc, hfinish⟩ |
    ⟨before, t, after, c, f, rfl, hc, hadvance, rfl⟩
  · rw [hrun hspelled] at hc
    obtain ⟨d, hd, rfl⟩ := Option.map_eq_some_iff.mp hc
    exact .inl ⟨d, hd, hfinish⟩
  · have hbefore : ∀ u ∈ before, u.Spelled := fun u hu => hspelled u (by simp [hu])
    rw [hrun hbefore] at hc
    obtain ⟨d, hd, rfl⟩ := Option.map_eq_some_iff.mp hc
    have hsound := (Sketch.run_sound (Sketch.sound_empty scope) hbefore hd).1
    have hread := Sketch.advance_conversion (hspelled t (by simp)) hsound
    rw [hadvance] at hread
    exact .inr ⟨before, t, after, d, f, rfl, Conversion.advance_fault hadvance, rfl, hd,
      Option.map_eq_none_iff.mp hread.symm⟩

lemma parse_error (hts : Token.tokenize source = .ok ts) {e : ParseError}
    (h : (parse scope source).result = .error e) :
    (∃ d, Sketch.run scope .empty ts = some d ∧ e.fault.isIncomplete) ∨
      ∃ before t after d, ts = before ++ t :: after ∧ e.fault.isIncomplete = false ∧
        e.pointer = ⟨source, t.offset⟩ ∧ Sketch.run scope .empty before = some d ∧
        d.read scope t = none := by
  rcases parse_error_cases hts h with ⟨d, hd, hfinish⟩ | ⟨before, t, after, d, f, hsplit, hf, rfl, hd, hread⟩
  · exact .inl ⟨d, hd, Conversion.finish_fault hfinish⟩
  · exact .inr ⟨before, t, after, d, hsplit, hf.not_incomplete, rfl, hd, hread⟩

lemma accepted_iff {ks : List (Category × String)} (h : Token.Scans source.toList ks) :
    Accepted scope source ↔ ∃ t, Derives scope .expression t ∧ t.tokens.map Token.kind = ks := by
  obtain ⟨ts, hts, rfl⟩ := h source 0
  constructor
  · rintro ⟨e, he⟩
    obtain ⟨t, ht, -⟩ := exists_isTree he
    obtain rfl := Except.ok.inj (ht.tokens.symm.trans hts)
    exact ⟨t, ht.derives, rfl⟩
  · rintro ⟨t, ht, hks⟩
    obtain ⟨u, hu, rfl, -⟩ := ht.relabel _ hks.symm
    exact ⟨u.expression source, IsTree.parse ⟨hts, hu⟩⟩

lemma completable_of_run (hscans : Token.Scans source.toList (ts.map Token.kind))
    (hts : ∀ t ∈ ts, t.Spelled) {d : Sketch} (hd : Sketch.run scope .empty ts = some d) :
    Completable scope source := by
  have hrest : Token.Scans (" ".intercalate (d.completion.map (·.text))).toList
      (d.completion.flatMap fun t => [t.kind]) :=
    Token.scans_intercalate fun t ht => (d.spelled_completion t ht).scans
  have hall := hscans.space hrest
  obtain ⟨t, ht, htokens⟩ := Sketch.exists_derives_completion hts hd
  refine ⟨" ".intercalate (d.completion.map (·.text)), ?_⟩
  rw [accepted_iff (by simpa using hall)]
  exact ⟨t, ht, by simp [htokens, List.map_eq_flatMap]⟩

lemma run_of_accepted {ks : List (Category × String)} (h : Accepted scope source)
    (hscans : Token.Scans source.toList (ts.map Token.kind ++ ks)) :
    ∃ d, Sketch.run scope .empty ts = some d := by
  obtain ⟨t, ht, hkinds⟩ := (accepted_iff hscans).mp h
  obtain ⟨front, back, htokens, hfront, hback⟩ := List.map_eq_append_iff.mp hkinds
  have hus : (ts ++ back).map Token.kind = t.tokens.map Token.kind := by
    rw [htokens, List.map_append, List.map_append, hfront]
  obtain ⟨u, hu, hutokens, -⟩ := ht.relabel _ hus
  have hrun := Sketch.finish_run_tokens hu
  rw [hutokens, Sketch.run_append] at hrun
  cases hd : Sketch.run scope .empty ts with
  | none => simp [hd] at hrun
  | some d => exact ⟨d, rfl⟩

lemma run_of_completable (hts : Token.tokenize source = .ok ts) (h : Completable scope source) :
    ∃ d, Sketch.run scope .empty ts = some d := by
  obtain ⟨rest, hrest⟩ := h
  obtain ⟨e, he⟩ := id hrest
  obtain ⟨t, ht, -⟩ := exists_isTree he
  have hall := Token.scans_of_scan ht.tokens
  have hsplit : (source ++ " " ++ rest).toList = source.toList ++ ' ' :: rest.toList := by simp
  obtain ⟨ks, hks⟩ := (Token.scans_of_scan hts).front (hsplit ▸ hall)
  rw [hks] at hall
  exact run_of_accepted hrest hall

theorem parse_error_exact (hts : Token.tokenize source = .ok ts) :
    ((∃ e, (parse scope source).result = .error e ∧ e.fault.isIncomplete) ↔
      ¬ Accepted scope source ∧ Completable scope source) ∧
    ∀ e, (parse scope source).result = .error e → ¬ e.fault.isIncomplete →
      ∃ before t after, ts = before ++ t :: after ∧ e.pointer = ⟨source, t.offset⟩ ∧
        (Accepted scope (String.ofList (Text.takeBytes t.offset source.toList)) ∨
          Completable scope (String.ofList (Text.takeBytes t.offset source.toList))) ∧
        ∀ other us, Token.tokenize other = .ok us →
          (us.take (before.length + 1)).map Token.kind = (before ++ [t]).map Token.kind →
          ¬ Accepted scope other := by
  have hspelled := Token.spelled_of_tokenize hts
  refine ⟨⟨?_, ?_⟩, ?_⟩
  · rintro ⟨e, he, hincomplete⟩
    have hrejected : ¬ Accepted scope source := by
      rintro ⟨e', he'⟩
      rw [he] at he'
      cases he'
    rcases parse_error hts he with ⟨d, hd, -⟩ | ⟨before, t, after, d, -, hwrong, -⟩
    · exact ⟨hrejected, completable_of_run (Token.scans_of_scan hts) hspelled hd⟩
    · rw [hwrong] at hincomplete
      cases hincomplete
  · rintro ⟨hrejected, hcompletable⟩
    cases he : (parse scope source).result with
    | ok e => exact absurd ⟨e, he⟩ hrejected
    | error e =>
      rcases parse_error hts he with ⟨d, hd, hincomplete⟩ | ⟨before, t, after, d, rfl, -, -, hd, hread⟩
      · exact ⟨e, rfl, hincomplete⟩
      · -- a token at fault would be read in front of any completion
        obtain ⟨d', hd'⟩ := run_of_completable hts hcompletable
        rw [Sketch.run_append, hd, Option.bind_some, Sketch.run_cons, hread] at hd'
        cases hd'
  · intro e he hwrong
    rcases parse_error hts he with ⟨d, -, hincomplete⟩ | ⟨before, t, after, d, rfl, -, hp, hd, hread⟩
    · exact absurd hincomplete hwrong
    refine ⟨before, t, after, rfl, hp, .inr ?_, ?_⟩
    · obtain ⟨front, back, hsource, hoffset, hfront⟩ := Token.scans_front hts
      rw [hsource, hoffset, Nat.zero_add, Token.takeBytes_front]
      apply completable_of_run _ (fun u hu => hspelled u (by simp [hu])) hd
      simpa using hfront
    · intro other us hus hkinds hother
      have hall := Token.scans_of_scan hus
      rw [← List.take_append_drop (before.length + 1) us, List.map_append, hkinds] at hall
      obtain ⟨d', hd'⟩ := run_of_accepted hother hall
      rw [Sketch.run_append, hd, Option.bind_some, Sketch.run_cons, hread] at hd'
      cases hd'

theorem parse_error_exact_closing :
    Accepted ⟨fun _ => none, fun _ => none⟩ "(2*" ∨
      Completable ⟨fun _ => none, fun _ => none⟩ "(2*" := by
  have hts : Token.tokenize "(2*)3" = .ok [⟨.opening, "(", 0⟩, ⟨.number, "2", 1⟩,
      ⟨.operator, "*", 2⟩, ⟨.closing, ")", 3⟩, ⟨.number, "3", 4⟩] := by
    cbv
  have hparse : (parse ⟨fun _ => none, fun _ => none⟩ "(2*)3").result =
      .error ⟨.unexpectedLexeme ")", "(2*)3", 3⟩ := by
    cbv
  obtain ⟨before, t, after, -, hpointer, hfront, -⟩ :=
    (parse_error_exact hts).2 _ hparse (by decide)
  have hoffset : 3 = t.offset := congrArg Pointer.offset hpointer
  rw [← hoffset] at hfront
  exact hfront

end Expression

end Reckoner
