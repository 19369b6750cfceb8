import Reckoner.Proofs.Conversion.Brackets
import Reckoner.Proofs.Journal.Quiet

/-! What reading a source leaves in the journal: each token that reaches the conversion, with the
part it has there, and the whole once it is read. -/

namespace Reckoner

variable {scope : Scope} {source : String}

/-- What a token has from the source alone. -/
def Token.origin (t : Token) : String × Nat := (t.text, t.offset)

lemma Token.map_origin {previous : Category} {ts us : List Token}
    (h : classifyAll scope previous ts = .ok us) : us.map origin = ts.map origin := by
  induction ts generalizing previous us with
  | nil =>
    obtain rfl := Except.ok.inj h
    rfl
  | cons t ts ih =>
    obtain ⟨u, us, hu, hus, rfl⟩ := classifyAll_cons.mp h
    obtain ⟨htext, hoffset⟩ := text_of_classify hu
    simp [ih hus, origin, htext, hoffset]

/-- Why reading ends without an expression, and the tokens that have reached the conversion by
then. The token at fault is one of them if it is the conversion that refuses it. -/
inductive Stops (scope : Scope) (source : String) (ts : List Token) :
    ParseError → List Token → Prop
  | unclassified {before after us opened : List Token} {t : Token} {f : ParseFault} :
      ts = before ++ t :: after → Brackets.Passes scope before us opened →
      t.classify scope (Token.lastCategory .start us) = .error f →
      Stops scope source ts (f.locate source t.offset) us
  | refused {before after us opened : List Token} {t u : Token} :
      ts = before ++ t :: after → Brackets.Passes scope before us opened →
      t.classify scope (Token.lastCategory .start us) = .ok u → Brackets.read opened u = none →
      Stops scope source ts ((Brackets.fault opened u).locate source t.offset) (us ++ [u])
  | unfinished {us opened : List Token} {e : ParseError} :
      Brackets.Passes scope ts us opened → e.fault.isIncomplete → Stops scope source ts e us

lemma Stops.map_origin {ts us : List Token} {e : ParseError} (h : Stops scope source ts e us) :
    us.map Token.origin <+: ts.map Token.origin := by
  cases h with
  | unclassified hts hpasses =>
    rw [Token.map_origin hpasses.classified, hts, List.map_append]
    exact List.prefix_append _ _
  | @refused before after us opened t u hts hpasses hu =>
    obtain ⟨htext, hoffset⟩ := Token.text_of_classify hu
    have hu : u.origin = t.origin := by rw [Token.origin, htext, hoffset, Token.origin]
    rw [List.map_append, Token.map_origin hpasses.classified, hts, List.map_append]
    exact ⟨after.map Token.origin, by simp [hu]⟩
  | unfinished hpasses => rw [Token.map_origin hpasses.classified]

namespace Conversion

variable {c : Conversion} {t u : Token} {ts us opened : List Token}

lemma records_step (h : t.classify scope c.previous = .ok u) :
    (step scope source c t).records = [.shunting u] := by
  rw [step, h, Logged.records_bind_ok rfl, Logged.records_bind_ok rfl]
  rfl

lemma records_step_error {f : ParseFault} (h : t.classify scope c.previous = .error f) :
    (step scope source c t).records = [] := by
  rw [step, h]
  rfl

lemma records_foldlM_append (h : run scope {} ts = some c) (rest : List Token) :
    ((ts ++ rest).foldlM (step scope source) {}).records =
      (ts.foldlM (step scope source) {}).records ++
        (rest.foldlM (step scope source) c).records := by
  rw [List.foldlM_append, Logged.records_bind_ok (result_foldlM_step h)]

/-- Nothing comes behind a token that is at fault. -/
lemma records_foldlM_fault {f : ParseFault} (h : c.advance scope t = .error f) (rest : List Token) :
    ((t :: rest).foldlM (step scope source) c).records = (step scope source c t).records := by
  have hstep : (step scope source c t).result = .error (f.locate source t.offset) := by
    rw [result_step, h]
    rfl
  rw [List.foldlM_cons, Logged.records_bind_error hstep]

theorem records_of_passes (hts : ∀ t ∈ ts, t.Spelled) (h : Brackets.Passes scope ts us opened) :
    (ts.foldlM (step scope source) {}).records = us.map .shunting := by
  induction ts using List.reverseRecOn generalizing us opened with
  | nil =>
    obtain ⟨rfl, -⟩ := Brackets.passes_nil.mp h
    rfl
  | append_singleton ts t ih =>
    obtain ⟨us, u, before, hbefore, hu, -, rfl⟩ := Brackets.passes_concat.mp h
    have hspelled : ∀ t ∈ ts, t.Spelled := fun t ht => hts t (by simp [ht])
    obtain ⟨c, hrun, haccepted, -⟩ := run_of_passes hspelled hbefore
    rw [← previous_eq haccepted] at hu
    rw [records_foldlM_append hrun, ih hspelled hbefore, List.map_append]
    simp [records_step hu]

/-- The token at fault leaves a record if it is classified. -/
theorem stops_of_advance {before after : List Token} {f : ParseFault}
    (hts : ∀ v ∈ before ++ t :: after, v.Spelled) (hrun : run scope {} before = some c)
    (h : c.advance scope t = .error f) :
    ∃ us, Stops scope source (before ++ t :: after) (f.locate source t.offset) us ∧
      ((before ++ t :: after).foldlM (step scope source) {}).records = us.map .shunting := by
  have hspelled : ∀ v ∈ before, v.Spelled := fun v hv => hts v (by simp [hv])
  obtain ⟨opened, hpasses, htracks⟩ := passes_of_run hspelled hrun
  rw [records_foldlM_append hrun, records_of_passes hspelled hpasses, records_foldlM_fault h]
  cases hu : t.classify scope c.previous with
  | error g =>
    obtain rfl : g = f := by simpa [advance, hu, bind, Except.bind] using h
    rw [records_step_error hu, List.append_nil]
    rw [previous_eq rfl] at hu
    exact ⟨_, .unclassified rfl hpasses hu, rfl⟩
  | ok u =>
    have halike := accept_alike htracks (hts t (by simp)) hu
    rw [← advance_of_classify hu, h] at halike
    rw [records_step hu]
    rw [previous_eq rfl] at hu
    generalize hread : Brackets.read opened u = o at halike
    cases halike with
    | stuck => exact ⟨_, .refused rfl hpasses hu hread, by simp⟩

end Conversion

namespace Expression

variable {ts : List Token}

lemma records_parse_error {e : ParseError} (h : (parse scope source).result = .error e) :
    (parse scope source).records = (convert scope source).records := by
  rw [result_parse] at h
  rw [parse, Logged.records_bind_error h]

lemma records_parse {e : Expression} (h : (parse scope source).result = .ok e) :
    (parse scope source).records =
      (convert scope source).records ++ [.parsed source e.postfixText] := by
  rw [result_parse] at h
  rw [parse, Logged.records_bind_ok h]
  rfl

lemma records_convert_error {e : ParseError} (hts : Token.tokenize source = .error e) :
    (convert scope source).records = [] := by
  rw [convert, hts]
  rfl

lemma records_convert (hts : Token.tokenize source = .ok ts) :
    (convert scope source).records = (ts.foldlM (Conversion.step scope source) {}).records := by
  rw [convert, hts, Logged.records_bind_ok rfl, Logged.records_ofExcept, List.nil_append,
    Logged.records_bind]
  cases (ts.foldlM (Conversion.step scope source) {}).result <;> simp

lemma classifyAll_of_parse (hts : Token.tokenize source = .ok ts) {e : Expression}
    (h : (parse scope source).result = .ok e) :
    ∃ opened, Brackets.Passes scope ts e.infixTokens opened := by
  rw [result_parse, result_convert hts] at h
  obtain ⟨c, hfold, hfinish⟩ := Outcome.bind_eq_ok.mp h
  have hrun : Conversion.run scope {} ts = some c := by
    rw [← Conversion.toOption_foldlM_step source, hfold]
    rfl
  obtain ⟨opened, hpasses, -⟩ := Conversion.passes_of_run (Token.spelled_of_tokenize hts) hrun
  have hinfix : e.infixTokens = c.accepted.toList := by
    unfold Conversion.finish at hfinish
    split at hfinish
    · cases hfinish
    · split_ifs at hfinish
      obtain rfl := Except.ok.inj hfinish
      rfl
  exact ⟨opened, hinfix ▸ hpasses⟩

lemma records_of_parse (hts : Token.tokenize source = .ok ts) {e : Expression}
    (h : (parse scope source).result = .ok e) :
    (parse scope source).records =
      e.infixTokens.map .shunting ++ [.parsed source e.postfixText] := by
  obtain ⟨opened, hpasses⟩ := classifyAll_of_parse hts h
  rw [records_parse h, records_convert hts,
    Conversion.records_of_passes (Token.spelled_of_tokenize hts) hpasses]

lemma stops_of_parse (hts : Token.tokenize source = .ok ts) {e : ParseError}
    (h : (parse scope source).result = .error e) :
    ∃ us, Stops scope source ts e us ∧ (parse scope source).records = us.map .shunting := by
  have hspelled := Token.spelled_of_tokenize hts
  rw [records_parse_error h, records_convert hts]
  rcases parse_fault_cases hts h with ⟨c, hrun, hfinish⟩ |
    ⟨before, t, after, c, f, rfl, hrun, hadvance, rfl⟩
  · obtain ⟨opened, hpasses, -⟩ := Conversion.passes_of_run hspelled hrun
    exact ⟨_, .unfinished hpasses (Conversion.finish_fault hfinish),
      Conversion.records_of_passes hspelled hpasses⟩
  · exact Conversion.stops_of_advance hspelled hrun hadvance

end Expression

end Reckoner
