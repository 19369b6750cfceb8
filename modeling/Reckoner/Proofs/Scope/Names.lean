import Mathlib.Data.List.TFAE
import Mathlib.Tactic.TFAE
import Reckoner.Proofs.Calculator.Frame
import Reckoner.Proofs.Conversion.Brackets
import Reckoner.Proofs.Diagnostic.Pointing
import Reckoner.Proofs.Token.Name

/-! Names that can be bound. They are the identifiers of sources, so a name that a source lacks
can always be supplied. What stands in front of it is then read as before, and the next failure
is behind it. -/

namespace Reckoner

variable {scope scope' : Scope} {source name : String} {before after ts : List Token} {t : Token}

section Tables

variable {values : VariableTable} {functions : FunctionTable}

lemma VariableTable.exists_add_iff {x : Float} :
    (∃ u, values.add name x = .ok u) ↔ Lexeme.isIdentifier name := by
  simp [VariableTable.add_eq_ok]

lemma FunctionTable.exists_add_iff {function : UnaryFunction} (hfree : functions.get? name = none) :
    (∃ u, functions.add name function = .ok u) ↔ Lexeme.isIdentifier name := by
  simp [FunctionTable.add_eq_ok, hfree]

end Tables

lemma Token.classify_unknown {previous : Category}
    (h : t.classify scope previous = .error (.unknownIdentifier name)) :
    t.category = .identifier ∧ t.text = name ∧ scope.nameCategory? name = none := by
  cases hr : t.role scope previous with
  | ok k =>
    simp only [classify, hr, bind, Except.bind, place] at h
    split_ifs at h <;> cases h
  | error f =>
    obtain rfl : f = .unknownIdentifier name := by simpa [classify, hr, bind, Except.bind] using h
    unfold role at hr
    split at hr
    next hc =>
      split at hr
      · cases hr
      next hnone =>
        obtain rfl := ParseFault.unknownIdentifier.inj (Except.error.inj hr)
        exact ⟨hc, rfl, hnone⟩
    all_goals cases hr

lemma Token.bound_of_classify {previous : Category} {u : Token}
    (h : t.classify scope previous = .ok u) (hc : t.category = .identifier) :
    scope.nameCategory? t.text ≠ none := by
  intro hnone
  simp [classify, role, hc, hnone, bind, Except.bind] at h

namespace Conversion

variable {c d : Conversion}

lemma advance_unknown (ht : t.Spelled) (h : c.advance scope t = .error (.unknownIdentifier name)) :
    t.category = .identifier ∧ t.text = name ∧ scope.nameCategory? name = none := by
  cases hu : t.classify scope c.previous with
  | ok u =>
    rw [advance_of_classify hu] at h
    rcases accept_error (isClassified_of_classify ht hu) h with hf | ⟨o, hf⟩ <;> cases hf
  | error f =>
    obtain rfl : f = .unknownIdentifier name := by simpa [advance, hu, bind, Except.bind] using h
    exact Token.classify_unknown hu

lemma run_append (c : Conversion) (ts us : List Token) :
    run scope c (ts ++ us) = (run scope c ts).bind fun d => run scope d us :=
  List.foldlM_append

lemma run_congr (h : ∀ t ∈ ts, t.category = .identifier → scope.BindsAlike scope' t.text)
    (c : Conversion) : run scope c ts = run scope' c ts := by
  rw [← toOption_foldlM_step "", foldlM_step_congr "" h, toOption_foldlM_step]

lemma bound_of_run (h : run scope c ts = some d) :
    ∀ t ∈ ts, t.category = .identifier → scope.nameCategory? t.text ≠ none := by
  induction ts generalizing c with
  | nil => simp
  | cons t ts ih =>
    rw [run_cons] at h
    obtain ⟨e, he, hrest⟩ := Option.bind_eq_some_iff.mp h
    refine List.forall_mem_cons.mpr ⟨fun hc => ?_, ih hrest⟩
    cases hu : t.classify scope c.previous with
    | ok u => exact Token.bound_of_classify hu hc
    | error f => simp [advance, hu, bind, Except.bind, Except.toOption] at he

lemma finish_error {e : ParseError} (h : c.finish source = .error e) :
    (∃ b, e.fault = .missingClosing b) ∨ e = ⟨.unexpectedEnd, .endOf source⟩ := by
  rw [finish] at h
  split at h
  · obtain rfl := Except.error.inj h
    exact .inl ⟨_, rfl⟩
  · split_ifs at h
    exact .inr (Except.error.inj h).symm

end Conversion

namespace Expression

/-- Where the tokens in front of a token are read, nothing in front of it is at fault. -/
lemma offset_of_parse_error (hts : Token.tokenize source = .ok (before ++ t :: after))
    {c : Conversion} (hrun : Conversion.run scope {} before = some c) {e : ParseError}
    (h : (parse scope source).result = .error e) :
    (∃ b, e.fault = .missingClosing b) ∨ t.offset ≤ e.pointer.offset := by
  have hordered := ((Token.segments_iff source _).mp hts).ordered
  rcases parse_fault_cases hts h with ⟨d, -, hfinish⟩ |
    ⟨before', t', after', d, f, hsplit, hrun', hadvance, rfl⟩
  · rcases Conversion.finish_error hfinish with hmissing | rfl
    · exact .inl hmissing
    · right
      have hle := (Token.shown_of_tokenize hts t (by simp)).pointsInto.offset_le
      rwa [← Text.byteSize_toList] at hle
  · right
    show t.offset ≤ t'.offset
    rcases List.append_eq_append_iff.mp hsplit with ⟨mid, rfl, htail⟩ | ⟨mid, rfl, htail⟩
    · cases mid with
      | nil =>
        obtain ⟨rfl, -⟩ := List.cons.inj htail
        exact Nat.le_refl _
      | cons m mid =>
        obtain ⟨rfl, rfl⟩ := List.cons.inj htail
        obtain ⟨-, hbehind, -⟩ := List.pairwise_append.mp hordered
        exact Nat.le_of_lt ((List.pairwise_cons.mp hbehind).1 t' (by simp)).1
    · cases mid with
      | nil =>
        obtain ⟨rfl, -⟩ := List.cons.inj htail
        exact Nat.le_refl _
      | cons m mid =>
        -- a token that is at fault is not read
        obtain ⟨rfl, -⟩ := List.cons.inj htail
        rw [Conversion.run_append, hrun', Option.bind_some, Conversion.run_cons, hadvance] at hrun
        cases hrun

section Repair

variable {values : VariableTable} {function? : String → Option UnaryFunction}

/-- The front of the source up to the first occurrence of a name that is bound to nothing. -/
lemma exists_unknown {p : Pointer}
    (h : (parse scope source).result = .error ⟨.unknownIdentifier name, p⟩) :
    ∃ before t after c, Token.tokenize source = .ok (before ++ t :: after) ∧
      Conversion.run scope {} before = some c ∧ t.category = .identifier ∧ t.text = name ∧
      scope.nameCategory? name = none ∧ p = ⟨source, t.offset⟩ := by
  cases hts : Token.tokenize source with
  | error e =>
    obtain ⟨c, o, rfl, -⟩ := Token.stray_of_error hts
    cases (result_parse_error hts).symm.trans h
  | ok ts =>
    rcases parse_fault_cases hts h with ⟨d, -, hfinish⟩ |
      ⟨before, t, after, c, f, rfl, hrun, hadvance, he⟩
    · cases Conversion.finish_fault hfinish
    · obtain ⟨rfl, rfl⟩ := ParseError.mk.inj he
      obtain ⟨hc, htext, hnone⟩ :=
        Conversion.advance_unknown (Token.spelled_of_tokenize hts t (by simp)) hadvance
      exact ⟨before, t, after, c, rfl, hrun, hc, htext, hnone, rfl⟩

lemma not_unknown_insert (h : Lexeme.isIdentifier name) (x : Float) :
    (⟨(values.insert name x h).get?, function?⟩ : Scope).nameCategory? name ≠ none := by
  unfold Scope.nameCategory?
  simp only [Table.get?_insert, if_pos]
  split_ifs <;> simp_all

lemma bindsAlike_insert (h : Lexeme.isIdentifier name) (x : Float) {other : String}
    (hne : other ≠ name) : (⟨values.get?, function?⟩ : Scope).BindsAlike
      ⟨(values.insert name x h).get?, function?⟩ other := by
  refine ⟨?_, rfl⟩
  show (values.get? other).isSome = ((values.insert name x h).get? other).isSome
  rw [Table.get?_insert_of_ne h hne]

lemma parse_repaired {p : Pointer} {e : ParseError} (hname : Lexeme.isIdentifier name) (x : Float)
    (h : (parse ⟨values.get?, function?⟩ source).result = .error ⟨.unknownIdentifier name, p⟩)
    (he : (parse ⟨(values.insert name x hname).get?, function?⟩ source).result = .error e) :
    e.fault ≠ .unknownIdentifier name ∧
      ((∃ b, e.fault = .missingClosing b) ∨ p.offset ≤ e.pointer.offset) := by
  constructor
  · obtain ⟨fault, q⟩ := e
    rintro rfl
    obtain ⟨-, -, -, -, -, -, -, -, hnone, -⟩ := exists_unknown he
    exact not_unknown_insert hname x hnone
  · obtain ⟨before, t, after, c, hts, hrun, hc, rfl, hnone, rfl⟩ := exists_unknown h
    -- the name does not occur in front of its first occurrence, so nothing changes there
    have hfront : ∀ u ∈ before, u.category = .identifier →
        (⟨values.get?, function?⟩ : Scope).BindsAlike
          ⟨(values.insert t.text x hname).get?, function?⟩ u.text := by
      intro u hu huc
      refine bindsAlike_insert hname x fun heq => ?_
      exact Conversion.bound_of_run hrun u hu huc (heq ▸ hnone)
    rw [Conversion.run_congr hfront] at hrun
    exact offset_of_parse_error hts hrun he

end Repair

theorem names_exact :
    (∀ name : String, List.TFAE [
      Lexeme.isIdentifier name,
      Token.SpansName name,
      Lexeme.IsName name.toList,
      Token.tokenize name = .ok [⟨.identifier, name, 0⟩],
      ∀ (values : VariableTable) (x : Float), ∃ u, values.add name x = .ok u,
      ∀ (functions : FunctionTable) (function : UnaryFunction), functions.get? name = none →
        ∃ u, functions.add name function = .ok u]) ∧
    (∀ source ts, Token.tokenize source = .ok ts →
      ∀ t ∈ ts, t.category = .identifier → Lexeme.IsName t.text.toList) ∧
    ∀ (values : VariableTable) (function? : String → Option UnaryFunction) source name p,
      (parse ⟨values.get?, function?⟩ source).result = .error ⟨.unknownIdentifier name, p⟩ →
      ∀ x, ∃ u, values.add name x = .ok u ∧ ∀ e, (parse ⟨u.get?, function?⟩ source).result = .error e →
        e.fault ≠ .unknownIdentifier name ∧
          ((∃ b, e.fault = .missingClosing b) ∨ p.offset ≤ e.pointer.offset) := by
  refine ⟨fun name => ?_, fun source ts hts t ht hc => ?_, ?_⟩
  · tfae_have 1 → 2 := Token.spansName_of_isIdentifier
    tfae_have 2 → 4 := Token.SpansName.tokenize
    tfae_have 4 → 1 := Token.isIdentifier_of_tokenize
    tfae_have 1 ↔ 3 := Lexeme.isIdentifier_iff_isName
    tfae_have 1 → 5 := fun h _ _ => VariableTable.exists_add_iff.mpr h
    tfae_have 5 → 1 := fun h => VariableTable.exists_add_iff.mp (h .empty 0)
    tfae_have 1 → 6 := fun h _ _ hfree => (FunctionTable.exists_add_iff hfree).mpr h
    tfae_have 6 → 1 := fun h => (FunctionTable.exists_add_iff rfl).mp (h .empty .ok rfl)
    tfae_finish
  · exact Lexeme.isIdentifier_iff_isName.mp ((Token.spelled_of_tokenize hts t ht).isIdentifier hc)
  · intro values function? source name p h x
    obtain ⟨before, t, after, c, hts, -, hc, rfl, -, -⟩ := exists_unknown h
    have hname := (Token.spelled_of_tokenize hts t (by simp)).isIdentifier hc
    exact ⟨_, VariableTable.add_eq_ok.mpr ⟨hname, rfl⟩, fun e he => parse_repaired hname x h he⟩

theorem names_exact_repaired : ∃ u, VariableTable.add .empty "y" 3 = .ok u ∧
    ∀ e, (parse ⟨u.get?, fun _ => none⟩ "(2*y+y) z").result = .error e →
      e.fault ≠ .unknownIdentifier "y" ∧ ((∃ b, e.fault = .missingClosing b) ∨ 3 ≤ e.pointer.offset) := by
  have hparse : (parse ⟨(.empty : VariableTable).get?, fun _ => none⟩ "(2*y+y) z").result =
      .error ⟨.unknownIdentifier "y", "(2*y+y) z", 3⟩ := by
    cbv
  exact names_exact.2.2 .empty (fun _ => none) "(2*y+y) z" "y" _ hparse 3

end Expression

end Reckoner
