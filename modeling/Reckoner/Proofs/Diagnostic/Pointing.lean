import Reckoner.Proofs.Conversion.Failure
import Reckoner.Proofs.Evaluation.Faults
import Reckoner.Proofs.Token.Segmentation

/-! Where diagnostics point. A pointer carries the whole source and stands between two of its
characters, and the source goes on there with what the diagnostic names. -/

namespace Reckoner

namespace Pointer

/-- The pointer stands between two characters of the source and shows the caret below the
second. -/
structure PointsInto (p : Pointer) (source : String) : Prop where
  source_eq : p.source = source
  offset_le : p.offset ≤ source.utf8ByteSize
  boundary : String.Pos.Raw.IsValid source ⟨p.offset⟩
  caret : ∃ front back, source = front ++ back ∧ front.utf8ByteSize = p.offset ∧
    p.render = source ++ "\n" ++ String.ofList (List.replicate front.length ' ') ++ "^"

lemma Shows.pointsInto {source text : String} {o : Nat}
    (h : (⟨source, o⟩ : Pointer).Shows text) : (⟨source, o⟩ : Pointer).PointsInto source := by
  obtain ⟨front, back, hsource, rfl⟩ := h
  have hsplit : source = front ++ (text ++ back) := by rw [← String.append_assoc]; exact hsource
  refine ⟨rfl, ?_, ?_, front, text ++ back, hsplit, rfl, ?_⟩
  · rw [hsplit, String.utf8ByteSize_append]
    exact Nat.le_add_right _ _
  · exact String.Pos.Raw.isValid_iff_exists_append.mpr ⟨front, text ++ back, hsplit, rfl⟩
  · have hcolumn : (⟨source, front.utf8ByteSize⟩ : Pointer).column = front.length := by
      rw [column_eq, hsplit, String.toList_append, ← Text.byteSize_toList, Token.takeBytes_front,
        String.length_toList]
    rw [render, hcolumn]

lemma shows_endOf (source : String) : (endOf source).Shows "" :=
  ⟨source, "", by simp [endOf], by rw [endOf, Text.byteSize_toList]⟩

end Pointer

/-- The source goes on with what the error names at the place of the error. A function that
is called without a bracket at the end of the source stands for the bracket. -/
def ParseError.Marks (scope : Scope) (e : ParseError) : Prop :=
  match e.fault with
  | .unknownSymbol c | .unexpectedClosing c | .mismatch _ c => e.pointer.Shows (String.singleton c)
  | .unknownIdentifier text | .unexpectedLexeme text | .callBracket text => e.pointer.Shows text
  | .missingClosing c => e.pointer.Shows (String.singleton c) ∨
      c = '(' ∧ ∃ ts t, Token.tokenize e.pointer.source = .ok (ts ++ [t]) ∧
        t.offset = e.pointer.offset ∧ (scope.function? t.text).isSome ∧ e.pointer.Shows t.text
  | .unexpectedEnd => e.pointer.offset = e.pointer.source.utf8ByteSize
  | .separatorOutsideBrackets => False

def EvalError.Marks : EvalError → Prop
  | .atToken (.unknownVariable name) p | .atToken (.unknownFunction name) p
  | .atToken (.domain name _) p => p.Shows name
  | .atToken .divisionByZero p => p.Shows "/"
  | _ => False

namespace Token

variable {source : String} {t : Token} {ts : List Token}

lemma shown_of_tokenize (h : tokenize source = .ok ts) :
    ∀ t ∈ ts, (⟨source, t.offset⟩ : Pointer).Shows t.text :=
  fun t ht => (((segments_iff source ts).mp h).pieces t ht).shown

lemma Spelled.shows_firstChar (ht : t.Spelled) {p : Pointer} (h : p.Shows t.text) :
    p.Shows (String.singleton t.firstChar) := by
  obtain ⟨c, tail, htext, -⟩ := ht
  rw [htext] at h
  have hfirst : t.firstChar = c := by simp [firstChar, htext]
  rw [hfirst]
  exact h.first

end Token

lemma ParseFault.Blames.marks {scope : Scope} {source : String} {t : Token} {f : ParseFault}
    (h : f.Blames t) (ht : t.Spelled) (hshown : (⟨source, t.offset⟩ : Pointer).Shows t.text) :
    (f.locate source t.offset).Marks scope := by
  cases h with
  | identifier | lexeme | bracket => exact hshown
  | closing | mismatch => exact ht.shows_firstChar hshown

namespace Sketch

variable {source : String}

lemma find?_pending {fs : List Frame} {t : Token}
    (h : (fs.flatMap Frame.pending).find? Conversion.isUnclosed = some t) :
    ∃ f o, Frame.bracket f o ∈ fs ∧ t = o.resolve .opening := by
  induction fs with
  | nil => cases h
  | cons frame fs ih =>
    cases frame with
    | bracket f o =>
      obtain rfl : o.resolve .opening = t := by
        simpa [Frame.pending, Conversion.isUnclosed, Token.resolve] using h
      exact ⟨f, o, by simp, rfl⟩
    | operator | negation =>
      obtain ⟨f, o, hmem, ht⟩ := ih (by
        simpa [Frame.pending, Conversion.isUnclosed, Token.resolve] using h)
      exact ⟨f, o, by simp [hmem], ht⟩

/-- What is missing at the end is the rest of a call, a closing bracket or an operand. -/
lemma finish_error {d : Sketch} {e : ParseError} (h : d.conversion.finish source = .error e) :
    (∃ f, d.focus = .named f ∧ e = ⟨.missingClosing '(', source, f.offset⟩) ∨
      (∃ o ∈ d.tokens, e = ⟨.missingClosing o.firstChar, source, o.offset⟩) ∨
      e = ⟨.unexpectedEnd, .endOf source⟩ := by
  obtain ⟨fs, focus⟩ := d
  have hframes {t : Token} (ht : (fs.flatMap Frame.pending).find? Conversion.isUnclosed = some t)
      (he : ⟨.missingClosing (Conversion.openingChar t), source, t.offset⟩ = e) :
      ∃ o ∈ (⟨fs, focus⟩ : Sketch).tokens, e = ⟨.missingClosing o.firstChar, source, o.offset⟩ := by
    obtain ⟨f, o, hmem, rfl⟩ := find?_pending ht
    refine ⟨o, ?_, he.symm⟩
    simp only [tokens, List.mem_append, List.mem_flatMap, List.mem_reverse]
    exact .inl ⟨_, hmem, by simp [Frame.tokens]⟩
  rw [Conversion.finish] at h
  cases focus with
  | named f =>
    left
    refine ⟨f, rfl, ?_⟩
    simpa [conversion, Focus.pending, Conversion.isUnclosed, Token.resolve, Conversion.openingChar]
      using h.symm
  | due | operand =>
    right
    split at h
    next t ht => exact .inl (hframes ht (Except.error.inj h))
    next =>
      split_ifs at h
      exact .inr (Except.error.inj h).symm

end Sketch

namespace Expression

variable {scope bound : Scope} {source : String} {e : Expression}

lemma pointer_of_parse_error {fault : ParseError}
    (h : (parse scope source).result = .error fault) :
    fault.pointer.PointsInto source ∧ fault.Marks scope := by
  cases hts : Token.tokenize source with
  | error e =>
    obtain rfl : e = fault := Except.error.inj ((result_parse_error hts).symm.trans h)
    obtain ⟨c, o, rfl, hstray⟩ := Token.stray_of_error hts
    exact ⟨hstray.shown.pointsInto, hstray.shown⟩
  | ok ts =>
    have hspelled := Token.spelled_of_tokenize hts
    have hshown := Token.shown_of_tokenize hts
    rcases parse_error_cases hts h with ⟨d, hd, hfinish⟩ | ⟨before, t, after, d, f, rfl, hf, rfl, -, -⟩
    · obtain ⟨hsound, htokens⟩ := Sketch.run_sound (Sketch.sound_empty scope) hspelled hd
      obtain rfl : d.tokens = ts := htokens
      rcases Sketch.finish_error hfinish with ⟨f, hf, rfl⟩ | ⟨o, ho, rfl⟩ | rfl
      · obtain ⟨fs, focus⟩ := d
        subst hf
        have hlast := hshown f (by simp [Sketch.tokens, Focus.tokens])
        exact ⟨hlast.pointsInto, .inr ⟨rfl, _, f, hts, rfl, hsound.focused.2, hlast⟩⟩
      · exact ⟨(hshown o ho).pointsInto, .inl ((hspelled o ho).shows_firstChar (hshown o ho))⟩
      · exact ⟨(Pointer.shows_endOf source).pointsInto, Text.byteSize_toList source⟩
    · have ht := hshown t (by simp)
      exact ⟨ht.pointsInto, hf.marks (hspelled t (by simp)) ht⟩

lemma shown_of_parse (h : (parse scope source).result = .ok e) :
    ∀ t ∈ e.infixTokens, (⟨e.source, t.offset⟩ : Pointer).Shows t.text := by
  obtain ⟨t, ht, rfl⟩ := exists_isTree h
  intro u hu
  have hplace := List.mem_map_of_mem (f := fun u : Token => (u.text, u.offset)) hu
  rw [Tree.expression, t.map_leaves Prod.mk] at hplace
  obtain ⟨v, hv, hvu⟩ := List.mem_map.mp hplace
  obtain ⟨htext, hoffset⟩ := Prod.mk.inj hvu
  rw [← htext, ← hoffset]
  exact Token.shown_of_tokenize ht.tokens v hv

lemma pointer_of_fault {fault : EvalError} (h : e.Faults scope fault)
    (hshown : ∀ t ∈ e.infixTokens, (⟨e.source, t.offset⟩ : Pointer).Shows t.text) :
    ∃ p, fault.pointer? = some p ∧ p.PointsInto e.source ∧ fault.Marks := by
  cases h with
  | unboundVariable ht | unboundFunction ht | domain ht | division ht =>
    have ht := hshown _ ht
    exact ⟨_, rfl, ht.pointsInto, ht⟩

theorem diagnostics_point (scope : Scope) (source : String) :
    (∀ fault, (parse scope source).result = .error fault →
      fault.pointer.PointsInto source ∧ fault.Marks scope) ∧
    ∀ e, (parse scope source).result = .ok e → ∀ bound fault,
      (e.calculate bound).result = .error fault →
        ∃ p, fault.pointer? = some p ∧ p.PointsInto source ∧ fault.Marks := by
  refine ⟨fun fault => pointer_of_parse_error, ?_⟩
  intro e he bound fault hfault
  have hsource : e.source = source := by
    obtain ⟨t, -, rfl⟩ := exists_isTree he
    rfl
  exact hsource ▸ pointer_of_fault (faults_of_calculate he hfault) (shown_of_parse he)

theorem diagnostics_point_examples :
    (⟨"1+f", 2⟩ : Pointer).PointsInto "1+f" ∧ (⟨"y/é", 2⟩ : Pointer).Shows "é" ∧
      (⟨"-y/x", 1⟩ : Pointer).Shows "y" := by
  have hcall : (parse ⟨fun _ => none, fun _ => some .ok⟩ "1+f").result =
      .error ⟨.missingClosing '(', "1+f", 2⟩ := by
    cbv
  have hsymbol : (parse ⟨fun _ => none, fun _ => none⟩ "y/é").result =
      .error ⟨.unknownSymbol 'é', "y/é", 2⟩ := by
    cbv
  have hparse : (parse ⟨fun _ => some 1, fun _ => none⟩ "-y/x").result = .ok ⟨"-y/x",
      [⟨.unary, "-", 0⟩, ⟨.variableName, "y", 1⟩, ⟨.binary, "/", 2⟩, ⟨.variableName, "x", 3⟩],
      [⟨.variableName, "y", 1⟩, ⟨.unary, "-", 0⟩, ⟨.variableName, "x", 3⟩, ⟨.binary, "/", 2⟩]⟩ := by
    cbv
  obtain ⟨p, -, -, hmarks⟩ := (diagnostics_point _ _).2 _ hparse ⟨fun _ => none, fun _ => none⟩ _ rfl
  exact ⟨((diagnostics_point _ _).1 _ hcall).1, ((diagnostics_point _ _).1 _ hsymbol).2, hmarks⟩

end Expression

end Reckoner
