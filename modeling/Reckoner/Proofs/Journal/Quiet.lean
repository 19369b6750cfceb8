import Reckoner.Calculator.Basic
import Reckoner.Proofs.Journal.Outcome

/-! What computations leave out of a journal that is kept down to some level. -/

namespace Reckoner

namespace Logged

variable {ε ε' α β : Type} {level : Level} {x : Logged ε α}

/-- What a journal that is kept down to the level has of the computation. -/
def journal (level : Level) (x : Logged ε α) : List Record :=
  x.records.filter (·.level.isKeptAt level)

def texts (level : Level) (x : Logged ε α) : List String := (x.journal level).map Record.message

lemma journal_trace (x : Logged ε α) : x.journal .trace = x.records :=
  List.filter_eq_self.mpr fun r _ => by cases r.level <;> rfl

lemma journal_map (f : α → β) (x : Logged ε α) : (f <$> x).journal level = x.journal level := by
  rw [journal, records_map]
  rfl

lemma journal_bind_ok {f : α → Logged ε β} {a : α} (h : x.result = .ok a) :
    (x >>= f).journal level = x.journal level ++ (f a).journal level := by
  rw [journal, records_bind_ok h, List.filter_append]
  rfl

lemma journal_bind_error {f : α → Logged ε β} {e : ε} (h : x.result = .error e) :
    (x >>= f).journal level = x.journal level := by
  rw [journal, records_bind_error h]
  rfl

def QuietAt (level : Level) (x : Logged ε α) : Prop :=
  ∀ r ∈ x.records, r.level.isKeptAt level = false

lemma QuietAt.journal (h : x.QuietAt level) : x.journal level = [] :=
  List.filter_eq_nil_iff.mpr fun r hr => by simp [h r hr]

lemma QuietAt.mono {heavier : Level} (h : x.QuietAt level) (hle : heavier.isKeptAt level) :
    x.QuietAt heavier := by
  intro r hr
  have hlight := h r hr
  simp only [Level.isKeptAt, decide_eq_true_eq, decide_eq_false_iff_not] at hle hlight ⊢
  omega

lemma quietAt_ofExcept (r : Except ε α) : (ofExcept r).QuietAt level := by simp [QuietAt]

lemma quietAt_record {r : Record} (h : r.level.isKeptAt level = false) :
    (record r : Logged ε Unit).QuietAt level := by
  simpa [QuietAt] using h

lemma QuietAt.mapError (h : x.QuietAt level) (f : ε → ε') : (x.mapError f).QuietAt level := h

lemma QuietAt.attempt (h : x.QuietAt level) : (x.attempt : Logged ε' _).QuietAt level := h

lemma QuietAt.map (h : x.QuietAt level) (f : α → β) : (f <$> x).QuietAt level := by
  rwa [QuietAt, records_map]

lemma QuietAt.bind {f : α → Logged ε β} (hx : x.QuietAt level) (hf : ∀ a, (f a).QuietAt level) :
    (x >>= f).QuietAt level := by
  intro r hr
  rw [records_bind, List.mem_append] at hr
  rcases hr with hr | hr
  · exact hx r hr
  · cases hresult : x.result with
    | error e => simp [hresult] at hr
    | ok a => exact hf a r (by simpa [hresult] using hr)

lemma quietAt_foldlM {f : β → α → Logged ε β} (h : ∀ b a, (f b a).QuietAt level) (b : β)
    (as : List α) : (as.foldlM f b).QuietAt level := by
  induction as generalizing b with
  | nil => exact quietAt_ofExcept _
  | cons a as ih =>
    rw [List.foldlM_cons]
    exact (h b a).bind ih

lemma quietAt_mapM {f : α → Logged ε β} (h : ∀ a, (f a).QuietAt level) (as : List α) :
    (as.mapM f).QuietAt level := by
  induction as with
  | nil => exact quietAt_ofExcept _
  | cons a as ih =>
    rw [List.mapM_cons]
    exact (h a).bind fun _ => ih.bind fun _ => quietAt_ofExcept _

end Logged

namespace Expression

open Logged

lemma quietAt_convert (scope : Scope) (source : String) : (convert scope source).QuietAt .debug :=
  (quietAt_ofExcept _).bind fun _ =>
    (quietAt_foldlM (fun _ _ => (quietAt_ofExcept _).bind fun _ =>
      (quietAt_record rfl).bind fun _ => quietAt_ofExcept _) _ _).bind fun _ => quietAt_ofExcept _

lemma quietAt_parse (scope : Scope) (source : String) : (parse scope source).QuietAt .info :=
  ((quietAt_convert scope source).mono rfl).bind fun _ =>
    (quietAt_record rfl).bind fun _ => quietAt_ofExcept _

lemma quietAt_calculate (e : Expression) (scope : Scope) : (e.calculate scope).QuietAt .debug :=
  (quietAt_foldlM (fun _ _ => (quietAt_ofExcept _).bind fun _ =>
    (quietAt_record rfl).bind fun _ => quietAt_ofExcept _) _ _).bind fun _ => quietAt_ofExcept _

end Expression

namespace Calculator

open Logged

lemma quietAt_addVariable (c : Calculator) (name : String) (value : Float) :
    (c.addVariable name value).QuietAt .info :=
  (quietAt_ofExcept _).bind fun _ => (quietAt_record rfl).bind fun _ => quietAt_ofExcept _

lemma quietAt_addExpression (c : Calculator) (source : String) :
    (c.addExpression source).QuietAt .info :=
  ((Expression.quietAt_parse c.scope source).mapError _).bind fun _ =>
    (quietAt_record rfl).bind fun _ => quietAt_ofExcept _

lemma quietAt_calculate (c : Calculator) (index : Nat) : (c.calculate index).QuietAt .debug :=
  (quietAt_ofExcept _).bind fun e => (e.quietAt_calculate c.scope).mapError _

lemma quietAt_calculateAll (c : Calculator) : c.calculateAll.QuietAt .debug :=
  quietAt_mapM (fun index => (c.quietAt_calculate index).attempt) _

end Calculator

end Reckoner
