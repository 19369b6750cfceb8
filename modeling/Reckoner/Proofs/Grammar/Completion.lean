import Reckoner.Proofs.Grammar.Completeness
import Reckoner.Proofs.Grammar.Relabel

/-! Whatever has been read can be completed: an operand where one is due, and then a
closing bracket for each bracket that is open. -/

namespace Reckoner

namespace Token

def closer (o : Token) : Token :=
  if o.text = "(" then ⟨.closing, ")", 0⟩
  else if o.text = "[" then ⟨.closing, "]", 0⟩
  else if o.text = "\x7b" then ⟨.closing, "\x7d", 0⟩
  else ⟨.operator, "|", 0⟩

def zero : Token := ⟨.number, "0", 0⟩

lemma Opens.closer {o : Token} (h : o.Opens) :
    o.closer.Closes ∧ isMatchingPair o.firstChar o.closer.firstChar := by
  rcases Sketch.opens_iff.mp h with ⟨hc, ht | ht | ht⟩ | ⟨hc, ht⟩ <;>
    simp [Token.closer, Token.Closes, IsSign, firstChar, isMatchingPair, ht]

lemma spelled_zero : zero.Spelled := ⟨'0', [], rfl, rfl, rfl⟩

lemma spelled_closer (o : Token) : o.closer.Spelled := by
  rw [closer]
  split_ifs
  · exact ⟨')', [], rfl, by decide, rfl⟩
  · exact ⟨']', [], rfl, by decide, rfl⟩
  · exact ⟨'}', [], rfl, by decide, rfl⟩
  · exact ⟨'|', [], rfl, by decide, rfl⟩

end Token

namespace Sketch

variable {scope : Scope} {fs : List Frame} {d : Sketch} {t : Tree}

/-- The closing brackets for the frames, the innermost first. -/
def closers : List Frame → List Token
  | .bracket _ o :: fs => o.closer :: closers fs
  | .operator _ _ :: fs | .negation _ :: fs => closers fs
  | [] => []

def completion (d : Sketch) : List Token :=
  match d.focus with
  | .due => Token.zero :: closers d.frames
  | .named _ => ⟨.opening, "(", 0⟩ :: Token.zero :: ⟨.closing, ")", 0⟩ :: closers d.frames
  | .operand _ => closers d.frames

lemma spelled_closers (fs : List Frame) : ∀ t ∈ closers fs, t.Spelled := by
  induction fs with
  | nil => simp [closers]
  | cons f fs ih =>
    cases f with
    | operator => exact ih
    | negation => exact ih
    | bracket f o => exact List.forall_mem_cons.mpr ⟨o.spelled_closer, ih⟩

lemma spelled_completion (d : Sketch) : ∀ t ∈ d.completion, t.Spelled := by
  have hopen : (⟨.opening, "(", 0⟩ : Token).Spelled := ⟨'(', [], rfl, by decide, rfl⟩
  have hclose : (⟨.closing, ")", 0⟩ : Token).Spelled := ⟨')', [], rfl, by decide, rfl⟩
  obtain ⟨fs, focus⟩ := d
  have hfs := spelled_closers fs
  cases focus with
  | due => exact List.forall_mem_cons.mpr ⟨Token.spelled_zero, hfs⟩
  | named f =>
    simp only [completion, List.forall_mem_cons]
    exact ⟨hopen, Token.spelled_zero, hclose, hfs⟩
  | operand t => exact hfs

lemma run_absorbed {fs gs : List Frame} {t u : Tree}
    (h : absorb (·.category != .opening) fs t = absorb (·.category != .opening) gs u)
    {ts : List Token} (hts : ∀ c ∈ ts, c.Closes) :
    (run scope ⟨fs, .operand t⟩ ts).bind finish = (run scope ⟨gs, .operand u⟩ ts).bind finish := by
  cases ts with
  | nil => simp [run, finish, h]
  | cons c cs =>
    have hclose : close fs t c = close gs u c := by simp [close, h]
    have hread : read scope ⟨fs, .operand t⟩ c = read scope ⟨gs, .operand u⟩ c := by
      rcases closes_iff.mp (hts c (by simp)) with ⟨hc, -⟩ | ⟨hc, ht⟩
      · simp [read, continueOperand, hc, hclose]
      · simp [read, continueOperand, hc, ht, hclose]
    rw [run_cons, run_cons, hread]

lemma closes_closers (h : Stacked scope fs) : ∀ c ∈ closers fs, c.Closes := by
  induction h with
  | nil => simp [closers]
  | operator _ _ _ _ ih => exact ih
  | negation _ _ ih => exact ih
  | bracket ho _ ih => exact List.forall_mem_cons.mpr ⟨ho.closer.1, ih⟩
  | call _ _ hc ht _ ih =>
    have ho : Token.Opens _ := .inl ⟨hc, by simp [ht]⟩
    exact List.forall_mem_cons.mpr ⟨ho.closer.1, ih⟩

lemma run_closer {f : Option Token} {o : Token} (ho : o.Opens) (fs : List Frame) (t : Tree)
    (cs : List Token) : run scope ⟨.bracket f o :: fs, .operand t⟩ (o.closer :: cs) =
      run scope ⟨fs, .operand (enclose o t o.closer f)⟩ cs := by
  obtain ⟨hcloses, hm⟩ := ho.closer
  have hclose : close (.bracket f o :: fs) t o.closer =
      some ⟨fs, .operand (enclose o t o.closer f)⟩ := by
    simp [close, absorb, hm]
  have hread : read scope ⟨.bracket f o :: fs, .operand t⟩ o.closer =
      some ⟨fs, .operand (enclose o t o.closer f)⟩ := by
    rcases closes_iff.mp hcloses with ⟨hc, -⟩ | ⟨hc, hbar⟩
    · simp [read, continueOperand, hc, hclose]
    · simp [read, continueOperand, hc, hbar, hclose]
  rw [run_cons, hread, Option.bind_some]

lemma finish_closers (h : Stacked scope fs) (t : Tree) :
    ((run scope ⟨fs, .operand t⟩ (closers fs)).bind finish).isSome := by
  -- operators on top are absorbed by the next closing bracket
  induction h generalizing t with
  | nil => rfl
  | @operator l s fs _ _ _ hfs ih =>
    have habsorbed : absorb (·.category != .opening) (.operator l s :: fs) t =
        absorb (·.category != .opening) fs (.binary l s t) := rfl
    rw [closers, run_absorbed habsorbed (closes_closers hfs)]
    exact ih _
  | @negation s fs _ hfs ih =>
    have habsorbed : absorb (·.category != .opening) (.negation s :: fs) t =
        absorb (·.category != .opening) fs (.negation s t) := rfl
    rw [closers, run_absorbed habsorbed (closes_closers hfs)]
    exact ih _
  | bracket ho _ ih =>
    rw [closers, run_closer ho]
    exact ih _
  | call _ _ hc ht _ ih =>
    rw [closers, run_closer (.inl ⟨hc, by simp [ht]⟩)]
    exact ih _

theorem finish_completion (h : Sound scope d) :
    ((run scope d d.completion).bind finish).isSome := by
  obtain ⟨fs, focus⟩ := d
  cases focus with
  | due => exact finish_closers h.stacked _
  | operand t => exact finish_closers h.stacked t
  | named f =>
    have hcall : run scope ⟨fs, .named f⟩ (completion ⟨fs, .named f⟩) =
        run scope ⟨fs, .operand (.call f ⟨.opening, "(", 0⟩ (.number Token.zero) ⟨.closing, ")", 0⟩)⟩
          (closers fs) := rfl
    rw [hcall]
    exact finish_closers h.stacked _

theorem exists_derives_completion {ts : List Token} (hts : ∀ t ∈ ts, t.Spelled)
    (h : run scope empty ts = some d) :
    ∃ t, Derives scope .expression t ∧ t.tokens = ts ++ d.completion := by
  have hd := (run_sound (sound_empty scope) hts h).1
  obtain ⟨t, ht⟩ := Option.isSome_iff_exists.mp (finish_completion hd)
  have hrun : (run scope empty (ts ++ d.completion)).bind finish = some t := by
    rw [run_append, h]
    exact ht
  have hspelled : ∀ u ∈ ts ++ d.completion, u.Spelled := by
    intro u hu
    exact (List.mem_append.mp hu).elim (hts u) (d.spelled_completion u)
  exact ⟨t, (finish_run_iff hspelled).mp hrun⟩

end Sketch

end Reckoner
