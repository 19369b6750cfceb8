import Reckoner.Proofs.Conversion.Failure

/-! A conversion beside a matcher that sees nothing but brackets. Whatever waits between the
brackets of the conversion, the innermost unclosed one is the top of the matcher's stack, so both
get stuck on the same token for the same reason. -/

namespace Reckoner

/-- Each token behind the one before it, as far as classification alone accepts them. -/
def Token.classifyAll (scope : Scope) (previous : Category) :
    List Token → Except ParseFault (List Token)
  | [] => .ok []
  | t :: ts => do
    let u ← t.classify scope previous
    return u :: (← classifyAll scope u.category ts)

def Token.lastCategory (previous : Category) (ts : List Token) : Category :=
  (ts.getLast?.map (·.category)).getD previous

namespace Brackets

def partner : Char → Option Char
  | '(' => some ')'
  | '[' => some ']'
  | '{' => some '}'
  | '|' => some '|'
  | _ => none

lemma isMatchingPair_iff {opening closing : Char} :
    isMatchingPair opening closing ↔ partner opening = some closing := by
  unfold partner
  split <;> simp_all [isMatchingPair, eq_comm]

/-- The unclosed brackets behind a token, the innermost first. A closing bracket without its
partner on top has no such stack. -/
def read (opened : List Token) (t : Token) : Option (List Token) :=
  if t.category = .opening then some (t :: opened)
  else if t.category = .closing then
    match opened with
    | [] => none
    | o :: rest => if partner o.firstChar = some t.firstChar then some rest else none
  else some opened

section Read

variable {t o : Token} {opened : List Token}

lemma read_opening (h : t.category = .opening) : read opened t = some (t :: opened) := by
  simp [read, h]

lemma read_closing_nil (h : t.category = .closing) : read [] t = none := by simp [read, h]

lemma read_closing_cons (h : t.category = .closing) : read (o :: opened) t =
    if isMatchingPair o.firstChar t.firstChar then some opened else none := by
  simp [read, h, isMatchingPair_iff]

lemma read_other (ho : t.category ≠ .opening) (hc : t.category ≠ .closing) :
    read opened t = some opened := by
  simp [read, ho, hc]

end Read

def run (ts : List Token) : Option (List Token) := ts.foldlM read []

/-- Classification accepts all tokens, and the matcher gets past what it makes of them. -/
structure Passes (scope : Scope) (ts us opened : List Token) : Prop where
  classified : Token.classifyAll scope .start ts = .ok us
  matched : run us = some opened

def fault (opened : List Token) (t : Token) : ParseFault :=
  match opened with
  | [] => .unexpectedClosing t.firstChar
  | o :: _ => .mismatch o.firstChar t.firstChar

end Brackets

/-- What waits in a conversion around the unclosed brackets: operators anywhere, and a function
below the bracket that calls it. -/
inductive Holds : List Token → List Token → Prop
  | nil : Holds [] []
  | operator {t : Token} {ps opened : List Token} : t.category = .binary ∨ t.category = .unary →
      Holds ps opened → Holds (t :: ps) opened
  | bracket {o : Token} {ps opened : List Token} : o.category = .opening → Holds ps opened →
      Holds (o :: ps) (o :: opened)
  | call {f o : Token} {ps opened : List Token} : f.category = .functionName →
      o.category = .opening → o.text = "(" → Holds ps opened → Holds (o :: f :: ps) (o :: opened)

namespace Holds

variable {ps opened : List Token}

lemma release {p : Token → Bool} (h : Holds ps opened)
    (hp : ∀ o : Token, o.category = .opening → p o = false) : Holds (ps.dropWhile p) opened := by
  induction h with
  | nil => exact .nil
  | @operator t ps opened ht h ih =>
    cases hpt : p t with
    | true => simpa [hpt] using ih
    | false => simpa [hpt] using operator ht h
  | bracket ho h => simpa [hp _ ho] using bracket ho h
  | call hf ho htext h => simpa [hp _ ho] using call hf ho htext h

lemma head_ne_function (h : Holds ps opened) :
    ∀ t, ps.head? = some t → t.category ≠ .functionName := by
  intro t ht
  cases h with
  | nil => cases ht
  | operator hs => obtain rfl := Option.some.inj ht; rcases hs with hs | hs <;> simp [hs]
  | bracket ho | call _ ho => obtain rfl := Option.some.inj ht; simp [ho]

lemma opening_of_head {o : Token} (h : Holds ps opened) (ho : opened.head? = some o) :
    o.category = .opening := by
  induction h with
  | nil => cases ho
  | operator _ _ ih => exact ih ho
  | bracket h | call _ h => exact Option.some.inj ho ▸ h

lemma find?_isUnclosed (h : Holds ps opened) : ps.find? Conversion.isUnclosed = opened.head? := by
  induction h with
  | nil => rfl
  | operator ht _ ih => rcases ht with ht | ht <;> simpa [Conversion.isUnclosed, ht] using ih
  | bracket ho | call _ ho => simp [Conversion.isUnclosed, ho]

end Holds

namespace Conversion

variable {scope : Scope} {c d : Conversion} {t u : Token} {opened : List Token}

/-- The conversion is as far as the matcher. A function that was read last waits on top. -/
def Tracks (c : Conversion) (opened : List Token) : Prop :=
  if c.previous = .functionName then
    ∃ f ps, c.accepted.back? = some f ∧ c.pending = f :: ps ∧ Holds ps opened
  else Holds c.pending opened

lemma tracks_empty : Tracks {} [] := Holds.nil

lemma Tracks.of_holds (hf : c.previous ≠ .functionName) (h : Holds c.pending opened) :
    c.Tracks opened := by
  rwa [Tracks, if_neg hf]

lemma previous_of_accepted (h : c.accepted = d.accepted.push u) : c.previous = u.category := by
  simp [previous, h]

/-- The matcher and the conversion take a token alike. Where they get stuck the conversion gives
the fault, and otherwise it has accepted the tokens and is as far as the matcher. -/
inductive Alike (accepted : Array Token) (fault : ParseFault) :
    Option (List Token) → Except ParseFault Conversion → Prop
  | stuck : Alike accepted fault none (.error fault)
  | passed {opened : List Token} {d : Conversion} : d.accepted = accepted → d.Tracks opened →
      Alike accepted fault (some opened) (.ok d)

section Close

lemma drain_holds (h : Holds c.pending opened) : Holds c.drain.pending opened :=
  h.release fun o ho => by simp [ho]

def closed (c : Conversion) (t : Token) (rest : List Token) : Conversion :=
  (if t.firstChar = '|' then ({ c with pending := rest } : Conversion).emit (absoluteValue t)
    else { c with pending := rest }).call

lemma close_drained {o : Token} {rest : List Token} (h : c.drain.pending = o :: rest) : c.close t =
    if isMatchingPair o.firstChar t.firstChar then .ok (c.drain.closed t rest)
    else .error (.mismatch o.firstChar t.firstChar) := by
  rw [close, h]
  rfl

lemma accepted_call (c : Conversion) : c.call.accepted = c.accepted := by
  unfold call
  split
  · rfl
  · split_ifs <;> rfl

lemma accepted_closed (c : Conversion) (t : Token) (rest : List Token) :
    (c.closed t rest).accepted = c.accepted := by
  rw [closed, accepted_call]
  split_ifs <;> rfl

lemma pending_closed (c : Conversion) (t : Token) {rest : List Token}
    (h : ∀ f, rest.head? = some f → f.category ≠ .functionName) :
    (c.closed t rest).pending = rest := by
  rw [closed, Sketch.call_eq_self]
  · split_ifs <;> rfl
  · split_ifs <;> exact h

lemma pending_closed_call (c : Conversion) (t : Token) {f : Token} (rest : List Token)
    (hf : f.category = .functionName) : (c.closed t (f :: rest)).pending = rest := by
  unfold closed
  split_ifs <;> simp [call, emit, hf]

lemma closed_holds {o : Token} {ps : List Token} (h : Holds (o :: ps) opened)
    (ho : o.category = .opening) : ∃ rest, opened = o :: rest ∧
      ∀ (c : Conversion) (t : Token), Holds (c.closed t ps).pending rest := by
  cases h with
  | operator hs => simp [ho] at hs
  | bracket _ h =>
    refine ⟨_, rfl, fun c t => ?_⟩
    rwa [pending_closed c t h.head_ne_function]
  | call hf _ _ h =>
    refine ⟨_, rfl, fun c t => ?_⟩
    rwa [pending_closed_call c t _ hf]

lemma close_alike (h : Holds c.pending opened) (ht : t.category = .closing)
    (hc : c.previous ≠ .functionName) :
    Alike c.accepted (Brackets.fault opened t) (Brackets.read opened t) (c.close t) := by
  have hdrain := drain_holds h
  cases hpending : c.drain.pending with
  | nil =>
    rw [hpending] at hdrain
    cases hdrain
    rw [Brackets.read_closing_nil ht, close, hpending]
    exact .stuck
  | cons o ps =>
    rw [hpending] at hdrain
    obtain ⟨rest, rfl, hrest⟩ := closed_holds hdrain (category_of_drain hpending)
    rw [close_drained hpending, Brackets.read_closing_cons ht]
    split_ifs
    · have haccepted : (c.drain.closed t ps).accepted = c.accepted := accepted_closed _ _ _
      refine .passed haccepted (.of_holds ?_ (hrest _ _))
      rwa [previous, haccepted]
    · exact .stuck

end Close

section Classified

variable {previous : Category}

def IsClassified (u : Token) : Prop :=
  u.category ∈ [.number, .variableName, .functionName, .opening, .closing, .binary, .unary]

lemma mem_of_canFollow {k : Category} (h : previous.canFollow k) : k = .finish ∨
    k ∈ [.number, .variableName, .functionName, .opening, .closing, .binary, .unary] := by
  have hk : k.beginsOperand ∨ k.continuesOperand ∨ k = .opening := by
    simp only [Category.canFollow, Bool.or_eq_true, Bool.and_eq_true, beq_iff_eq] at h
    tauto
  revert hk
  cases k <;> decide

lemma role_ne_finish {k : Category} (ht : t.Spelled) (h : t.role scope previous = .ok k) :
    k ≠ .finish := by
  have hl := ht.isLexical
  rintro rfl
  unfold Token.role at h
  split at h
  next =>
    unfold Scope.nameCategory? at h
    split_ifs at h <;> cases h
  next =>
    unfold Token.operatorCategory at h
    split_ifs at h <;> cases h
  next =>
    rw [Except.ok.inj h] at hl
    simp at hl

lemma exists_place (h : t.classify scope previous = .ok u) :
    t.role scope previous = .ok u.category ∧ t.place previous u.category = .ok u := by
  obtain ⟨k, hk, hplace⟩ : ∃ k, t.role scope previous = .ok k ∧ t.place previous k = .ok u := by
    simpa [Token.classify] using h
  have hu : u.category = k := by
    unfold Token.place at hplace
    split_ifs at hplace
    obtain rfl := Except.ok.inj hplace
    rfl
  exact hu ▸ ⟨hk, hplace⟩

lemma isClassified_of_classify (ht : t.Spelled) (h : t.classify scope previous = .ok u) :
    IsClassified u := by
  obtain ⟨hrole, hplace⟩ := exists_place h
  exact (mem_of_canFollow (Token.canFollow_of_place hplace)).resolve_left (role_ne_finish ht hrole)

lemma opening_of_classify (h : t.classify scope .functionName = .ok u) :
    u.category = .opening ∧ u.text = "(" := by
  obtain ⟨-, hplace⟩ := exists_place h
  have hopening : u.category = .opening := by
    simpa [Category.canFollow, Category.awaitsOperand, Category.endsOperand] using
      Token.canFollow_of_place hplace
  unfold Token.place at hplace
  split_ifs at hplace with hfollow hround
  rw [(Token.text_of_classify h).1]
  exact ⟨hopening, by simpa [hopening] using hround⟩

end Classified

section Accept

lemma previous_note (c : Conversion) (u : Token) : (c.note u).previous = u.category :=
  previous_of_accepted rfl

lemma call_tracks (hf : c.previous = .functionName) (hc : c.Tracks opened)
    (hopening : u.category = .opening) (htext : u.text = "(") :
    ((c.note u).hold u).Tracks (u :: opened) := by
  rw [Tracks, if_pos hf] at hc
  obtain ⟨f, ps, hlast, hpending, hps⟩ := hc
  have hcategory : f.category = .functionName := by simpa [previous, hlast] using hf
  have hheld : ((c.note u).hold u).pending = u :: f :: ps := congrArg (u :: ·) hpending
  apply Tracks.of_holds
  · rw [previous_of_accepted (d := c) rfl, hopening]
    decide
  · rw [hheld]
    exact .call hcategory hopening htext hps

lemma function_tracks (h : Holds c.pending opened) (hu : u.category = .functionName) :
    ((c.note u).hold u).Tracks opened := by
  have hprevious : ((c.note u).hold u).previous = .functionName := by
    rw [previous_of_accepted (d := c) rfl, hu]
  rw [Tracks, if_pos hprevious]
  exact ⟨u, c.pending, by simp [note, hold], rfl, h⟩

/-- Only a closing bracket is refused behind its classification. -/
lemma accept_error {f : ParseFault} (hu : IsClassified u) (h : c.accept u = .error f) :
    f = .unexpectedClosing u.firstChar ∨ ∃ o, f = .mismatch o u.firstChar := by
  cases hc : u.category with
  | closing =>
    rw [accept_closing hc, close] at h
    split at h
    · exact .inl (Except.error.inj h).symm
    · split_ifs at h
      exact .inr ⟨_, (Except.error.inj h).symm⟩
  | start | finish | separator | identifier | operator => simp [IsClassified, hc] at hu
  | _ =>
    simp only [accept, push, hc] at h
    cases h

lemma accept_alike (hc : c.Tracks opened) (ht : t.Spelled)
    (hu : t.classify scope c.previous = .ok u) :
    Alike (c.accepted.push u) (Brackets.fault opened u) (Brackets.read opened u) (c.accept u) := by
  -- behind a function comes the bracket that calls it, and elsewhere no function is on top
  by_cases hf : c.previous = .functionName
  · rw [hf] at hu
    obtain ⟨hopening, htext⟩ := opening_of_classify hu
    have haccept : c.accept u = .ok ((c.note u).hold u) := by simp [accept, push, note, hopening]
    rw [haccept, Brackets.read_opening hopening]
    exact .passed rfl (call_tracks hf hc hopening htext)
  have hheld : Holds c.pending opened := by rwa [Tracks, if_neg hf] at hc
  have hclassified := isClassified_of_classify ht hu
  have hplain {d : Conversion} (hd : d.accepted = c.accepted.push u) (hk : u.category ≠ .functionName)
      {rest : List Token} (h : Holds d.pending rest) : d.Tracks rest :=
    .of_holds (by rwa [previous_of_accepted hd]) h
  simp only [IsClassified, List.mem_cons, List.not_mem_nil, or_false] at hclassified
  rcases hclassified with h | h | h | h | h | h
  · rw [Brackets.read_other (by simp [h]) (by simp [h])]
    simp only [accept, push, h]
    exact .passed rfl (hplain rfl (by simp [h]) hheld)
  · rw [Brackets.read_other (by simp [h]) (by simp [h])]
    simp only [accept, push, h]
    exact .passed rfl (hplain rfl (by simp [h]) hheld)
  · rw [Brackets.read_other (by simp [h]) (by simp [h])]
    simp only [accept, push, h]
    exact .passed rfl (function_tracks hheld h)
  · rw [Brackets.read_opening h]
    simp only [accept, push, h]
    exact .passed rfl (hplain rfl (by simp [h]) (.bracket h hheld))
  · -- nothing but a closing bracket can be refused
    rw [accept_closing h]
    exact close_alike (c := c.note u) hheld h (by simp [previous_note, h])
  · have hk : u.category ∉ [.opening, .closing, .functionName] := by rcases h with h | h <;> simp [h]
    simp only [List.mem_cons, List.not_mem_nil, or_false, not_or] at hk
    obtain ⟨hopening, hclosing, hfunction⟩ := hk
    have hreleased : Holds (c.release (yieldsTo u)).pending opened :=
      hheld.release fun o ho => by simp [yieldsTo, ho]
    rw [accept_operator h, Brackets.read_other hopening hclosing]
    exact .passed rfl (hplain rfl hfunction (.operator h hreleased))

end Accept

end Conversion

section Run

variable {scope : Scope} {previous : Category} {t u : Token} {ts us vs opened rest : List Token}

namespace Token

lemma lastCategory_cons (previous : Category) (u : Token) (us : List Token) :
    lastCategory previous (u :: us) = lastCategory u.category us := by
  cases h : us.getLast? <;> simp [lastCategory, List.getLast?_cons, h]

lemma classifyAll_cons : classifyAll scope previous (t :: ts) = .ok vs ↔
    ∃ u us, t.classify scope previous = .ok u ∧ classifyAll scope u.category ts = .ok us ∧
      u :: us = vs := by
  simp [classifyAll, pure, Except.pure]

lemma classifyAll_concat : classifyAll scope previous (ts ++ [t]) = .ok vs ↔
    ∃ us u, classifyAll scope previous ts = .ok us ∧
      t.classify scope (lastCategory previous us) = .ok u ∧ vs = us ++ [u] := by
  induction ts generalizing previous vs with
  | nil =>
    rw [List.nil_append, classifyAll_cons]
    simp [classifyAll, lastCategory, eq_comm]
  | cons x ts ih =>
    rw [List.cons_append, classifyAll_cons]
    constructor
    · rintro ⟨v, vs', hv, hvs, rfl⟩
      obtain ⟨us, u, hus, hu, rfl⟩ := ih.mp hvs
      exact ⟨v :: us, u, classifyAll_cons.mpr ⟨v, us, hv, hus, rfl⟩,
        by rwa [lastCategory_cons], rfl⟩
    · rintro ⟨us', u, hus, hu, rfl⟩
      obtain ⟨v, us, hv, htail, rfl⟩ := classifyAll_cons.mp hus
      rw [lastCategory_cons] at hu
      exact ⟨v, us ++ [u], hv, ih.mpr ⟨us, u, htail, hu, rfl⟩, rfl⟩

end Token

namespace Brackets

lemma run_concat (us : List Token) (u : Token) : run (us ++ [u]) = (run us).bind (read · u) := by
  simp [run, List.foldlM_append]

lemma passes_nil : Passes scope [] us opened ↔ us = [] ∧ opened = [] := by
  constructor
  · rintro ⟨hus, hrun⟩
    obtain rfl := Except.ok.inj hus
    exact ⟨rfl, (Option.some.inj hrun).symm⟩
  · rintro ⟨rfl, rfl⟩
    exact ⟨rfl, rfl⟩

lemma passes_concat : Passes scope (ts ++ [t]) vs rest ↔ ∃ us u opened,
    Passes scope ts us opened ∧ t.classify scope (Token.lastCategory .start us) = .ok u ∧
      read opened u = some rest ∧ vs = us ++ [u] := by
  constructor
  · rintro ⟨hvs, hrun⟩
    obtain ⟨us, u, hus, hu, rfl⟩ := Token.classifyAll_concat.mp hvs
    rw [run_concat] at hrun
    obtain ⟨opened, hopened, hread⟩ := Option.bind_eq_some_iff.mp hrun
    exact ⟨us, u, opened, ⟨hus, hopened⟩, hu, hread, rfl⟩
  · rintro ⟨us, u, opened, ⟨hus, hopened⟩, hu, hread, rfl⟩
    exact ⟨Token.classifyAll_concat.mpr ⟨us, u, hus, hu, rfl⟩, by simp [run_concat, hopened, hread]⟩

end Brackets

namespace Conversion

variable {c d : Conversion}

lemma previous_eq (h : c.accepted.toList = us) : c.previous = Token.lastCategory .start us := by
  rw [previous, Token.lastCategory, ← h, Array.getLast?_toList]

lemma advance_of_classify (h : t.classify scope c.previous = .ok u) :
    c.advance scope t = c.accept u := by
  rw [advance, h]
  rfl

lemma run_concat (c : Conversion) (ts : List Token) (t : Token) :
    run scope c (ts ++ [t]) = (run scope c ts).bind fun d => (d.advance scope t).toOption := by
  simp [run, List.foldlM_append]

lemma run_of_passes (hts : ∀ t ∈ ts, t.Spelled) (h : Brackets.Passes scope ts us opened) :
    ∃ c, run scope {} ts = some c ∧ c.accepted.toList = us ∧ c.Tracks opened := by
  induction ts using List.reverseRecOn generalizing us opened with
  | nil =>
    obtain ⟨rfl, rfl⟩ := Brackets.passes_nil.mp h
    exact ⟨{}, rfl, rfl, tracks_empty⟩
  | append_singleton ts t ih =>
    obtain ⟨us, u, before, hbefore, hu, hread, rfl⟩ := Brackets.passes_concat.mp h
    obtain ⟨c, hrun, haccepted, htracks⟩ := ih (fun t ht => hts t (by simp [ht])) hbefore
    rw [← previous_eq haccepted] at hu
    have halike := accept_alike htracks (hts t (by simp)) hu
    rw [hread] at halike
    rw [run_concat, hrun, Option.bind_some, advance_of_classify hu]
    generalize c.accept u = r at halike
    cases halike with
    | @passed _ d hd hd' => exact ⟨d, rfl, by simp [hd, haccepted], hd'⟩

lemma passes_of_run (hts : ∀ t ∈ ts, t.Spelled) (h : run scope {} ts = some c) :
    ∃ opened, Brackets.Passes scope ts c.accepted.toList opened ∧ c.Tracks opened := by
  induction ts using List.reverseRecOn generalizing c with
  | nil =>
    obtain rfl := Option.some.inj h
    exact ⟨[], Brackets.passes_nil.mpr ⟨rfl, rfl⟩, tracks_empty⟩
  | append_singleton ts t ih =>
    rw [run_concat] at h
    obtain ⟨d, hrun, hadvance⟩ := Option.bind_eq_some_iff.mp h
    obtain ⟨opened, hpasses, htracks⟩ := ih (fun t ht => hts t (by simp [ht])) hrun
    cases hu : t.classify scope d.previous with
    | error f => simp [advance, hu, bind, Except.bind, Except.toOption] at hadvance
    | ok u =>
      rw [advance_of_classify hu] at hadvance
      have halike := accept_alike htracks (hts t (by simp)) hu
      rw [previous_eq rfl] at hu
      generalize hread : Brackets.read opened u = o, d.accept u = r at halike hadvance
      cases halike with
      | stuck => cases hadvance
      | @passed rest e he he' =>
        obtain rfl : e = c := Option.some.inj hadvance
        exact ⟨rest, Brackets.passes_concat.mpr ⟨_, u, opened, hpasses, hu, hread, by simp [he]⟩, he'⟩

end Conversion

end Run

end Reckoner
