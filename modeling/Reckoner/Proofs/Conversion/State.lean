import Reckoner.Proofs.Conversion.Grading
import Reckoner.Proofs.Evaluation.Depth

/-! The state of a conversion between two tokens. No token is lost or doubled, and what has been
put out is an order of evaluation in which nothing but the right operands of the waiting operators
is missing. -/

namespace Reckoner

variable {scope : Scope} {source : String} {c d : Conversion} {t u o : Token}
variable {ts us opened rest : List Token} {matched : List (Token × Token)}

namespace Brackets

/-- A closing bracket with the innermost of the unclosed ones. -/
def closes (opened : List Token) (t : Token) : List (Token × Token) :=
  if t.category = .closing then (opened.head?.map (·, t)).toList else []

/-- Each closing bracket with the one that it closes, in the order in which they are closed. -/
def pairs : List Token → List Token → List (Token × Token)
  | _, [] => []
  | opened, t :: ts => closes opened t ++ (read opened t).elim [] fun rest => pairs rest ts

lemma pairs_concat {before : List Token} (h : us.foldlM read before = some opened) (u : Token) :
    pairs before (us ++ [u]) = pairs before us ++ closes opened u := by
  induction us generalizing before with
  | nil =>
    obtain rfl := Option.some.inj h
    cases hread : read before u <;> simp [pairs, hread]
  | cons t us ih =>
    rw [List.foldlM_cons] at h
    obtain ⟨rest, hread, hrest⟩ := Option.bind_eq_some_iff.mp h
    simp only [List.cons_append, pairs, hread, Option.elim_some, ih hrest, List.append_assoc]

lemma closes_other (h : t.category ≠ .closing) : closes opened t = [] := if_neg h

lemma closes_closing (h : t.category = .closing) : closes (o :: opened) t = [(o, t)] := by
  simp [closes, h]

end Brackets

/-- What has been put out is in order, and with as many operands as there are binary operators
that wait, apart from those that are ready for the next one. -/
structure Balanced (output pending : List Token) (ready : Nat) : Prop where
  supplied : Supplied output
  depth_eq : depth output = pending.countP (·.category == .binary) + ready

namespace Balanced

variable {os ps qs : List Token} {n : Nat}

lemma operand (h : Balanced os ps 0) (ht : t.IsOperand) : Balanced (os ++ [t]) ps 1 := by
  have harity : t.arity = 0 := by rcases ht with ht | ht <;> simp [Token.arity, ht]
  have hsingle : depth [t] = 1 := by
    rw [Token.depth_single (by rcases ht with ht | ht <;> simp [Token.IsReplayable, ht]), harity]
    rfl
  have hdepth := h.depth_eq
  refine ⟨h.supplied.concat (by omega), ?_⟩
  rw [depth_append, hsingle]
  omega

lemma hold (h : Balanced os ps n) (ht : t.category ≠ .binary) :
    Balanced os (t :: ps) n :=
  ⟨h.supplied, by simp [h.depth_eq, ht]⟩

lemma hold_binary (h : Balanced os ps 1) (ht : t.category = .binary) :
    Balanced os (t :: ps) 0 :=
  ⟨h.supplied, by simp [h.depth_eq, ht]⟩

/-- What waits with its operands in front of it can be put out. -/
lemma release (h : Balanced os (qs ++ ps) 1)
    (hqs : ∀ q ∈ qs, q.category ∈ [.binary, .unary, .functionName]) : Balanced (os ++ qs) ps 1 := by
  induction qs generalizing os with
  | nil => simpa using h
  | cons q qs ih =>
    obtain ⟨hq, hqs⟩ := List.forall_mem_cons.mp hqs
    have hsingle := Token.depth_single (t := q) (by simp_all [Token.IsReplayable]; tauto)
    have harity : q.arity = 1 + [q].countP (·.category == .binary) := by
      simp only [List.mem_cons, List.not_mem_nil, or_false] at hq
      rcases hq with hq | hq | hq <;> simp [Token.arity, hq]
    have hdepth := h.depth_eq
    rw [List.cons_append, List.countP_cons] at hdepth
    rw [List.countP_singleton] at harity
    rw [List.append_cons]
    refine ih ⟨h.supplied.concat (by omega), ?_⟩ hqs
    rw [depth_append, hsingle]
    omega

end Balanced

namespace Conversion

section Conserved

def bracketsOf (matched : List (Token × Token)) : List Token := matched.flatMap fun p => [p.1, p.2]

def absoluteValuesOf (matched : List (Token × Token)) : List Token :=
  (matched.filter (·.2.firstChar == '|')).map fun p => absoluteValue p.2

/-- No token is lost and none is doubled. A matched pair of brackets leaves the state, and bars
leave their operator behind. -/
def Conserves (c : Conversion) (matched : List (Token × Token)) : Prop :=
  (c.output.toList ++ c.pending ++ bracketsOf matched).Perm
    (c.accepted.toList ++ absoluteValuesOf matched)

lemma drain_append (c : Conversion) :
    c.drain.output.toList ++ c.drain.pending = c.output.toList ++ c.pending :=
  c.release_append _

lemma call_append (c : Conversion) :
    c.call.output.toList ++ c.call.pending = c.output.toList ++ c.pending := by
  unfold call
  split
  · rfl
  · next f rest hpending =>
    split_ifs
    · simp [hpending]
    · rfl

lemma closed_append (c : Conversion) (t : Token) (rest : List Token) :
    (c.closed t rest).output.toList ++ (c.closed t rest).pending =
      c.output.toList ++ (if t.firstChar = '|' then [absoluteValue t] else []) ++ rest := by
  rw [closed, call_append]
  split_ifs <;> simp [emit]

lemma Conserves.append {more : List (Token × Token)} (hc : c.Conserves matched)
    (haccepted : d.accepted = c.accepted.push u)
    (h : (d.output.toList ++ d.pending ++ bracketsOf more).Perm
      (c.output.toList ++ c.pending ++ u :: absoluteValuesOf more)) :
    d.Conserves (matched ++ more) := by
  refine List.perm_iff_count.mpr fun a => ?_
  have hcount := hc.count_eq a
  have hstep := h.count_eq a
  simp only [bracketsOf, absoluteValuesOf, List.flatMap_append, List.filter_append, List.map_append,
    haccepted, Array.toList_push, List.count_append, List.count_cons, List.count_nil]
    at hcount hstep ⊢
  omega

lemma Accepts.conserves (h : c.Accepts opened u d) (hc : c.Conserves matched) :
    d.Conserves (matched ++ Brackets.closes opened u) := by
  refine hc.append h.accepted ?_
  cases h with
  | operand hu =>
    rw [Brackets.closes_other (by rcases hu with hu | hu <;> simp [hu])]
    simpa [note, emit, bracketsOf, absoluteValuesOf] using
      (List.perm_append_singleton u c.pending).symm.append_left c.output.toList
  | bracket hu | function hu =>
    rw [Brackets.closes_other (by simp [hu])]
    simpa [note, hold, bracketsOf, absoluteValuesOf] using
      (List.perm_append_singleton u c.pending).symm.append_left c.output.toList
  | operator hu =>
    rw [Brackets.closes_other (by rcases hu with hu | hu <;> simp [hu]),
      ← c.release_append (yieldsTo u)]
    simpa [note, hold, bracketsOf, absoluteValuesOf] using
      (List.perm_append_singleton u (c.release (yieldsTo u)).pending).symm.append_left
        (c.release (yieldsTo u)).output.toList
  | @closing o rest hu _ hdrain hhead =>
    obtain ⟨outer, rfl⟩ := List.head?_eq_some_iff.mp hhead
    rw [Brackets.closes_closing hu, closed_append, ← c.drain_append, hdrain]
    refine List.perm_iff_count.mpr fun a => ?_
    by_cases hbar : u.firstChar = '|' <;>
      simp [hbar, note, bracketsOf, absoluteValuesOf, List.count_cons] <;> omega

end Conserved

section Balance

lemma mem_released (h : Holds c.pending opened) {p : Token → Bool}
    (hp : ∀ t, p t → t.category ≠ .opening) :
    ∀ t ∈ c.pending.takeWhile p, t.category ∈ [.binary, .unary, .functionName] := by
  intro t ht
  have hmem := h.category_mem t ((List.takeWhile_prefix p).subset ht)
  have hne := hp t (List.mem_takeWhile_imp ht)
  simpa [hne] using hmem

lemma balanced_release (hc : Balanced c.output.toList c.pending 1) {p : Token → Bool}
    (hp : ∀ t, p t → t.category ≠ .opening) (h : Holds c.pending opened) :
    Balanced (c.release p).output.toList (c.release p).pending 1 := by
  rw [← List.takeWhile_append_dropWhile (p := p) (l := c.pending)] at hc
  simpa [release] using hc.release (mem_released h hp)

lemma balanced_call (h : Balanced c.output.toList c.pending 1) :
    Balanced c.call.output.toList c.call.pending 1 := by
  unfold call
  split
  · exact h
  · next f rest hpending =>
    split_ifs with hf
    · rw [hpending] at h
      rw [Array.toList_push]
      exact h.release (by simp [hf])
    · exact h

lemma balanced_closed (h : Balanced c.output.toList rest 1) (t : Token) :
    Balanced (c.closed t rest).output.toList (c.closed t rest).pending 1 := by
  rw [closed]
  apply balanced_call
  split_ifs
  · have habs : (absoluteValue t).category = .unary := rfl
    have hheld := h.hold (t := absoluteValue t) (by simp [habs])
    rw [emit, Array.toList_push]
    exact hheld.release (by simp [habs])
  · exact h

lemma Accepts.balanced (h : c.Accepts opened u d)
    (hc : Balanced c.output.toList c.pending (if u.category.continuesOperand then 1 else 0)) :
    Balanced d.output.toList d.pending (if u.category.endsOperand then 1 else 0) := by
  cases h with
  | operand hu =>
    have hoperand : Balanced ((c.note u).emit u).output.toList c.pending 1 := by
      rw [emit, Array.toList_push]
      exact Balanced.operand (by rcases hu with hu | hu <;> rwa [hu] at hc) hu
    rcases hu with hu | hu <;> rwa [hu]
  | bracket hu | function hu =>
    rw [hu] at hc ⊢
    exact hc.hold (by simp [hu])
  | operator hu hholds =>
    rcases hu with hu | hu
    · rw [hu] at hc ⊢
      exact (balanced_release hc (fun t ht => by simp_all [yieldsTo]) hholds).hold_binary hu
    · rw [Sketch.release_unary hu hholds.head_ne_function]
      rw [hu] at hc ⊢
      exact hc.hold (by simp [hu])
  | @closing o rest hu hholds hdrain =>
    rw [hu] at hc ⊢
    have hdrained : Balanced c.drain.output.toList c.drain.pending 1 :=
      balanced_release hc (fun t ht => by simpa using ht) hholds
    rw [hdrain] at hdrained
    have hopening := category_of_drain hdrain
    have hinner : Balanced c.drain.output.toList rest 1 :=
      ⟨hdrained.supplied, by simpa [hopening] using hdrained.depth_eq⟩
    exact balanced_closed (c := c.drain.note u) hinner u

end Balance

section Run

/-- What each token keeps. That the brackets and the functions are in their places is known from
the matcher. -/
structure Kept (c : Conversion) : Prop where
  graded : IsGraded c.pending
  conserves : c.Conserves (Brackets.pairs [] c.accepted.toList)
  balanced : Balanced c.output.toList c.pending (if c.previous.endsOperand then 1 else 0)

lemma kept_empty : Kept {} where
  graded := .nil
  conserves := .nil
  balanced := ⟨.nil, rfl⟩

lemma Kept.accept (hc : c.Kept) (hopened : Brackets.run c.accepted.toList = some opened)
    (hfollow : c.previous.canFollow u.category) (h : c.Accepts opened u d) : d.Kept where
  graded := h.graded hc.graded
  conserves := by
    rw [h.accepted, Array.toList_push, Brackets.pairs_concat hopened]
    exact h.conserves hc.conserves
  balanced := by
    rw [previous_of_accepted h.accepted]
    exact h.balanced (Category.endsOperand_of_canFollow hfollow ▸ hc.balanced)

lemma kept_of_run (hts : ∀ t ∈ ts, t.Spelled) (h : run scope {} ts = some c) : c.Kept := by
  induction ts using List.reverseRecOn generalizing c with
  | nil =>
    obtain rfl := Option.some.inj h
    exact kept_empty
  | append_singleton ts t ih =>
    rw [run_concat] at h
    obtain ⟨d, hrun, hadvance⟩ := Option.bind_eq_some_iff.mp h
    have hspelled : ∀ t ∈ ts, t.Spelled := fun t ht => hts t (by simp [ht])
    obtain ⟨opened, hpasses, htracks⟩ := passes_of_run hspelled hrun
    cases hu : t.classify scope d.previous with
    | error f => simp [advance, hu, bind, Except.bind, Except.toOption] at hadvance
    | ok u =>
      have hfollow := Token.canFollow_of_place (exists_place hu).2
      rw [advance_of_classify hu] at hadvance
      have hclassified := isClassified_of_classify (hts t (by simp)) hu
      cases haccept : d.accept u with
      | error f => simp [haccept, Except.toOption] at hadvance
      | ok e =>
        obtain rfl : e = c := by simpa [haccept, Except.toOption] using hadvance
        exact (ih hspelled hrun).accept hpasses.matched hfollow
          (accepts_of_accept htracks hclassified hfollow haccept)

end Run

/-- How many values the output leaves: the left operands of the operators that wait, and the
operand that has just ended. -/
def height (c : Conversion) : Nat :=
  c.pending.countP (·.category == .binary) + if c.previous.endsOperand then 1 else 0

/-- The state between two tokens, with these brackets unclosed and these closed. -/
structure Orderly (c : Conversion) (opened : List Token) (matched : List (Token × Token)) :
    Prop where
  brackets : c.pending.filter (·.category == .opening) = opened
  -- a function waits right below the bracket that calls it, or on top if it was read last
  calls : c.pending.IsChain Token.Calls
  named : ∀ f, c.pending.head? = some f → f.category = .functionName → c.accepted.back? = some f
  ascending : ∀ seg, seg <:+: c.pending → (∀ t ∈ seg, t.category ≠ .opening) →
    (seg.map Token.precedence).Pairwise (· ≥ ·)
  grouped : ∀ seg, seg <:+: c.pending → (∀ t ∈ seg, t.category ≠ .opening) →
    seg.IsChain fun upper lower => upper.precedence = lower.precedence →
      upper.isRightAssociative ∧ lower.isRightAssociative
  conserves : c.Conserves matched
  depth_output : depth c.output.toList = c.height
  supplied : Supplied c.output.toList

lemma Kept.orderly (hc : c.Kept) (hopened : c.Tracks opened) :
    c.Orderly opened (Brackets.pairs [] c.accepted.toList) where
  brackets := hopened.filter_opening
  calls := hopened.isChain_calls
  named := fun _ => hopened.back_of_head
  ascending := fun _ => hc.graded.ascending
  grouped := fun _ => hc.graded.grouped
  conserves := hc.conserves
  depth_output := hc.balanced.depth_eq
  supplied := hc.balanced.supplied

theorem state_exact {k : Nat} (hts : Token.tokenize source = .ok ts)
    (h : ((ts.take k).foldlM (step scope source) {}).result = .ok c) :
    ∃ opened, Brackets.Passes scope (ts.take k) c.accepted.toList opened ∧
      c.Orderly opened (Brackets.pairs [] c.accepted.toList) ∧
      ∀ (bound : Scope) (text : String),
        (∀ j s, ¬ FailsAt bound text c.output.toList j (.missingOperand s)) ∧
        ((∀ j f, ¬ FailsAt bound text c.output.toList j f) →
          ∃ stack, replayOn bound text [] c.output.toList = .ok stack ∧
            stack.length = c.height) := by
  have hspelled : ∀ t ∈ ts.take k, t.Spelled := fun t ht =>
    Token.spelled_of_tokenize hts t (List.mem_of_mem_take ht)
  have hrun : run scope {} (ts.take k) = some c := by
    rw [← toOption_foldlM_step source, h]
    rfl
  obtain ⟨opened, hpasses, htracks⟩ := passes_of_run hspelled hrun
  have horderly := (kept_of_run hspelled hrun).orderly htracks
  refine ⟨opened, hpasses, horderly,
    fun bound text => ⟨horderly.supplied.not_missing, fun hnone => ?_⟩⟩
  obtain ⟨stack, hstack⟩ := exists_replayOn_take (Nat.le_refl c.output.toList.length)
    fun j _ f => hnone j f
  rw [List.take_length] at hstack
  have hlength := length_replayOn hstack
  rw [horderly.depth_output, List.length_nil] at hlength
  exact ⟨stack, hstack, by omega⟩

/-- Two operators wait around a function and its bracket, and the bars are closed. -/
theorem state_exact_power : ∃ ts, ∃ c : Conversion, Token.tokenize "2-f(|x|^" = .ok ts ∧
    ((ts.take 8).foldlM (step ⟨fun _ => some 1, fun f => if f = "f" then some .ok else none⟩
      "2-f(|x|^") {}).result = .ok c ∧
    c.pending.map (·.text) = ["^", "(", "f", "-"] ∧
    c.output.toList.map (·.text) = ["2", "x", "abs"] ∧ depth c.output.toList = 2 := by
  have hts : Token.tokenize "2-f(|x|^" = .ok [⟨.number, "2", 0⟩, ⟨.operator, "-", 1⟩,
      ⟨.identifier, "f", 2⟩, ⟨.opening, "(", 3⟩, ⟨.operator, "|", 4⟩, ⟨.identifier, "x", 5⟩,
      ⟨.operator, "|", 6⟩, ⟨.operator, "^", 7⟩] := by
    cbv
  have hfold : (([⟨.number, "2", 0⟩, ⟨.operator, "-", 1⟩, ⟨.identifier, "f", 2⟩, ⟨.opening, "(", 3⟩,
      ⟨.operator, "|", 4⟩, ⟨.identifier, "x", 5⟩, ⟨.operator, "|", 6⟩,
      ⟨.operator, "^", 7⟩].take 8).foldlM
      (step ⟨fun _ => some 1, fun f => if f = "f" then some .ok else none⟩ "2-f(|x|^") {}).result =
        .ok ⟨#[⟨.number, "2", 0⟩, ⟨.binary, "-", 1⟩, ⟨.functionName, "f", 2⟩, ⟨.opening, "(", 3⟩,
            ⟨.opening, "|", 4⟩, ⟨.variableName, "x", 5⟩, ⟨.closing, "|", 6⟩, ⟨.binary, "^", 7⟩],
          #[⟨.number, "2", 0⟩, ⟨.variableName, "x", 5⟩, ⟨.unary, "abs", 6⟩],
          [⟨.binary, "^", 7⟩, ⟨.opening, "(", 3⟩, ⟨.functionName, "f", 2⟩, ⟨.binary, "-", 1⟩]⟩ := by
    cbv
  obtain ⟨opened, -, horderly, -⟩ := state_exact hts hfold
  exact ⟨_, _, hts, hfold, rfl, rfl, horderly.depth_output⟩

end Conversion

end Reckoner
