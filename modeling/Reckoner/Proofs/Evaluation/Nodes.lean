import Reckoner.Proofs.Evaluation.Replay
import Reckoner.Proofs.Journal.Outcome

/-! Replays that stop inside a tree. Behind any node of a tree the nodes so far end with those of
the subtree at that node, so that the step at its root finds the operands of the subtree on the
stack and leaves its value there. -/

namespace Reckoner

variable {scope bound : Scope} {source : String}

namespace Tree

/-- The nodes in front of this one end with the rest of its subtree. -/
def EndsWith (before : List Tree) (n : Tree) : Prop :=
  ∃ inner, n.nodes = inner ++ [n] ∧ inner <:+ before

section EndsWith

variable {t u n : Tree} {before a : List Tree}

lemma EndsWith.append (h : EndsWith before n) (as : List Tree) : EndsWith (as ++ before) n := by
  obtain ⟨inner, hn, hinner⟩ := h
  exact ⟨inner, hn, hinner.trans (List.suffix_append as before)⟩

lemma endsWith_self (hu : u.nodes = a ++ [u]) (ha : before ++ [n] <+: a → EndsWith before n)
    (h : before ++ [n] <+: u.nodes) : EndsWith before n := by
  rw [hu] at h
  rcases List.prefix_concat_iff.mp h with hself | h
  · obtain ⟨rfl, hn⟩ := List.append_inj' hself rfl
    obtain rfl := List.singleton_inj.mp hn
    exact ⟨before, hu, List.suffix_refl _⟩
  · exact ha h

lemma endsWith_append {as bs : List Tree} (has : before ++ [n] <+: as → EndsWith before n)
    (hbs : ∀ rest, rest ++ [n] <+: bs → EndsWith rest n)
    (h : before ++ [n] <+: as ++ bs) : EndsWith before n := by
  rcases List.prefix_or_prefix_of_prefix h (List.prefix_append as bs) with h' | h'
  · exact has h'
  · rcases List.prefix_concat_iff.mp h' with rfl | ⟨rest, rfl⟩
    · exact has (List.prefix_refl _)
    · -- all of the first part stands in front of the node
      rw [List.append_assoc] at h
      exact (hbs rest ((List.prefix_append_right_inj as).mp h)).append as

theorem endsWith_of_prefix (h : before ++ [n] <+: t.nodes) : EndsWith before n := by
  induction t generalizing before with
  | number t | name t => exact endsWith_self (a := []) rfl (fun h => by simp at h) h
  | negation s t ih | bars o t c ih | call f o t c ih => exact endsWith_self rfl ih h
  | bracket o t c ih => exact ih h
  | binary l s r ihl ihr => exact endsWith_self rfl (endsWith_append ihl fun _ => ihr) h

end EndsWith

end Tree

lemma Derives.nodes {p : Phrase} {t : Tree} (h : Derives bound p t) :
    ∀ n ∈ t.nodes, ∃ q, Derives bound q n ∧ n.tokens ⊆ t.tokens := by
  have self {q : Phrase} {u : Tree} {a : List Tree} (hu : Derives bound q u)
      (ha : ∀ n ∈ a, ∃ q, Derives bound q n ∧ n.tokens ⊆ u.tokens) :
      ∀ n ∈ a ++ [u], ∃ q, Derives bound q n ∧ n.tokens ⊆ u.tokens := by
    intro n hn
    rcases List.mem_append.mp hn with hn | hn
    · exact ha n hn
    · rw [List.mem_singleton.mp hn]
      exact ⟨q, hu, List.Subset.refl _⟩
  have inside {us : List Tree} {ts vs : List Token} (hsub : ts ⊆ vs)
      (ih : ∀ n ∈ us, ∃ q, Derives bound q n ∧ n.tokens ⊆ ts) :
      ∀ n ∈ us, ∃ q, Derives bound q n ∧ n.tokens ⊆ vs := by
    intro n hn
    obtain ⟨q, hd, hn⟩ := ih n hn
    exact ⟨q, hd, List.Subset.trans hn hsub⟩
  have operands {l r : Tree} {s : Token}
      (ihl : ∀ n ∈ l.nodes, ∃ q, Derives bound q n ∧ n.tokens ⊆ l.tokens)
      (ihr : ∀ n ∈ r.nodes, ∃ q, Derives bound q n ∧ n.tokens ⊆ r.tokens) :
      ∀ n ∈ l.nodes ++ r.nodes, ∃ q, Derives bound q n ∧ n.tokens ⊆ (Tree.binary l s r).tokens :=
    fun n hn => (List.mem_append.mp hn).elim
      (inside (List.subset_append_left _ _) ihl n)
      (inside (List.subset_append_of_subset_right _ (List.subset_cons_self _ _)) ihr n)
  have enclosed {us : List Token} {o c : Token} : us ⊆ o :: (us ++ [c]) :=
    List.subset_cons_of_subset _ (List.subset_append_left _ _)
  induction h with
  | sum hl hs hr ihl ihr => exact self (.sum hl hs hr) (operands ihl ihr)
  | product hl hs hr ihl ihr => exact self (.product hl hs hr) (operands ihl ihr)
  | power hl hs hr ihl ihr => exact self (.power hl hs hr) (operands ihl ihr)
  | ofTerm _ ih | ofPower _ ih | ofUnary _ ih | ofPrimary _ ih => exact ih
  | negation hs ht ih => exact self (.negation hs ht) (inside (List.subset_cons_self _ _) ih)
  | number hc => exact self (a := []) (.number hc) (by simp)
  | name hc hf hv => exact self (a := []) (.name hc hf hv) (by simp)
  | bracket _ _ _ _ ih => exact inside enclosed ih
  | bars ho hc ht ih => exact self (.bars ho hc ht) (inside enclosed ih)
  | call hf hbound ho hround hc hclose ht ih =>
    exact self (.call hf hbound ho hround hc hclose ht)
      (inside (List.subset_cons_of_subset _ enclosed) ih)

namespace Tree

variable {t n : Tree} {before : List Tree}

lemma replays_nodes {p : Phrase} (h : Derives bound p t) (hs : ∀ u ∈ t.tokens, u.Spelled) :
    ∀ n ∈ t.nodes, Replays scope source n := by
  intro n hn
  obtain ⟨q, hd, htokens⟩ := h.nodes n hn
  exact replays_of_derives hd fun u hu => hs u (htokens hu)

lemma eval_of_fails {f : EvalFault} (h : Fails scope source n f) :
    n.eval scope source = .error (n.root.fault source f) := by
  cases h with
  | variableName hv => simp [eval, hv, root, Token.fault, Token.resolve]
  | functionName ht hf => simp [eval, ht, hf, root, Token.fault, Token.resolve]
  | domain ht hf hg => simp [eval, ht, hf, hg, root, Token.fault, Token.resolve]
  | division hl hr hs hy =>
    simp [eval, hl, hr, Arithmetic.binary, hs, hy, root, Token.fault, Token.resolve]

/-- The step at a node behind a replay of the nodes in front of it. -/
theorem replayStep_node (hreplays : Replays scope source n) (h : before ++ [n] <+: t.nodes)
    {stack : List Float} (hbefore : replayOn scope source [] (before.map root) = .ok stack) :
    ∃ rest, (n.root.replayStep scope source stack).result =
      match n.eval scope source with
      | .ok x => .ok (x :: rest)
      | .error e => .error e := by
  obtain ⟨inner, hnodes, front, rfl⟩ := endsWith_of_prefix h
  rw [List.map_append, replayOn_append] at hbefore
  obtain ⟨rest, -, hinner⟩ := Outcome.bind_eq_ok.mp hbefore
  -- the subtree is replayed on what the nodes in front of it leave
  refine ⟨rest, ?_⟩
  have hpostorder : n.postorder = inner.map root ++ [n.root] := by
    rw [← map_root_nodes, hnodes, List.map_append]
    rfl
  have hreplayed := hreplays rest
  rw [hpostorder, replayOn_append, hinner] at hreplayed
  exact (replayOn_single _ _).symm.trans hreplayed

end Tree

end Reckoner
