import Reckoner.Proofs.Evaluation.Replay

/-! Why the calculation of an expression fails. The fault belongs to a token of the
expression: a name that is not bound, a function without a value at its argument, or a
division sign. -/

namespace Reckoner

/-- The scope has what the token names. -/
def Scope.Binds (scope : Scope) (t : Token) : Prop :=
  match t.category with
  | .functionName => (scope.function? t.text).isSome
  | .variableName => (scope.value? t.text).isSome
  | _ => True

namespace Tree

lemma leaves_nodes {t n : Tree} (h : n ∈ t.nodes) : n.leaves ⊆ t.leaves := by
  induction t with
  | number t | name t =>
    obtain rfl := List.mem_singleton.mp h
    exact List.Subset.refl _
  | negation s t ih =>
    rcases List.mem_append.mp h with h | h
    · exact List.subset_cons_of_subset _ (ih h)
    · obtain rfl := List.mem_singleton.mp h
      exact List.Subset.refl _
  | binary l s r ihl ihr =>
    rcases List.mem_append.mp h with h | h
    · rcases List.mem_append.mp h with h | h
      · exact List.subset_append_of_subset_left _ (ihl h)
      · exact List.subset_append_of_subset_right _ (List.subset_cons_of_subset _ (ihr h))
    · obtain rfl := List.mem_singleton.mp h
      exact List.Subset.refl _
  | bracket o t c ih =>
    exact List.subset_cons_of_subset _ (List.subset_append_of_subset_left _ (ih h))
  | bars o t c ih =>
    rcases List.mem_append.mp h with h | h
    · exact List.subset_cons_of_subset _ (List.subset_append_of_subset_left _ (ih h))
    · obtain rfl := List.mem_singleton.mp h
      exact List.Subset.refl _
  | call f o t c ih =>
    rcases List.mem_append.mp h with h | h
    · exact List.subset_cons_of_subset _ (List.subset_cons_of_subset _
        (List.subset_append_of_subset_left _ (ih h)))
    · obtain rfl := List.mem_singleton.mp h
      exact List.Subset.refl _

lemma root_mem_leaves (t : Tree) : t.root ∈ t.leaves ∨ ∃ c, t.root = Conversion.absoluteValue c := by
  induction t with
  | number t | name t => exact .inl (List.mem_singleton_self _)
  | negation s t => exact .inl List.mem_cons_self
  | binary l s r => exact .inl (List.mem_append_right _ List.mem_cons_self)
  | bracket o t c ih =>
    exact ih.imp_left fun h => List.mem_cons_of_mem _ (List.mem_append_left _ h)
  | bars o t c => exact .inr ⟨c, rfl⟩
  | call f o t c => exact .inl List.mem_cons_self

lemma mem_leaves_of_mem_postorder {t : Tree} {u : Token} (h : u ∈ t.postorder) :
    u ∈ t.leaves ∨ ∃ c, u = Conversion.absoluteValue c := by
  rw [← t.map_root_nodes] at h
  obtain ⟨n, hn, rfl⟩ := List.mem_map.mp h
  exact n.root_mem_leaves.imp_left fun hroot => leaves_nodes hn hroot

lemma map_leaves {α : Type} (f : String → Nat → α) (t : Tree) :
    (t.leaves.map fun u => f u.text u.offset) = t.tokens.map fun u => f u.text u.offset := by
  induction t with
  | number t | name t => rfl
  | negation s t ih => simp [leaves, tokens, Token.resolve, ih]
  | binary l s r ihl ihr => simp [leaves, tokens, Token.resolve, ihl, ihr]
  | bracket o t c ih | bars o t c ih | call f o t c ih => simp [leaves, tokens, Token.resolve, ih]

end Tree

lemma Derives.binds {scope : Scope} {p : Phrase} {t : Tree} (h : Derives scope p t) :
    ∀ u ∈ t.leaves, scope.Binds u := by
  have enclosed {us : List Token} {o c : Token} (ih : ∀ u ∈ us, scope.Binds u) :
      ∀ u ∈ o.resolve .opening :: (us ++ [c.resolve .closing]), scope.Binds u := by
    intro u hu
    simp only [List.mem_cons, List.mem_append, List.not_mem_nil, or_false] at hu
    rcases hu with rfl | hu | rfl
    · trivial
    · exact ih u hu
    · trivial
  have between {us vs : List Token} {s : Token} (hl : ∀ u ∈ us, scope.Binds u)
      (hr : ∀ u ∈ vs, scope.Binds u) : ∀ u ∈ us ++ s.resolve .binary :: vs, scope.Binds u := by
    intro u hu
    rcases List.mem_append.mp hu with hu | hu
    · exact hl u hu
    · rcases List.mem_cons.mp hu with rfl | hu
      · trivial
      · exact hr u hu
  induction h with
  | sum _ _ _ ihl ihr | product _ _ _ ihl ihr | power _ _ _ ihl ihr => exact between ihl ihr
  | ofTerm _ ih | ofPower _ ih | ofUnary _ ih | ofPrimary _ ih => exact ih
  | negation _ _ ih => exact List.forall_mem_cons.mpr ⟨trivial, ih⟩
  | number => exact List.forall_mem_singleton.mpr trivial
  | name _ _ hv => exact List.forall_mem_singleton.mpr hv
  | bracket _ _ _ _ ih | bars _ _ _ ih => exact enclosed ih
  | call _ hf _ _ _ _ _ ih => exact List.forall_mem_cons.mpr ⟨hf, enclosed ih⟩

namespace Expression

variable {scope bound : Scope} {source : String} {e : Expression}

lemma binds_of_parse (h : (parse scope source).result = .ok e) :
    ∀ t ∈ e.infixTokens, scope.Binds t := by
  obtain ⟨t, ht, rfl⟩ := exists_isTree h
  exact ht.derives.binds

/-- The failures of the calculation of an expression in a scope, each at its token. -/
inductive Faults (e : Expression) (scope : Scope) : EvalError → Prop
  | unboundVariable {name : String} {o : Nat} : ⟨.variableName, name, o⟩ ∈ e.infixTokens →
      scope.value? name = none → Faults e scope (.atToken (.unknownVariable name) ⟨e.source, o⟩)
  | unboundFunction {name : String} {o : Nat} : ⟨.functionName, name, o⟩ ∈ e.infixTokens →
      scope.function? name = none → Faults e scope (.atToken (.unknownFunction name) ⟨e.source, o⟩)
  | domain {name reason : String} {o : Nat} : ⟨.functionName, name, o⟩ ∈ e.infixTokens →
      Faults e scope (.atToken (.domain name reason) ⟨e.source, o⟩)
  | division {o : Nat} : ⟨.binary, "/", o⟩ ∈ e.infixTokens →
      Faults e scope (.atToken .divisionByZero ⟨e.source, o⟩)

lemma faults_of_calculate (h : (parse bound source).result = .ok e) {fault : EvalError}
    (hfault : (e.calculate scope).result = .error fault) : e.Faults scope fault := by
  obtain ⟨t, ht, rfl⟩ := exists_isTree h
  have hreplays : Tree.Replays scope source t :=
    Tree.replays_of_derives ht.derives (Token.spelled_of_tokenize ht.tokens)
  rw [Tree.result_calculate hreplays] at hfault
  obtain ⟨before, n, after, f, hnodes, -, hfails, rfl⟩ := Tree.firstFault_of_eval ht.derives hfault
  have hleaves : n.leaves ⊆ t.leaves := Tree.leaves_nodes (by simp [hnodes])
  cases hfails with
  | variableName hv =>
    exact .unboundVariable (hleaves (by simp [Tree.leaves, Tree.root, Token.resolve])) hv
  | functionName _ hf =>
    exact .unboundFunction (hleaves (by simp [Tree.leaves, Tree.root, Token.resolve])) hf
  | domain => exact .domain (hleaves (by simp [Tree.leaves, Tree.root, Token.resolve]))
  | division _ _ htext =>
    exact .division (hleaves (by simp [Tree.leaves, Tree.root, Token.resolve, htext]))

end Expression

end Reckoner
