import Reckoner.Proofs.Evaluation.Literal
import Reckoner.Proofs.Grammar.Relabel

/-! Names replaced by the numbers that they stand for. A negative number is a sign and a
literal, and so it takes the place of a name wherever a name is an operand: a sign binds
more tightly than every operator between operands. -/

namespace Reckoner

namespace Tree

def ofDisplay (offset : Nat) : List Char → Tree
  | '-' :: cs => negation ⟨.operator, "-", offset⟩ (number ⟨.number, String.ofList cs, offset⟩)
  | cs => number ⟨.number, String.ofList cs, offset⟩

lemma ofDisplay_literal {cs : List Char} (h : Numeral.IsLiteral cs) (offset : Nat) :
    ofDisplay offset cs = number ⟨.number, String.ofList cs, offset⟩ := by
  obtain ⟨c, tail, rfl, hc, -⟩ := h
  unfold ofDisplay
  split
  · rename_i heq
    cases heq
    cases hc
  · rfl

def substitute (values : String → Option Float) : Tree → Tree
  | number t => number t
  | name t =>
    match values t.text with
    | some x => ofDisplay t.offset (Numeral.display x).toList
    | none => name t
  | negation s t => negation s (t.substitute values)
  | binary l s r => binary (l.substitute values) s (r.substitute values)
  | bracket o t c => bracket o (t.substitute values) c
  | bars o t c => bars o (t.substitute values) c
  | call f o t c => call f o (t.substitute values) c

end Tree

/-- The phrase of a tree in which signs may stand for names. -/
def Phrase.signed : Phrase → Phrase
  | primary => unary
  | p => p

section Derivation

variable {scope bound : Scope} {values : String → Option Float}

lemma derives_ofDisplay (offset : Nat) (cs : List Char) :
    Derives scope .unary (Tree.ofDisplay offset cs) := by
  unfold Tree.ofDisplay
  split
  · exact .negation ⟨rfl, by simp⟩ (.ofPrimary (.number rfl))
  · exact .ofPrimary (.number rfl)

lemma Derives.substitute {p : Phrase} {t : Tree} (h : Derives bound p t)
    (hf : scope.function? = bound.function?)
    (hv : ∀ u ∈ t.leaves, u.category = .variableName → values u.text = none →
      (scope.value? u.text).isSome) : Derives scope p.signed (t.substitute values) := by
  induction h with
  | sum _ hs _ ihl ihr =>
    exact .sum (ihl fun u hu => hv u (by simp [Tree.leaves, hu])) hs
      (ihr fun u hu => hv u (by simp [Tree.leaves, hu]))
  | product _ hs _ ihl ihr =>
    exact .product (ihl fun u hu => hv u (by simp [Tree.leaves, hu])) hs
      (ihr fun u hu => hv u (by simp [Tree.leaves, hu]))
  | power _ hs _ ihl ihr =>
    exact .power (ihl fun u hu => hv u (by simp [Tree.leaves, hu])) hs
      (ihr fun u hu => hv u (by simp [Tree.leaves, hu]))
  | ofTerm _ ih => exact .ofTerm (ih hv)
  | ofPower _ ih => exact .ofPower (ih hv)
  | ofUnary _ ih => exact .ofUnary (ih hv)
  | ofPrimary _ ih => exact ih hv
  | negation hs _ ih => exact .negation hs (ih fun u hu => hv u (by simp [Tree.leaves, hu]))
  | number hc => exact .ofPrimary (.number hc)
  | @name t hc hfun _ =>
    cases hx : values t.text with
    | some x =>
      simp only [Tree.substitute, hx]
      exact derives_ofDisplay _ _
    | none =>
      have hbound := hv (t.resolve .variableName) (by simp [Tree.leaves]) rfl hx
      simp only [Tree.substitute, hx]
      exact .ofPrimary (.name hc (hf ▸ hfun) hbound)
  | bracket ho hc hpair _ ih =>
    exact .ofPrimary (.bracket ho hc hpair (ih fun u hu => hv u (by simp [Tree.leaves, hu])))
  | bars ho hc _ ih =>
    exact .ofPrimary (.bars ho hc (ih fun u hu => hv u (by simp [Tree.leaves, hu])))
  | call hfc hfs ho hot hc hct _ ih =>
    exact .ofPrimary (.call hfc (hf ▸ hfs) ho hot hc hct
      (ih fun u hu => hv u (by simp [Tree.leaves, hu])))

end Derivation

section Text

/-- The texts with spaces between them are scanned into tokens of these kinds. -/
def Spaced (texts : List String) (ks : List (Category × String)) : Prop :=
  texts ≠ [] ∧ Token.Scans (" ".intercalate texts).toList ks

lemma spaced_single {text : String} {ks : List (Category × String)}
    (h : Token.Scans text.toList ks) : Spaced [text] ks :=
  ⟨by simp, by simpa using h⟩

lemma Spaced.append {ls rs : List String} {ks ms : List (Category × String)} (hl : Spaced ls ks)
    (hr : Spaced rs ms) : Spaced (ls ++ rs) (ks ++ ms) := by
  refine ⟨by simp [hl.1], ?_⟩
  rw [String.intercalate_append_of_ne_nil hl.1 hr.1]
  simpa using hl.2.space hr.2

variable {s : Scope}

lemma spaced_leaf {t : Token} (ht : t.Spelled) {k : Category} (hk : k ≠ .variableName) :
    Spaced [Expression.substitute s (t.resolve k)] [t.kind] := by
  have htext : Expression.substitute s (t.resolve k) = t.text := if_neg hk
  rw [htext]
  exact spaced_single ht.scans

lemma scans_display {x : Float} {cs : List Char} (h : Numeral.Prints x cs) (offset : Nat) :
    Token.Scans cs ((Tree.ofDisplay offset cs).tokens.map Token.kind) := by
  have hliteral {ds : List Char} (hd : Numeral.IsLiteral ds) :
      Token.Scans ds [(.number, String.ofList ds)] := by
    obtain ⟨c, tail, rfl, hc, ht⟩ := hd
    have hlex := Lexeme.isLexeme_number hc ht
    simpa using Token.Scans.lexeme hlex (Lexeme.stopsAt_nil _ _) Token.scans_nil
  rcases h with ⟨hd, -⟩ | ⟨ds, rfl, hd, -⟩
  · rw [Tree.ofDisplay_literal hd]
    exact hliteral hd
  · have hlex : Lexeme.IsLexeme .operator '-' [] := ⟨by decide, rfl⟩
    exact Token.Scans.lexeme hlex (fun _ _ => rfl) (hliteral hd)

lemma spaced_substitute {t : Tree} (hs : ∀ u ∈ t.tokens, u.Spelled)
    (hx : ∀ name x, s.value? name = some x → Numeral.Prints x (Numeral.display x).toList) :
    Spaced (t.leaves.map (Expression.substitute s))
      ((t.substitute s.value?).tokens.map Token.kind) := by
  have leaf {v : Token} (hv : v.Spelled) {k : Category} (hk : k ≠ .variableName) :
      Spaced [Expression.substitute s (v.resolve k)] [v.kind] := spaced_leaf hv hk
  have enclosed {o c : Token} {u : Tree} (h : ∀ v ∈ o :: (u.tokens ++ [c]), v.Spelled)
      (ih : (∀ v ∈ u.tokens, v.Spelled) → Spaced (u.leaves.map (Expression.substitute s))
        ((u.substitute s.value?).tokens.map Token.kind)) :
      Spaced ((o.resolve .opening :: (u.leaves ++ [c.resolve .closing])).map (Expression.substitute s))
        ((o :: ((u.substitute s.value?).tokens ++ [c])).map Token.kind) := by
    have ho := leaf (h o (by simp)) (by decide : Category.opening ≠ .variableName)
    have hc := leaf (h c (by simp)) (by decide : Category.closing ≠ .variableName)
    have hall := ho.append ((ih fun v hv => h v (by simp [hv])).append hc)
    simpa using hall
  induction t with
  | number t => exact leaf (hs t (by simp [Tree.tokens])) (by decide)
  | name t =>
    cases hv : s.value? t.text with
    | none =>
      have htext : Expression.substitute s (t.resolve .variableName) = t.text := by
        simp [Expression.substitute, Token.resolve, hv]
      have hsingle := spaced_single (hs t (by simp [Tree.tokens])).scans
      simpa [Tree.leaves, Tree.substitute, hv, htext, Tree.tokens] using hsingle
    | some x =>
      have htext : Expression.substitute s (t.resolve .variableName) = Numeral.display x := by
        simp [Expression.substitute, Token.resolve, hv]
      have hsingle := spaced_single (scans_display (hx _ _ hv) t.offset)
      simpa [Tree.leaves, Tree.substitute, hv, htext] using hsingle
  | negation sign t ih =>
    have hsign := leaf (hs sign (by simp [Tree.tokens])) (by decide : Category.unary ≠ .variableName)
    have hall := hsign.append (ih fun v hv => hs v (by simp [Tree.tokens, hv]))
    simpa [Tree.leaves, Tree.substitute, Tree.tokens] using hall
  | binary l sign r ihl ihr =>
    have hsign := leaf (hs sign (by simp [Tree.tokens])) (by decide : Category.binary ≠ .variableName)
    have hall := (ihl fun v hv => hs v (by simp [Tree.tokens, hv])).append
      (hsign.append (ihr fun v hv => hs v (by simp [Tree.tokens, hv])))
    simpa [Tree.leaves, Tree.substitute, Tree.tokens] using hall
  | bracket o t c ih => exact enclosed hs ih
  | bars o t c ih => exact enclosed hs ih
  | call f o t c ih =>
    have hf := leaf (hs f (by simp [Tree.tokens])) (by decide : Category.functionName ≠ .variableName)
    exact hf.append (enclosed (fun v hv => hs v (List.mem_cons_of_mem f hv)) ih)

end Text

end Reckoner
