import Reckoner.Proofs.Grammar.Derivation
import Reckoner.Proofs.Token.Kind

/-! The grammar sees only the kinds of tokens. Tokens of the same kinds have the same
derivations, and their trees differ in offsets only. -/

namespace Reckoner

namespace Token

def unplaced (t : Token) : Token := { t with offset := 0 }

lemma kind_iff {t u : Token} : t.kind = u.kind ↔ t.category = u.category ∧ t.text = u.text := by
  simp [kind]

lemma unplaced_eq_of_kind {t u : Token} (h : t.kind = u.kind) : t.unplaced = u.unplaced := by
  obtain ⟨hc, ht⟩ := kind_iff.mp h
  simp [unplaced, hc, ht]

lemma IsSign.of_kind {t u : Token} {signs : List String} (h : t.IsSign signs) (hk : u.kind = t.kind) :
    u.IsSign signs := by
  obtain ⟨hc, ht⟩ := kind_iff.mp hk
  exact ⟨hc.trans h.1, ht ▸ h.2⟩

end Token

namespace Tree

/-- The tree with all offsets forgotten. -/
def unplaced : Tree → Tree
  | number t => number t.unplaced
  | name t => name t.unplaced
  | negation s t => negation s.unplaced t.unplaced
  | binary l s r => binary l.unplaced s.unplaced r.unplaced
  | bracket o t c => bracket o.unplaced t.unplaced c.unplaced
  | bars o t c => bars o.unplaced t.unplaced c.unplaced
  | call f o t c => call f.unplaced o.unplaced t.unplaced c.unplaced

end Tree

section Split

variable {us : List Token} {l r t : Tree} {o s c : Token}

lemma split_single (h : us.map Token.kind = [s].map Token.kind) : ∃ u, us = [u] ∧ u.kind = s.kind := by
  obtain ⟨u, us, rfl, hu, hnil⟩ := List.map_eq_cons_iff.mp h
  obtain rfl : us = [] := by simpa using hnil
  exact ⟨u, rfl, hu⟩

lemma split_cons {ts : List Token} (h : us.map Token.kind = (s :: ts).map Token.kind) :
    ∃ u vs, us = u :: vs ∧ u.kind = s.kind ∧ vs.map Token.kind = ts.map Token.kind :=
  List.map_eq_cons_iff.mp h

lemma split_binary (h : us.map Token.kind = (Tree.binary l s r).tokens.map Token.kind) :
    ∃ ls u rs, us = ls ++ u :: rs ∧ ls.map Token.kind = l.tokens.map Token.kind ∧
      u.kind = s.kind ∧ rs.map Token.kind = r.tokens.map Token.kind := by
  rw [Tree.tokens, List.map_append] at h
  obtain ⟨ls, rest, rfl, hl, hrest⟩ := List.map_eq_append_iff.mp h
  obtain ⟨u, rs, rfl, hu, hr⟩ := split_cons hrest
  exact ⟨ls, u, rs, rfl, hl, hu, hr⟩

lemma split_enclosed (h : us.map Token.kind = (o :: (t.tokens ++ [c])).map Token.kind) :
    ∃ u ts v, us = u :: (ts ++ [v]) ∧ u.kind = o.kind ∧
      ts.map Token.kind = t.tokens.map Token.kind ∧ v.kind = c.kind := by
  obtain ⟨u, rest, rfl, hu, hrest⟩ := split_cons h
  rw [List.map_append] at hrest
  obtain ⟨ts, last, rfl, ht, hlast⟩ := List.map_eq_append_iff.mp hrest
  obtain ⟨v, rfl, hv⟩ := split_single hlast
  exact ⟨u, ts, v, rfl, hu, ht, hv⟩

end Split

def Relabels (scope : Scope) (p : Phrase) (t : Tree) : Prop :=
  ∀ us : List Token, us.map Token.kind = t.tokens.map Token.kind →
    ∃ u, Derives scope p u ∧ u.tokens = us ∧ u.unplaced = t.unplaced

section Rules

variable {scope : Scope} {p q r : Phrase} {s : Token} {t u : Tree}

lemma relabels_binary (ht : Relabels scope p t) (hu : Relabels scope q u)
    (rule : ∀ {v w : Tree} {s' : Token}, Derives scope p v → s'.kind = s.kind → Derives scope q w →
      Derives scope r (.binary v s' w)) : Relabels scope r (.binary t s u) := by
  intro us hus
  obtain ⟨ls, s', rs, rfl, hls, hsk, hrs⟩ := split_binary hus
  obtain ⟨v, hv, rfl, hvt⟩ := ht ls hls
  obtain ⟨w, hw, rfl, hwu⟩ := hu rs hrs
  exact ⟨.binary v s' w, rule hv hsk hw, rfl,
    by simp [Tree.unplaced, hvt, hwu, Token.unplaced_eq_of_kind hsk]⟩

lemma Relabels.mono (ht : Relabels scope p t) (rule : ∀ {u}, Derives scope p u → Derives scope q u) :
    Relabels scope q t := by
  intro us hus
  obtain ⟨u, hu, htokens, hplaced⟩ := ht us hus
  exact ⟨u, rule hu, htokens, hplaced⟩

end Rules

theorem Derives.relabel {scope : Scope} {p : Phrase} {t : Tree} (h : Derives scope p t) :
    Relabels scope p t := by
  induction h with
  | sum _ hs _ ihl ihr => exact relabels_binary ihl ihr fun hl hk hr => .sum hl (hs.of_kind hk) hr
  | product _ hs _ ihl ihr =>
    exact relabels_binary ihl ihr fun hl hk hr => .product hl (hs.of_kind hk) hr
  | power _ hs _ ihl ihr => exact relabels_binary ihl ihr fun hl hk hr => .power hl (hs.of_kind hk) hr
  | ofTerm _ ih => exact ih.mono .ofTerm
  | ofPower _ ih => exact ih.mono .ofPower
  | ofUnary _ ih => exact ih.mono .ofUnary
  | ofPrimary _ ih => exact ih.mono .ofPrimary
  | negation hs _ ih =>
    intro us hus
    obtain ⟨s, vs, rfl, hsk, hvs⟩ := split_cons hus
    obtain ⟨u, hu, rfl, hplaced⟩ := ih vs hvs
    exact ⟨.negation s u, .negation (hs.of_kind hsk) hu, rfl,
      by simp [Tree.unplaced, hplaced, Token.unplaced_eq_of_kind hsk]⟩
  | number hc =>
    intro us hus
    obtain ⟨u, rfl, hu⟩ := split_single hus
    exact ⟨.number u, .number ((Token.kind_iff.mp hu).1.trans hc), rfl,
      by simp [Tree.unplaced, Token.unplaced_eq_of_kind hu]⟩
  | name hc hf hv =>
    intro us hus
    obtain ⟨u, rfl, hu⟩ := split_single hus
    obtain ⟨huc, hut⟩ := Token.kind_iff.mp hu
    exact ⟨.name u, .name (huc.trans hc) (hut ▸ hf) (hut ▸ hv), rfl,
      by simp [Tree.unplaced, Token.unplaced_eq_of_kind hu]⟩
  | bracket ho hc hpair _ ih =>
    intro us hus
    obtain ⟨o, ts, c, rfl, hok, hts, hck⟩ := split_enclosed hus
    obtain ⟨hoc, hot⟩ := Token.kind_iff.mp hok
    obtain ⟨hcc, hct⟩ := Token.kind_iff.mp hck
    obtain ⟨u, hu, rfl, hplaced⟩ := ih ts hts
    exact ⟨.bracket o u c, .bracket (hoc.trans ho) (hcc.trans hc) (by rwa [hot, hct]) hu, rfl,
      by simp [Tree.unplaced, hplaced, Token.unplaced_eq_of_kind hok, Token.unplaced_eq_of_kind hck]⟩
  | bars ho hc _ ih =>
    intro us hus
    obtain ⟨o, ts, c, rfl, hok, hts, hck⟩ := split_enclosed hus
    obtain ⟨u, hu, rfl, hplaced⟩ := ih ts hts
    exact ⟨.bars o u c, .bars (ho.of_kind hok) (hc.of_kind hck) hu, rfl,
      by simp [Tree.unplaced, hplaced, Token.unplaced_eq_of_kind hok, Token.unplaced_eq_of_kind hck]⟩
  | call hf hfs ho hot hc hct _ ih =>
    intro us hus
    obtain ⟨f, rest, rfl, hfk, hrest⟩ := split_cons hus
    obtain ⟨o, ts, c, rfl, hok, hts, hck⟩ := split_enclosed hrest
    obtain ⟨hfc, hft⟩ := Token.kind_iff.mp hfk
    obtain ⟨hoc, hott⟩ := Token.kind_iff.mp hok
    obtain ⟨hcc, hctt⟩ := Token.kind_iff.mp hck
    obtain ⟨u, hu, rfl, hplaced⟩ := ih ts hts
    exact ⟨.call f o u c, .call (hfc.trans hf) (hft ▸ hfs) (hoc.trans ho) (hott.trans hot)
      (hcc.trans hc) (hctt.trans hct) hu, rfl, by simp [Tree.unplaced, hplaced,
        Token.unplaced_eq_of_kind hfk, Token.unplaced_eq_of_kind hok, Token.unplaced_eq_of_kind hck]⟩

end Reckoner
