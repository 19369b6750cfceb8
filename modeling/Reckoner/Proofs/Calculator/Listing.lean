import Reckoner.Proofs.Calculator.Machine
import Reckoner.Proofs.Numeral.Reading
import Reckoner.Proofs.Text.Pieces
import Reckoner.Proofs.Token.Name

/-! What a listing tells of a calculator. Its lines end where they seem to, an empty line ends each
section, and no line of a section looks like the one that stands for an empty section. Hence two
listings are the same only if they show the same. -/

namespace Reckoner

open Text (IsWord)

namespace Table

variable {α β γ : Type}

def map (f : α → β) (t : Table α) : Table β where
  entries := t.entries.map fun e => (e.1, f e.2)
  increasing := List.pairwise_map.mpr t.increasing
  named e he := by
    obtain ⟨d, hd, rfl⟩ := List.mem_map.mp he
    exact t.named d hd

lemma get?_map (f : α → β) (t : Table α) (name : String) :
    (t.map f).get? name = (t.get? name).map f := by
  show (t.entries.map fun e => (e.1, f e.2)).lookup name = (t.entries.lookup name).map f
  induction t.entries with
  | nil => rfl
  | cons e es ih =>
    obtain ⟨key, value⟩ := e
    rw [List.map_cons, List.lookup_cons, List.lookup_cons, ih]
    cases name == key <;> rfl

lemma map_eq_map_iff {f : α → γ} {g : β → γ} {t : Table α} {u : Table β} :
    (t.map f).entries = (u.map g).entries ↔
      ∀ name, (t.get? name).map f = (u.get? name).map g := by
  simp only [← get?_map]
  constructor
  · intro h name
    rw [get?, h, get?]
  · intro h
    rw [ext_get? h]

end Table

namespace Calculator

/-- What a listing shows. -/
@[ext]
structure Shown where
  values : List (String × String)
  functions : List String
  expressions : List (List String)

def shown (c : Calculator) : Shown where
  values := (c.variableTable.map Numeral.display).entries
  functions := c.functionTable.names
  expressions := c.expressions.map fun e => e.infixTokens.map (·.text)

namespace Shown

def variableLine (e : String × String) : String := e.1 ++ " = " ++ e.2

def functionLine (name : String) : String := name ++ "(x)"

def expressionLine (e : List String × Nat) : String := Nat.repr e.2 ++ ". " ++ " ".intercalate e.1

def paragraph (placeholder : String) (lines : List String) : List String :=
  if lines.isEmpty then [placeholder] else lines

def lines (s : Shown) : List String :=
  "=== VARIABLES ===" :: (paragraph "No variables added." (s.values.map variableLine) ++
    "" :: "=== FUNCTIONS ===" :: (paragraph "No functions added." (s.functions.map functionLine) ++
      "" :: "=== EXPRESSIONS ===" ::
        paragraph "No expressions added." ((s.expressions.zipIdx 1).map expressionLine)))

lemma join_paragraph (placeholder : String) (lines : List String) :
    String.join ((paragraph placeholder lines).map (· ++ "\n")) =
      if lines.isEmpty then placeholder ++ "\n" else String.join (lines.map (· ++ "\n")) := by
  unfold paragraph
  split_ifs <;> simp

end Shown

section Lines

variable (c : Calculator)

lemma listing_values : c.variableTable.listing = String.join
    ((Shown.paragraph "No variables added." (c.shown.values.map Shown.variableLine)).map
      (· ++ "\n")) := by
  have hempty : (c.shown.values.map Shown.variableLine).isEmpty =
      c.variableTable.entries.isEmpty := by
    simp [shown, Table.map]
  rw [Shown.join_paragraph, hempty, shown, Table.map, List.map_map, List.map_map]
  rfl

lemma listing_functions : c.functionTable.listing = String.join
    ((Shown.paragraph "No functions added." (c.shown.functions.map Shown.functionLine)).map
      (· ++ "\n")) := by
  have hempty : (c.shown.functions.map Shown.functionLine).isEmpty =
      c.functionTable.entries.isEmpty := by
    simp [shown, Table.names]
  have hline : (· ++ "\n") ∘ Shown.functionLine = (· ++ "(x)\n") :=
    funext fun name => String.append_assoc
  rw [Shown.join_paragraph, hempty, shown, List.map_map, hline]
  rfl

lemma listing_expressions : c.expressionsListing = "=== EXPRESSIONS ===\n" ++ String.join
    ((Shown.paragraph "No expressions added."
      ((c.shown.expressions.zipIdx 1).map Shown.expressionLine)).map (· ++ "\n")) := by
  have hempty : ((c.shown.expressions.zipIdx 1).map Shown.expressionLine).isEmpty =
      c.expressions.isEmpty := by
    rw [Bool.eq_iff_iff, List.isEmpty_iff, List.isEmpty_iff]
    simp [shown]
  rw [Shown.join_paragraph, hempty, shown, List.zipIdx_map, List.map_map, List.map_map]
  rfl

lemma join_sections (a b d : String) (xs ys zs : List String) :
    String.join ((a :: (xs ++ "" :: b :: (ys ++ "" :: d :: zs))).map (· ++ "\n")) =
      (a ++ "\n" ++ String.join (xs.map (· ++ "\n"))) ++ "\n" ++
        (b ++ "\n" ++ String.join (ys.map (· ++ "\n"))) ++ "\n" ++
          (d ++ "\n" ++ String.join (zs.map (· ++ "\n"))) := by
  simp [String.append_assoc]

theorem listing_eq : c.listing = String.join (c.shown.lines.map (· ++ "\n")) := by
  have hvalues : "=== VARIABLES ===" ++ "\n" = "=== VARIABLES ===\n" := by decide
  have hfunctions : "=== FUNCTIONS ===" ++ "\n" = "=== FUNCTIONS ===\n" := by decide
  have hexpressions : "=== EXPRESSIONS ===" ++ "\n" = "=== EXPRESSIONS ===\n" := by decide
  rw [Shown.lines, join_sections, hvalues, hfunctions, hexpressions, ← listing_values,
    ← listing_functions, ← listing_expressions]
  rfl

end Lines

namespace Shown

variable {s t : Shown}

/-- Nothing that is shown has a blank in it, and no expression is empty. -/
structure Legible (s : Shown) : Prop where
  values : ∀ e ∈ s.values, IsWord e.1 ∧ IsWord e.2
  functions : ∀ name ∈ s.functions, IsWord name
  expressions : ∀ texts ∈ s.expressions, texts ≠ [] ∧ ∀ text ∈ texts, IsWord text

section Line

variable {e d : String × String} {name : String} {x y : List String × Nat}

lemma toList_variableLine (e : String × String) :
    (variableLine e).toList = e.1.toList ++ ' ' :: '=' :: ' ' :: e.2.toList := by
  simp [variableLine]

lemma toList_functionLine (name : String) :
    (functionLine name).toList = name.toList ++ ['(', 'x', ')'] := by
  simp [functionLine]

lemma toList_expressionLine (x : List String × Nat) : (expressionLine x).toList =
    ((Nat.repr x.2).toList ++ ['.']) ++ ' ' :: (" ".intercalate x.1).toList := by
  rw [expressionLine, String.toList_append, String.toList_append]
  simp

lemma variableLine_inj (he : IsWord e.1) (hd : IsWord d.1) (h : variableLine e = variableLine d) :
    e = d := by
  have hchars := congrArg String.toList h
  rw [toList_variableLine, toList_variableLine] at hchars
  obtain ⟨hname, hvalue⟩ := Text.eq_of_append_cons he.space_notMem hd.space_notMem hchars
  exact Prod.ext (String.toList_inj.mp hname) (String.toList_inj.mp (by simpa using hvalue))

lemma functionLine_inj {name other : String} (h : functionLine name = functionLine other) :
    name = other := by
  have hchars := congrArg String.toList h
  rw [toList_functionLine, toList_functionLine] at hchars
  exact String.toList_inj.mp (List.append_cancel_right hchars)

lemma space_notMem_number (n : Nat) : ' ' ∉ (Nat.repr n).toList ++ ['.'] := by
  intro hmem
  rcases List.mem_append.mp hmem with hmem | hmem
  · exact (Numeral.isWord_repr n).space_notMem hmem
  · simp at hmem

lemma expressionLine_inj (hx : x.1 ≠ [] ∧ ∀ text ∈ x.1, IsWord text)
    (hy : y.1 ≠ [] ∧ ∀ text ∈ y.1, IsWord text) (h : expressionLine x = expressionLine y) :
    x.1 = y.1 := by
  have hchars := congrArg String.toList h
  rw [toList_expressionLine, toList_expressionLine] at hchars
  obtain ⟨-, htexts⟩ :=
    Text.eq_of_append_cons (space_notMem_number _) (space_notMem_number _) hchars
  have hwords := congrArg Text.words htexts
  rwa [Text.words_intercalate (fun text htext => (hx.2 text htext).space_notMem) hx.1,
    Text.words_intercalate (fun text htext => (hy.2 text htext).space_notMem) hy.1] at hwords

lemma variableLine_ne (he : IsWord e.1) : variableLine e ≠ "No variables added." := by
  intro h
  have hplaceholder : "No variables added.".toList =
      ['N', 'o'] ++ ' ' :: 'v' :: "ariables added.".toList := by
    decide
  have hchars := congrArg String.toList h
  rw [toList_variableLine, hplaceholder] at hchars
  obtain ⟨-, htail⟩ := Text.eq_of_append_cons he.space_notMem (by decide) hchars
  exact absurd (List.cons.inj htail).1 (by decide)

lemma functionLine_ne (h : IsWord name) : functionLine name ≠ "No functions added." := by
  intro heq
  have hmem : ' ' ∈ (functionLine name).toList := by
    rw [heq]
    decide
  rw [toList_functionLine, List.mem_append] at hmem
  rcases hmem with hmem | hmem
  · exact h.space_notMem hmem
  · simp at hmem

lemma expressionLine_ne (x : List String × Nat) : expressionLine x ≠ "No expressions added." := by
  intro h
  have hplaceholder : "No expressions added.".toList =
      ['N', 'o'] ++ ' ' :: "expressions added.".toList := by
    decide
  have hchars := congrArg String.toList h
  rw [toList_expressionLine, hplaceholder] at hchars
  obtain ⟨hnumber, -⟩ := Text.eq_of_append_cons (space_notMem_number _) (by decide) hchars
  have hpoint : '.' ∈ ['N', 'o'] := by simp [← hnumber]
  exact absurd hpoint (by decide)

end Line

section Paragraph

variable {placeholder : String} {xs ys : List String}

lemma paragraph_inj (hx : placeholder ∉ xs) (hy : placeholder ∉ ys)
    (h : paragraph placeholder xs = paragraph placeholder ys) : xs = ys := by
  unfold paragraph at h
  split_ifs at h with hxs hys hys
  · rw [List.isEmpty_iff.mp hxs, List.isEmpty_iff.mp hys]
  · exact absurd (h ▸ List.mem_singleton_self _) hy
  · exact absurd (h ▸ List.mem_singleton_self _) hx
  · exact h

/-- A paragraph of lines that look unlike its placeholder gives away what its lines do. -/
lemma paragraph_map_inj {α β : Type} {f : α → String} {g : α → β} {P : α → Prop} {as bs : List α}
    (has : ∀ a ∈ as, P a) (hbs : ∀ b ∈ bs, P b) (hne : ∀ {a}, P a → f a ≠ placeholder)
    (hinj : ∀ {a b}, P a → P b → f a = f b → g a = g b)
    (h : paragraph placeholder (as.map f) = paragraph placeholder (bs.map f)) :
    as.map g = bs.map g := by
  have notMem {xs : List α} (hxs : ∀ x ∈ xs, P x) : placeholder ∉ xs.map f := by
    intro hmem
    obtain ⟨x, hx, heq⟩ := List.mem_map.mp hmem
    exact hne (hxs x hx) heq
  exact Text.map_eq_of_map_eq (fun a ha b hb => hinj (has a ha) (hbs b hb))
    (paragraph_inj (notMem has) (notMem hbs) h)

lemma forall_mem_paragraph {P : String → Prop} (hplaceholder : P placeholder)
    (hx : ∀ line ∈ xs, P line) : ∀ line ∈ paragraph placeholder xs, P line := by
  unfold paragraph
  split_ifs
  · exact List.forall_mem_singleton.mpr hplaceholder
  · exact hx

end Paragraph

/-- A line that is not empty, and that ends where it seems to. -/
def IsLine (line : String) : Prop := line ≠ "" ∧ '\n' ∉ line.toList

section Lines

lemma isLine_variableLine {e : String × String} (h : IsWord e.1 ∧ IsWord e.2) :
    IsLine (variableLine e) := by
  rw [IsLine, ← String.toList_inj.ne, toList_variableLine]
  simp [h.1.newline_notMem, h.2.newline_notMem]

lemma isLine_functionLine {name : String} (h : IsWord name) : IsLine (functionLine name) := by
  rw [IsLine, ← String.toList_inj.ne, toList_functionLine]
  simp [h.newline_notMem]

lemma isLine_expressionLine {x : List String × Nat} (h : ∀ text ∈ x.1, IsWord text) :
    IsLine (expressionLine x) := by
  have hnumber : '\n' ∉ Nat.toDigits 10 x.2 := by
    simpa using (Numeral.isWord_repr x.2).newline_notMem
  have htexts : '\n' ∉ (" ".intercalate x.1).toList := by
    intro hmem
    rcases Text.mem_of_mem_intercalate hmem with hspace | ⟨text, htext, hmem⟩
    · exact absurd hspace (by decide)
    · exact (h text htext).newline_notMem hmem
  rw [IsLine, ← String.toList_inj.ne, toList_expressionLine]
  simpa [hnumber] using htexts

variable (hs : s.Legible)
include hs

lemma Legible.isLine_values :
    ∀ line ∈ paragraph "No variables added." (s.values.map variableLine), IsLine line :=
  forall_mem_paragraph ⟨by decide, by decide⟩ (List.forall_mem_map.mpr fun e he =>
    isLine_variableLine (hs.values e he))

lemma Legible.isLine_functions :
    ∀ line ∈ paragraph "No functions added." (s.functions.map functionLine), IsLine line :=
  forall_mem_paragraph ⟨by decide, by decide⟩ (List.forall_mem_map.mpr fun name hname =>
    isLine_functionLine (hs.functions name hname))

lemma Legible.texts {x : List String × Nat} (hx : x ∈ s.expressions.zipIdx 1) :
    x.1 ≠ [] ∧ ∀ text ∈ x.1, IsWord text :=
  hs.expressions x.1 (List.fst_mem_of_mem_zipIdx hx)

lemma Legible.isLine_expressions : ∀ line ∈ paragraph "No expressions added."
    ((s.expressions.zipIdx 1).map expressionLine), IsLine line :=
  forall_mem_paragraph ⟨by decide, by decide⟩ (List.forall_mem_map.mpr fun _ hx =>
    isLine_expressionLine (hs.texts hx).2)

lemma Legible.newline_notMem : ∀ line ∈ s.lines, '\n' ∉ line.toList := by
  simp only [lines, List.forall_mem_cons, List.forall_mem_append]
  exact ⟨by decide, fun line hline => (hs.isLine_values line hline).2, by decide, by decide,
    fun line hline => (hs.isLine_functions line hline).2, by decide, by decide,
    fun line hline => (hs.isLine_expressions line hline).2⟩

end Lines

/-- An empty line ends each of the first two sections, and no line of theirs is empty. -/
theorem lines_inj (hs : s.Legible) (ht : t.Legible) (h : s.lines = t.lines) : s = t := by
  have empty_notMem {ls : List String} (hls : ∀ line ∈ ls, IsLine line) : "" ∉ ls :=
    fun hmem => (hls "" hmem).1 rfl
  obtain ⟨hvalues, hrest⟩ := Text.eq_of_append_cons (empty_notMem hs.isLine_values)
    (empty_notMem ht.isLine_values) (List.cons.inj h).2
  obtain ⟨hfunctions, hrest⟩ := Text.eq_of_append_cons (empty_notMem hs.isLine_functions)
    (empty_notMem ht.isLine_functions) (List.cons.inj hrest).2
  have hexpressions := (List.cons.inj hrest).2
  apply Shown.ext
  · simpa using paragraph_map_inj (g := id) hs.values ht.values (fun he => variableLine_ne he.1)
      (fun he hd => variableLine_inj he.1 hd.1) hvalues
  · simpa using paragraph_map_inj (g := id) hs.functions ht.functions functionLine_ne
      (fun _ _ => functionLine_inj) hfunctions
  · have hfirst := paragraph_map_inj (g := Prod.fst) (fun _ => hs.texts) (fun _ => ht.texts)
      (fun _ => expressionLine_ne _) expressionLine_inj hexpressions
    simpa only [List.zipIdx_map_fst] using hfirst

end Shown

/-- The calculator stands at the end of a run that begins with two tables. -/
def Reached (c : Calculator) : Prop :=
  ∃ values functions commands, c = ((ofTables values functions).run commands).2

variable {c d : Calculator}

lemma Reached.legible (h : c.Reached) : c.shown.Legible where
  values e he := by
    obtain ⟨entry, hentry, rfl⟩ := List.mem_map.mp he
    exact ⟨Lexeme.isWord_of_isIdentifier (Table.named _ entry hentry), Numeral.isWord_display _⟩
  functions name hname := by
    obtain ⟨entry, hentry, rfl⟩ := List.mem_map.mp hname
    exact Lexeme.isWord_of_isIdentifier (Table.named _ entry hentry)
  expressions texts htexts := by
    obtain ⟨e, he, rfl⟩ := List.mem_map.mp htexts
    obtain ⟨values, functions, commands, rfl⟩ := h
    obtain ⟨⟨scope, source, hread⟩, -⟩ := serves_functions values functions commands e he
    obtain ⟨t, ht, rfl⟩ := Expression.exists_isTree hread
    have hleaves : t.leaves.map (·.text) = t.tokens.map (·.text) := t.map_leaves fun text _ => text
    refine ⟨fun hnil => ?_, fun text htext => ?_⟩
    · obtain ⟨u, hu, -⟩ := t.exists_getLast_leaves
      have hnone : t.leaves = [] := List.map_eq_nil_iff.mp hnil
      rw [hnone] at hu
      cases hu
    · obtain ⟨u, hu, rfl⟩ := List.mem_map.mp (hleaves ▸ htext)
      exact (Token.spelled_of_tokenize ht.tokens u hu).isWord

lemma listing_eq_iff (hc : c.Reached) (hd : d.Reached) :
    c.listing = d.listing ↔ c.shown = d.shown := by
  rw [listing_eq, listing_eq]
  refine ⟨fun h => Shown.lines_inj hc.legible hd.legible ?_, fun h => by rw [h]⟩
  exact Text.eq_of_join (show "\n".toList = ['\n'] from rfl) hc.legible.newline_notMem
    hd.legible.newline_notMem h

theorem listing_exact (hc : c.Reached) (hd : d.Reached) : c.listing = d.listing ↔
    (∀ name, (c.variableTable.get? name).map Numeral.display =
      (d.variableTable.get? name).map Numeral.display) ∧
    (∀ name, name ∈ c.functionTable.names ↔ name ∈ d.functionTable.names) ∧
    c.expressions.map (fun e => e.infixTokens.map (·.text)) =
      d.expressions.map fun e => e.infixTokens.map (·.text) := by
  rw [listing_eq_iff hc hd, Shown.ext_iff, ← Table.map_eq_map_iff, ← Table.names_eq_iff]
  rfl

theorem listing_exact_removed :
    standard.listing ≠ (standard.run [.removeVariable "e"]).2.listing := by
  intro h
  have hc : standard.Reached := ⟨.standard, .standard, [], rfl⟩
  have hd : (standard.run [.removeVariable "e"]).2.Reached := ⟨.standard, .standard, _, rfl⟩
  have hvalue := congrArg Option.isSome (((listing_exact hc hd).mp h).1 "e")
  rw [Option.isSome_map, Option.isSome_map] at hvalue
  exact absurd hvalue (by decide)

end Calculator

end Reckoner
