import Reckoner.Proofs.Calculator.Frame
import Reckoner.Proofs.Calculator.Journal
import Reckoner.Proofs.Journal.Transcript
import Reckoner.Proofs.Token.Blank
import Reckoner.Proofs.Token.Name

/-! A calculator rebuilt from its journal. Every command that changes the calculator is told of, and
what is told of does the same again: a source is read as it was, since reading asks only whether the
names in it are bound. -/

namespace Reckoner

open Text (IsWord)

lemma Table.names_insert {α : Type} {t u : Table α} {name : String} {value value' : α}
    (h : t.names = u.names) (hname : Lexeme.isIdentifier name) :
    (t.insert name value hname).names = (u.insert name value' hname).names := by
  have hnone (other : String) : t.get? other = none ↔ u.get? other = none := by
    rw [get?_eq_none, get?_eq_none, h]
  refine names_eq_iff.mpr fun other => not_iff_not.mp ?_
  rw [← get?_eq_none, ← get?_eq_none, get?_insert, get?_insert]
  split_ifs
  · simp
  · exact hnone other

section Lines

lemma Tree.text_of_mem_postorder {t : Tree} {u : Token} (h : u ∈ t.postorder) :
    (∃ s ∈ t.tokens, u.text = s.text) ∨ u.text = "abs" := by
  rcases mem_leaves_of_mem_postorder h with hleaf | ⟨c, rfl⟩
  · have htext : u.text ∈ t.leaves.map (·.text) := List.mem_map_of_mem hleaf
    rw [t.map_leaves fun text _ => text] at htext
    obtain ⟨s, hs, heq⟩ := List.mem_map.mp htext
    exact .inl ⟨s, hs, heq.symm⟩
  · exact .inr rfl

variable {scope : Scope} {source : String} {e : Expression}

lemma Token.isWord_postfixSymbol {t : Token} (h : IsWord t.text) : IsWord t.postfixSymbol := by
  unfold postfixSymbol
  split_ifs
  · simp [IsWord, negationSymbol, Text.isBlank, Text.blankRanges]
  · exact h

namespace Expression

lemma newline_notMem_source (h : (parse scope source).result = .ok e) : '\n' ∉ source.toList := by
  obtain ⟨t, ht, -⟩ := exists_isTree h
  intro hmem
  -- a line feed is a blank, but none that is skipped
  exact absurd (Token.skipped_of_scan ht.tokens '\n' hmem rfl) (by decide)

lemma source_of_parse (h : (parse scope source).result = .ok e) : e.source = source := by
  obtain ⟨t, -, rfl⟩ := exists_isTree h
  rfl

lemma isWord_of_parse (h : (parse scope source).result = .ok e) :
    ∀ t ∈ e.postfixTokens, IsWord t.postfixSymbol := by
  obtain ⟨tree, htree, rfl⟩ := exists_isTree h
  intro t ht
  apply Token.isWord_postfixSymbol
  rcases Tree.text_of_mem_postorder ht with ⟨s, hs, htext⟩ | htext
  · rw [htext]
    exact (Token.spelled_of_tokenize htree.tokens s hs).isWord
  · rw [htext]
    simp [IsWord, Text.isBlank, Text.blankRanges]

lemma newline_notMem_postfixText (h : (parse scope source).result = .ok e) :
    '\n' ∉ e.postfixText.toList := by
  have hsymbols : ∀ t ∈ e.postfixTokens, '\n' ∉ t.postfixSymbol.toList :=
    fun t ht => (isWord_of_parse h t ht).newline_notMem
  simpa [postfixText, String.toList_join] using hsymbols

end Expression

end Lines

namespace Calculator

variable {c d c' : Calculator} {command : Command} {records : List Record}
  {bound : String → UnaryFunction}

section Replay

/-- The calculators differ at most in what their functions compute. -/
structure Mirrors (c d : Calculator) : Prop where
  variableTable : c.variableTable = d.variableTable
  functionNames : c.functionTable.names = d.functionTable.names
  expressions : c.expressions = d.expressions

/-- The command with what is bound to the name of its function taken from elsewhere. -/
def Command.rebind (bound : String → UnaryFunction) : Command → Command
  | .addFunction name _ => .addFunction name (bound name)
  | command => command

lemma Mirrors.get?_eq_none (h : c.Mirrors d) (name : String) :
    c.functionTable.get? name = none ↔ d.functionTable.get? name = none := by
  rw [Table.get?_eq_none, Table.get?_eq_none, h.functionNames]

lemma Mirrors.bindsAlike (h : c.Mirrors d) (name : String) :
    c.scope.BindsAlike d.scope name := by
  refine ⟨congrArg (fun t => (Table.get? t name).isSome) h.variableTable, ?_⟩
  have hnone := h.get?_eq_none name
  rw [← Option.isNone_iff_eq_none, ← Option.isNone_iff_eq_none, ← Bool.eq_iff_iff] at hnone
  simpa [scope, Scope.ofTables] using congrArg not hnone

lemma Mirrors.parse (h : c.Mirrors d) (source : String) :
    Expression.parse c.scope source = Expression.parse d.scope source :=
  Expression.parse_congr fun _ _ t _ _ => h.bindsAlike t.text

lemma Change.step (h : c.Change command d) : (c.step command).2 = d := by
  have hperform : ∃ a, (c.perform command).result = .ok (a, d) := by
    cases h with
    | variableAdded hname => exact ⟨.done, by simp [perform, addVariable_eq_ok.mpr ⟨hname, rfl⟩]⟩
    | @variableRemoved _ value hvalue =>
      exact ⟨.value value, by simp [perform, removeVariable_eq_ok.mpr ⟨hvalue, rfl⟩]⟩
    | functionAdded hname hunbound =>
      exact ⟨.done, by simp [perform, addFunction_eq_ok.mpr ⟨hname, hunbound, rfl⟩]⟩
    | expressionAdded hparse =>
      exact ⟨.index c.expressions.length,
        by simp [perform, addExpression_eq_ok.mpr ⟨rfl, _, hparse, rfl⟩]⟩
    | @expressionRemoved _ e he =>
      exact ⟨.expression e, by simp [perform, removeExpression_eq_ok.mpr ⟨he, rfl⟩]⟩
  obtain ⟨a, ha⟩ := hperform
  simp [Calculator.step, ha]

lemma Change.exists_mirrors (h : c.Change command c') (hd : c.Mirrors d)
    (bound : String → UnaryFunction) :
    ∃ d', d.Change (command.rebind bound) d' ∧ c'.Mirrors d' := by
  have hvariables := hd.variableTable
  have hexpressions := hd.expressions
  cases h with
  | variableAdded hname =>
    exact ⟨_, .variableAdded hname, by rw [hvariables], hd.functionNames, hexpressions⟩
  | variableRemoved hvalue =>
    exact ⟨_, .variableRemoved (hvariables ▸ hvalue), by rw [hvariables], hd.functionNames,
      hexpressions⟩
  | functionAdded hname hunbound =>
    exact ⟨_, .functionAdded hname ((hd.get?_eq_none _).mp hunbound), hvariables,
      Table.names_insert hd.functionNames hname, hexpressions⟩
  | expressionAdded hparse =>
    exact ⟨_, .expressionAdded (hd.parse _ ▸ hparse), hvariables, hd.functionNames,
      by rw [hexpressions]⟩
  | expressionRemoved he =>
    exact ⟨_, .expressionRemoved (hexpressions ▸ he), hvariables, hd.functionNames,
      by rw [hexpressions]⟩

lemma Change.not_isReading (h : c.Change command d) : ¬ command.IsReading := by
  cases h <;> exact id

lemma Enters.commands (h : c.Enters command records) (hreading : ¬ command.IsReading) :
    records.filterMap (Record.command? bound) = [command.rebind bound] := by
  cases h with
  | reading hcommand => exact absurd hcommand hreading
  | variableAdded | variableRemoved | functionAdded | expressionAdded | expressionRemoved => rfl

lemma journal_idle (h : command.IsReading ∨ ∀ a, (c.step command).1.result ≠ .ok a) :
    (c.step command).1.journal .debug = [] := by
  cases hresult : (c.step command).1.result with
  | error error => exact journal_of_refused hresult
  | ok a =>
    have hreading := h.resolve_right fun hrefused => hrefused a hresult
    have henters := enters_of_step hresult
    generalize (c.step command).1.journal .debug = records at henters
    cases henters with
    | reading => rfl
    | variableAdded | variableRemoved | functionAdded | expressionAdded | expressionRemoved =>
      exact hreading.elim

/-- The records that are left by the commands of a run. -/
def journal (c : Calculator) (commands : List Command) : List Record :=
  (c.run commands).1.flatMap (·.journal .debug)

lemma journal_cons (c : Calculator) (command : Command) (commands : List Command) :
    c.journal (command :: commands) =
      (c.step command).1.journal .debug ++ (c.step command).2.journal commands :=
  rfl

lemma mirrors_step (hd : c.Mirrors d) (command : Command) (bound : String → UnaryFunction) :
    (c.step command).2.Mirrors
      (d.run (((c.step command).1.journal .debug).filterMap (Record.command? bound))).2 := by
  rcases step_cases c command with ⟨hsame, hidle⟩ | ⟨⟨a, ha⟩, hchange⟩
  · rw [hsame, journal_idle hidle]
    exact hd
  · obtain ⟨d', hreplayed, hmirrors⟩ := hchange.exists_mirrors hd bound
    rw [(enters_of_step ha).commands hchange.not_isReading]
    rwa [← hreplayed.step] at hmirrors

lemma mirrors_run (hd : c.Mirrors d) (commands : List Command) (bound : String → UnaryFunction) :
    (c.run commands).2.Mirrors
      (d.run ((c.journal commands).filterMap (Record.command? bound))).2 := by
  induction commands generalizing c d with
  | nil => exact hd
  | cons command commands ih =>
    rw [journal_cons, List.filterMap_append, run_append]
    exact ih (mirrors_step hd command bound)

end Replay

section Legible

variable {p : Category → Prop}

lemma Enters.legible (h : c.Enters command records) (hchange : c.Change command d)
    (hc : c.Serves p) : ∀ r ∈ records, r.Legible := by
  cases h with
  | variableAdded =>
    cases hchange with
    | variableAdded hname =>
      exact List.forall_mem_singleton.mpr (Lexeme.isWord_of_isIdentifier hname)
  | variableRemoved =>
    cases hchange with
    | variableRemoved hvalue =>
      have hname := Table.isIdentifier_of_get? (Option.isSome_iff_exists.mpr ⟨_, hvalue⟩)
      exact List.forall_mem_singleton.mpr (Lexeme.isWord_of_isIdentifier hname)
  | functionAdded =>
    cases hchange with
    | functionAdded hname =>
      exact List.forall_mem_singleton.mpr (Lexeme.isWord_of_isIdentifier hname)
  | expressionAdded hparse =>
    have hsource := Expression.newline_notMem_source hparse
    have hpostfix := Expression.newline_notMem_postfixText hparse
    exact List.forall_mem_cons.mpr ⟨⟨hsource, hpostfix⟩, List.forall_mem_singleton.mpr hsource⟩
  | expressionRemoved he =>
    obtain ⟨⟨scope, source, hread⟩, -⟩ := hc _ (List.mem_of_getElem? he)
    have hsource := Expression.newline_notMem_source hread
    rw [← Expression.source_of_parse hread] at hsource
    exact List.forall_mem_singleton.mpr hsource
  | reading hreading => exact absurd hreading hchange.not_isReading

lemma legible_step (hc : c.Serves p) (command : Command) :
    ∀ r ∈ (c.step command).1.journal .debug, r.Legible := by
  rcases step_cases c command with ⟨-, hidle⟩ | ⟨⟨a, ha⟩, hchange⟩
  · rw [journal_idle hidle]
    exact nofun
  · exact (enters_of_step ha).legible hchange hc

lemma legible_journal (hc : c.Serves (· = .functionName)) (commands : List Command) :
    ∀ r ∈ c.journal commands, r.Legible := by
  induction commands generalizing c with
  | nil => exact nofun
  | cons command commands ih =>
    rw [journal_cons]
    exact List.forall_mem_append.mpr ⟨legible_step hc command, ih (hc.run [command])⟩

end Legible

/-- A command that fails leaves no record. What the text of the records of a run tells of ends alike
when it is done from the same tables. -/
theorem journal_faithful :
    (∀ (c : Calculator) (command : Command),
      (∀ error, (c.step command).1.result = .error error →
        (c.step command).1.journal .debug = []) ∧
      ∀ a, (c.step command).1.result = .ok a →
        c.Enters command ((c.step command).1.journal .debug)) ∧
    ∀ (values : VariableTable) (functions : FunctionTable) (bound : String → UnaryFunction)
      (commands : List Command),
      ((ofTables values functions).run commands).2.Mirrors
        ((ofTables values functions).run (Command.ofText bound
          (Record.transcript ((ofTables values functions).journal commands)))).2 := by
  refine ⟨fun c command => ⟨fun _ => journal_of_refused, fun _ => enters_of_step⟩, ?_⟩
  intro values functions bound commands
  have hserves : (ofTables values functions).Serves (· = .functionName) := nofun
  have hsame : (ofTables values functions).Mirrors (ofTables values functions) := ⟨rfl, rfl, rfl⟩
  rw [Record.ofText_transcript (legible_journal hserves commands)]
  exact mirrors_run hsame commands bound

theorem journal_faithful_removed :
    ((ofTables .empty .empty).step (.removeVariable "x")).1.journal .debug = [] ∧
    ((ofTables .empty .empty).step (.addExpression "1")).1.journal .debug =
      [.parsed "1" "RPN: [ 1 ]", .expressionAdded 0 "1"] ∧
    ((ofTables .empty .empty).run (Command.ofText (fun _ => .ok)
      (Record.transcript ((ofTables .empty .empty).journal
        [.addExpression "1 + 2", .addExpression "3", .removeExpression 0])))).2.expressions =
      [⟨"3", [⟨.number, "3", 0⟩], [⟨.number, "3", 0⟩]⟩] := by
  obtain ⟨hjournal, hrebuilt⟩ := journal_faithful
  refine ⟨(hjournal _ _).1 (.binding (.unknownVariable "x")) (by cbv), ?_, ?_⟩
  · have henters := (hjournal (ofTables .empty .empty) (.addExpression "1")).2 (.index 0) (by cbv)
    generalize ((ofTables .empty .empty).step (.addExpression "1")).1.journal .debug = records
      at henters
    cases henters with
    | expressionAdded hparse =>
      have hread : (Expression.parse (ofTables .empty .empty).scope "1").result =
          .ok ⟨"1", [⟨.number, "1", 0⟩], [⟨.number, "1", 0⟩]⟩ := by
        cbv
      obtain rfl := Except.ok.inj (hparse.symm.trans hread)
      rfl
    | reading hreading => exact hreading.elim
  · exact (hrebuilt .empty .empty (fun _ => .ok) _).expressions.symm.trans (by cbv)

end Calculator

end Reckoner
