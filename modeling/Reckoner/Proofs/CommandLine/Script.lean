import Reckoner.CommandLine.Run
import Reckoner.Proofs.Calculator.Live
import Reckoner.Proofs.CommandLine.Definitions
import Reckoner.Proofs.Journal.Quiet

/-! Runs of scripts. The lines share a calculator that grows, but a line reads nothing of it
except the variables and the functions, and those stay as the definitions have made them. So a
run leaves behind what its lines leave behind, one after the other. This does not depend on how
the logger writes a record. -/

namespace Reckoner

/-- Of two definitions of one name the last counts. -/
def Scope.overwrite (scope : Scope) (ds : List CommandLine.Definition) : Scope where
  value? name := ((ds.filter (·.name = name)).getLast?.map (·.value)).or (scope.value? name)
  function? := scope.function?

lemma Scope.overwrite_cons (scope : Scope) (d : CommandLine.Definition)
    (ds : List CommandLine.Definition) :
    scope.overwrite (d :: ds) = (scope.overwrite [d]).overwrite ds := by
  simp only [overwrite, Scope.mk.injEq, and_true]
  funext name
  by_cases h : d.name = name
  · cases hlast : (ds.filter (·.name = name)).getLast? <;> simp [h, List.getLast?_cons, hlast]
  · simp [h]

namespace CommandLine

structure Report where
  output : String
  errors : String
  succeeded : Bool

namespace Report

def concat (rs : List Report) : Report where
  output := String.join (rs.map output)
  errors := String.join (rs.map errors)
  succeeded := rs.all succeeded

def append (r s : Report) : Report :=
  ⟨r.output ++ s.output, r.errors ++ s.errors, r.succeeded && s.succeeded⟩

lemma concat_cons (r : Report) (rs : List Report) : concat (r :: rs) = r.append (concat rs) := by
  simp [concat, append]

end Report

variable (logged : Record → String)

/-- What an expression leaves behind in a scope, apart from light records. -/
def report (showsPostfix : Bool) (scope : Scope) (text : String) : Report :=
  match (Expression.parse scope text).result with
  | .error e => ⟨"", logged (.lineRejected text) ++ (e.message ++ "\n"), false⟩
  | .ok e =>
    let form := if showsPostfix then e.postfixText ++ "\n" else ""
    match (e.calculate scope).result with
    | .error fault => ⟨form, fault.message ++ "\n", false⟩
    | .ok x => ⟨form ++ (Numeral.display x ++ "\n"), "", true⟩

/-- Blank lines and comments leave nothing behind, and of the others the blanks around them do
not count. -/
def lineReport (showsPostfix : Bool) (scope : Scope) (line : List Char) : Report :=
  if Text.trim line = [] ∨ (Text.trim line).head? = some '#' then ⟨"", "", true⟩
  else report logged showsPostfix scope (String.ofList (Text.trim line))

/-- What each line of a script leaves behind under the definitions. -/
def reports (showsPostfix : Bool) (ds : List Definition) (text : String) : List Report :=
  (Text.lines text.toList).map (lineReport logged showsPostfix (Scope.standard.overwrite ds))

section Lines

variable {showsPostfix : Bool} {scope : Scope} {c : Calculator} {rs : List Record}

/-- What emissions come to at the default level. -/
def Report.ofEmissions (es : List Emission) (succeeded : Bool) : Report where
  output := String.join (es.map Emission.toOutput)
  errors := String.join (es.map (Emission.toErrors logged (some .warn)))
  succeeded := succeeded

variable {logged}

lemma join_output_journal (rs : List Record) :
    String.join ((rs.map Emission.journal).map Emission.toOutput) = "" := by
  induction rs with
  | nil => rfl
  | cons r rs ih => simpa [Emission.toOutput] using ih

lemma join_errors_journal (h : ∀ r ∈ rs, r.level.isKeptAt .warn = false) :
    String.join ((rs.map Emission.journal).map (Emission.toErrors logged (some .warn))) = "" := by
  induction rs with
  | nil => rfl
  | cons r rs ih =>
    have hr := h r (by simp)
    simpa [Emission.toErrors, hr] using ih fun r hr => h r (by simp [hr])

lemma ofEmissions_journal_append (h : ∀ r ∈ rs, r.level.isKeptAt .warn = false)
    (es : List Emission) (succeeded : Bool) :
    Report.ofEmissions logged (rs.map Emission.journal ++ es) succeeded =
      Report.ofEmissions logged es succeeded := by
  simp only [Report.ofEmissions, List.map_append, String.join_append, join_output_journal,
    join_errors_journal h, String.empty_append]

lemma ofEmissions_append (as bs : List Emission) (a b : Bool) :
    Report.ofEmissions logged (as ++ bs) (a && b) =
      (Report.ofEmissions logged as a).append (Report.ofEmissions logged bs b) := by
  simp [Report.ofEmissions, Report.append]

lemma ofEmissions_postfixLines_append {index : Nat} {e : Expression}
    (he : c.expressions[index]? = some e) (es : List Emission) (succeeded : Bool) :
    Report.ofEmissions logged (postfixLines showsPostfix c index ++ es) succeeded =
      ⟨(if showsPostfix then e.postfixText ++ "\n" else "") ++
        (Report.ofEmissions logged es succeeded).output, (Report.ofEmissions logged es succeeded).errors,
        succeeded⟩ := by
  cases showsPostfix <;>
    simp [postfixLines, he, Report.ofEmissions, Emission.toOutput, Emission.toErrors]

lemma ofEmissions_failure (line : String) (succeeded : Bool) :
    Report.ofEmissions logged [.failure line] succeeded = ⟨"", line ++ "\n", succeeded⟩ := by
  simp [Report.ofEmissions, Emission.toOutput, Emission.toErrors]

lemma ofEmissions_result (line : String) (succeeded : Bool) :
    Report.ofEmissions logged [.result line] succeeded = ⟨line ++ "\n", "", succeeded⟩ := by
  simp [Report.ofEmissions, Emission.toOutput, Emission.toErrors]

lemma ofEmissions_rejected (text message : String) :
    Report.ofEmissions logged [.journal (.lineRejected text), .failure message] false =
      ⟨"", logged (.lineRejected text) ++ (message ++ "\n"), false⟩ := by
  have hkept : (Record.lineRejected text).level.isKeptAt .warn = true := rfl
  simp [Report.ofEmissions, Emission.toOutput, Emission.toErrors, hkept]

lemma runLine_report (showsPostfix : Bool) (c : Calculator) (text : String) :
    Report.ofEmissions logged (runLine showsPostfix c text).emissions
        (runLine showsPostfix c text).succeeded = report logged showsPostfix c.scope text ∧
      (runLine showsPostfix c text).calculator.scope = c.scope := by
  have hadded : (c.addExpression text).QuietAt .warn := (c.quietAt_addExpression text).mono rfl
  cases hparse : (Expression.parse c.scope text).result with
  | error e =>
    have hresult : (c.addExpression text).result = .error (.parse e) := by
      simp [Calculator.addExpression, hparse]
    simp only [runLine, hresult, report, hparse, ofEmissions_journal_append hadded]
    exact ⟨ofEmissions_rejected text e.message, trivial⟩
  | ok e =>
    have hresult := Calculator.addExpression_eq_ok.mpr ⟨rfl, e, hparse, rfl⟩
    set d : Calculator := { c with expressions := c.expressions ++ [e] } with hd
    have hget : d.expressions[c.expressions.length]? = some e := by simp [hd]
    have hcalculated : (d.calculate c.expressions.length).QuietAt .warn :=
      (d.quietAt_calculate c.expressions.length).mono rfl
    have hvalue : (d.calculate c.expressions.length).result =
        (e.calculate c.scope).result.mapError .eval :=
      Calculator.result_calculate hget
    simp only [runLine, hresult, report, hparse, List.append_assoc, hvalue]
    cases hx : (e.calculate c.scope).result with
    | error fault =>
      simp only [Outcome.mapError_error, ofEmissions_journal_append hadded,
        ofEmissions_postfixLines_append hget, ofEmissions_journal_append hcalculated,
        ofEmissions_failure, String.append_empty]
      exact ⟨rfl, rfl⟩
    | ok x =>
      simp only [Outcome.mapError_ok, ofEmissions_journal_append hadded,
        ofEmissions_postfixLines_append hget, ofEmissions_journal_append hcalculated,
        ofEmissions_result]
      exact ⟨trivial, rfl⟩

lemma runLines_report (showsPostfix : Bool) (hc : c.scope = scope) (lines : List String) :
    Report.ofEmissions logged (runLines showsPostfix c lines).1 (runLines showsPostfix c lines).2 =
      Report.concat (lines.map (report logged showsPostfix scope)) := by
  induction lines generalizing c with
  | nil => rfl
  | cons line lines ih =>
    obtain ⟨hline, hscope⟩ := runLine_report showsPostfix c line
    have hrest := ih (hscope.trans hc)
    rw [runLines, List.map_cons, Report.concat_cons, ← hrest, ← hc, ← hline, ofEmissions_append]

lemma concat_scriptLines (showsPostfix : Bool) (scope : Scope) (text : String) :
    Report.concat ((scriptLines text).map (report logged showsPostfix scope)) =
      Report.concat ((Text.lines text.toList).map (lineReport logged showsPostfix scope)) := by
  unfold scriptLines
  induction Text.lines text.toList with
  | nil => rfl
  | cons line lines ih =>
    rw [List.map_cons, List.map_cons, Report.concat_cons, ← ih]
    by_cases hidle : Text.trim line = [] ∨ (Text.trim line).head? = some '#'
    · have hdropped : (!(Text.trim line).isEmpty && (Text.trim line).head? != some '#') = false := by
        rcases hidle with h | h <;> simp [h]
      simp [lineReport, hidle, hdropped, Report.append]
    · have hkept : (!(Text.trim line).isEmpty && (Text.trim line).head? != some '#') = true := by
        simpa using hidle
      simp [lineReport, hidle, hkept, Report.concat_cons]

end Lines

namespace Arguments

variable {logged} {a : Arguments} {text : String}

lemma scope_insert (c : Calculator) (d : Definition) (hname : Lexeme.isIdentifier d.name) :
    ({ c with variableTable := c.variableTable.insert d.name d.value hname } : Calculator).scope =
      c.scope.overwrite [d] := by
  simp only [Calculator.scope, Scope.ofTables, Scope.overwrite, Scope.mk.injEq, and_true]
  funext name
  rw [Table.get?_insert]
  by_cases h : d.name = name
  · simp [h]
  · simp [h, Ne.symm h]

lemma bind_overwrites (c : Calculator) {ds : List Definition}
    (h : ∀ d ∈ ds, Lexeme.isIdentifier d.name) : ∃ c' : Calculator,
      (ds.foldlM (fun (c : Calculator) d => c.addVariable d.name d.value) c).result = .ok c' ∧
        c'.scope = c.scope.overwrite ds := by
  induction ds generalizing c with
  | nil => exact ⟨c, rfl, by simp [Scope.overwrite]⟩
  | cons d ds ih =>
    have hname := h d (by simp)
    obtain ⟨c', hc', hscope⟩ := ih { c with variableTable := c.variableTable.insert d.name d.value hname }
      fun d hd => h d (by simp [hd])
    refine ⟨c', ?_, ?_⟩
    · rw [List.foldlM_cons, Logged.result_bind, Calculator.addVariable_eq_ok.mpr ⟨hname, rfl⟩]
      exact hc'
    · rw [hscope, scope_insert, ← Scope.overwrite_cons]

lemma run_report (logged : Record → String) (file : Except FileFault String)
    (hnames : ∀ d ∈ a.definitions, Lexeme.isIdentifier d.name)
    (h : (if a.readsFile then file else .ok a.contents) = .ok text) :
    let whole := Report.concat (reports logged a.showsPostfix a.definitions text)
    Report.ofEmissions logged (a.run file).emissions whole.succeeded = whole ∧
      (a.run file).exitCode = if whole.succeeded then 0 else 1 := by
  intro whole
  obtain ⟨c, hc, hscope⟩ := bind_overwrites .standard hnames
  have hbound : a.bind.result = .ok c := hc
  have hquiet : a.bind.QuietAt .warn :=
    (Logged.quietAt_foldlM (fun c d => c.quietAt_addVariable d.name d.value) _ _).mono rfl
  have hlines : Report.ofEmissions logged (runLines a.showsPostfix c (scriptLines text)).1
      (runLines a.showsPostfix c (scriptLines text)).2 = whole :=
    (runLines_report a.showsPostfix hscope _).trans (concat_scriptLines _ _ text)
  have hsucceeded : _ = whole.succeeded := congrArg Report.succeeded hlines
  simp only [run, hbound, h]
  rw [← hsucceeded]
  exact ⟨(ofEmissions_journal_append hquiet _ _).trans hlines, rfl⟩

lemma reports_append_newline (showsPostfix : Bool) (ds : List Definition) (A B : String) :
    reports logged showsPostfix ds (A ++ "\n" ++ B) =
      reports logged showsPostfix ds A ++ reports logged showsPostfix ds B := by
  have hchars : (A ++ "\n" ++ B).toList = A.toList ++ '\n' :: B.toList := by simp
  rw [reports, hchars, Text.lines_append_newline, List.map_append]
  rfl

theorem run_script (ws : List WrittenDefinition) (showsPostfix : Bool) (name : String) :
    (∀ w ∈ ws, Definition.parse w.text = .ok w.definition) ∧
    ∃ a, parse (scriptArguments ws showsPostfix name) = .ok a ∧ a.readsFile ∧ a.contents = name ∧
      ∀ logged : Record → String,
        (∀ A B,
          (a.run (.ok (A ++ "\n" ++ B))).output =
            (a.run (.ok A)).output ++ (a.run (.ok B)).output ∧
          (a.run (.ok (A ++ "\n" ++ B))).errors logged (a.lightest none) =
            (a.run (.ok A)).errors logged (a.lightest none) ++
              (a.run (.ok B)).errors logged (a.lightest none) ∧
          ((a.run (.ok (A ++ "\n" ++ B))).exitCode = 1 ↔
            (a.run (.ok A)).exitCode = 1 ∨ (a.run (.ok B)).exitCode = 1)) ∧
        ∀ text,
          (a.run (.ok text)).output = String.join
            ((reports logged showsPostfix (ws.map (·.definition)) text).map (·.output)) ∧
          (a.run (.ok text)).errors logged (a.lightest none) = String.join
            ((reports logged showsPostfix (ws.map (·.definition)) text).map (·.errors)) ∧
          (a.run (.ok text)).exitCode =
            if (reports logged showsPostfix (ws.map (·.definition)) text).all (·.succeeded) then 0
            else 1 := by
  set a : Arguments := ⟨true, showsPostfix, false, ws.map (·.definition), name⟩
  have hnames : ∀ d ∈ a.definitions, Lexeme.isIdentifier d.name :=
    List.forall_mem_map.mpr fun w _ => w.isIdentifier
  refine ⟨fun w _ => w.parse_text, a, parse_scriptArguments ws showsPostfix name, rfl, rfl,
    fun logged => ?_⟩
  set contributed := reports logged showsPostfix (ws.map (·.definition))
  have hrun (text : String) :
      (a.run (.ok text)).output = String.join ((contributed text).map (·.output)) ∧
      (a.run (.ok text)).errors logged (a.lightest none) =
        String.join ((contributed text).map (·.errors)) ∧
      (a.run (.ok text)).exitCode = if (contributed text).all (·.succeeded) then 0 else 1 := by
    obtain ⟨hreport, hexit⟩ := run_report logged (.ok text) hnames rfl
    exact ⟨congrArg Report.output hreport, congrArg Report.errors hreport, hexit⟩
  refine ⟨fun A B => ?_, hrun⟩
  have happend : contributed (A ++ "\n" ++ B) = contributed A ++ contributed B :=
    reports_append_newline _ _ A B
  obtain ⟨houtput, herrors, hexit⟩ := hrun (A ++ "\n" ++ B)
  rw [houtput, herrors, hexit, (hrun A).1, (hrun B).1, (hrun A).2.1, (hrun B).2.1, (hrun A).2.2,
    (hrun B).2.2, happend]
  refine ⟨by simp, by simp, ?_⟩
  simp only [List.all_append, Bool.and_eq_true, ite_eq_right_iff, zero_ne_one]
  tauto

theorem run_script_rejected :
    ∃ a, parse ["--file", "--rpn", "-D", " x =2", "--define=x= 3 ", "--", "script.txt"] = .ok a ∧
      (a.run (.ok "#x\n1+")).exitCode = 1 := by
  have hlines : Text.lines ['#', 'x', '\n', '1', '+'] = [['#', 'x'], ['1', '+']] := by decide
  have htrim : Text.trim ['1', '+'] = ['1', '+'] := by decide
  have hnote : Text.trim ['#', 'x'] = ['#', 'x'] := by decide
  have hparse (scope : Scope) : (Expression.parse scope "1+").result =
      .error ⟨.unexpectedEnd, "1+", 2⟩ := by
    cbv
  have hfailed (ds : List Definition) :
      (reports Record.message true ds "#x\n1+").all (·.succeeded) = false := by
    simp [reports, hlines, lineReport, htrim, hnote, report, hparse]
  obtain ⟨-, a, ha, -, -, hrun⟩ := run_script
    [⟨.letter, " x ", "2", Numeral.nearest ⟨2, 0⟩, by decide, rfl⟩,
      ⟨.wordText, "x", " 3 ", Numeral.nearest ⟨3, 0⟩, by decide, rfl⟩] true "script.txt"
  refine ⟨a, ha, ?_⟩
  obtain ⟨-, hcontributed⟩ := hrun Record.message
  rw [(hcontributed _).2.2, hfailed]
  rfl

end Arguments

end CommandLine

end Reckoner
