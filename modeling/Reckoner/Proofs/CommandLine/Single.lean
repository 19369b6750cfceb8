import Reckoner.Proofs.CommandLine.Script
import Reckoner.Proofs.Evaluation.Rendering
import Reckoner.Proofs.Text.Pieces
import Reckoner.Proofs.Token.Blank

/-! An expression that stands in the arguments. It is run as a script of one line, so only its
trimmed text counts. Blank texts and comments pass without a value, and around the others even
the blanks are lost that no expression may have. -/

namespace Reckoner

namespace CommandLine

/-- The run of an expression among the arguments prints the value that the expression evaluates
to, or fails as the evaluation does. -/
def Agrees (expr : String) : Prop :=
  ∀ flags ∈ [[], ["-v"]], ∃ a, Arguments.parse (flags ++ ["--", expr]) = .ok a ∧
    ∀ file : Except FileFault String,
      (∀ x, (evaluate expr).result = .ok x →
        (a.run file).exitCode = 0 ∧ (a.run file).output = Numeral.display x ++ "\n") ∧
      ∀ e, (evaluate expr).result = .error e →
        (a.run file).exitCode = 1 ∧ (a.run file).output = ""

variable {expr : String} (logged : Record → String)

section Evaluation

lemma skipped_of_evaluate {x : Float} (h : (evaluate expr).result = .ok x) :
    ∀ c ∈ expr.toList, Text.isBlank c → Lexeme.isSkipped c := by
  obtain ⟨e, he, -⟩ := Scope.evaluate_eq_ok.mp h
  obtain ⟨t, ht, -⟩ := Expression.exists_isTree he
  exact Token.skipped_of_scan ht.tokens

lemma evaluate_trim (h : ∀ c ∈ expr.toList, Text.isBlank c → Lexeme.isSkipped c) (x : Float) :
    (evaluate (String.ofList (Text.trim expr.toList))).result = .ok x ↔
      (evaluate expr).result = .ok x := by
  obtain ⟨front, back, hsplit, hfront, hback⟩ := Text.exists_trim expr.toList
  have hscans (ks : List (Category × String)) :
      Token.Scans expr.toList ks ↔ Token.Scans (Text.trim expr.toList) ks := by
    conv_lhs => rw [hsplit]
    apply Token.scans_surrounded_iff
    · exact fun c hc => h c (by rw [hsplit]; simp [hc]) (hfront c hc)
    · exact fun c hc => h c (by rw [hsplit]; simp [hc]) (hback c hc)
  constructor
  · intro hx
    exact Scope.evaluate_of_scans hx fun ks hks => (hscans ks).mpr (by simpa using hks)
  · intro hx
    exact Scope.evaluate_of_scans hx fun ks hks => by simpa using (hscans ks).mp hks

lemma report_of_value {text : String} {x : Float} (h : (evaluate text).result = .ok x) :
    report logged false .standard text = ⟨Numeral.display x ++ "\n", "", true⟩ := by
  obtain ⟨e, he, hx⟩ := Scope.evaluate_eq_ok.mp h
  simp [report, he, hx]

lemma report_of_error {text : String} {e : Error} (h : (evaluate text).result = .error e) :
    (report logged false .standard text).output = "" ∧
      (report logged false .standard text).succeeded = false := by
  cases hparse : (Expression.parse .standard text).result with
  | error e => simp [report, hparse]
  | ok e =>
    cases hvalue : (e.calculate .standard).result with
    | error fault => simp [report, hparse, hvalue]
    | ok x => cases h.symm.trans (Scope.evaluate_eq_ok.mpr ⟨e, hparse, hvalue⟩)

end Evaluation

lemma parse_single (expr : String) : ∀ flags ∈ [[], ["-v"]], ∃ verbose,
    Arguments.parse (flags ++ ["--", expr]) = .ok ⟨false, false, verbose, [], expr⟩ :=
  List.forall_mem_cons.mpr ⟨⟨false, rfl⟩, List.forall_mem_singleton.mpr ⟨true, rfl⟩⟩

lemma run_single (h : '\n' ∉ expr.toList) (verbose : Bool) (file : Except FileFault String) :
    (Arguments.run ⟨false, false, verbose, [], expr⟩ file).output =
        (lineReport logged false .standard expr.toList).output ∧
      (Arguments.run ⟨false, false, verbose, [], expr⟩ file).exitCode =
        if (lineReport logged false .standard expr.toList).succeeded then 0 else 1 := by
  have hscope : Scope.standard.overwrite [] = .standard := by simp [Scope.overwrite]
  have hreports : reports logged false [] expr = [lineReport logged false .standard expr.toList] := by
    simp [reports, Text.lines_single h, hscope]
  obtain ⟨hreport, hexit⟩ :=
    Arguments.run_report (a := ⟨false, false, verbose, [], expr⟩) logged file (by simp) rfl
  simp only [hreports] at hreport hexit
  have houtput := congrArg Report.output hreport
  exact ⟨houtput.trans (by simp [Report.concat]), hexit.trans (by simp [Report.concat])⟩

lemma agrees_iff_lineReport (h : '\n' ∉ expr.toList) : Agrees expr ↔
    (∀ x, (evaluate expr).result = .ok x → (lineReport logged false .standard expr.toList).succeeded ∧
      (lineReport logged false .standard expr.toList).output = Numeral.display x ++ "\n") ∧
    ∀ e, (evaluate expr).result = .error e →
      (lineReport logged false .standard expr.toList).succeeded = false ∧
        (lineReport logged false .standard expr.toList).output = "" := by
  constructor
  · intro hagrees
    obtain ⟨a, ha, hrun⟩ := hagrees [] (by simp)
    obtain ⟨verbose, hparse⟩ := parse_single expr [] (by simp)
    obtain rfl := Except.ok.inj (ha.symm.trans hparse)
    obtain ⟨hvalue, herror⟩ := hrun (.ok "")
    rw [(run_single logged h _ _).1, (run_single logged h _ _).2] at hvalue herror
    exact ⟨fun x hx => by simpa using hvalue x hx, fun e he => by simpa using herror e he⟩
  · rintro ⟨hvalue, herror⟩ flags hflags
    obtain ⟨verbose, hparse⟩ := parse_single expr flags hflags
    refine ⟨_, hparse, fun file => ?_⟩
    rw [(run_single logged h _ _).1, (run_single logged h _ _).2]
    exact ⟨fun x hx => by simpa using hvalue x hx, fun e he => by simpa using herror e he⟩

/-- A line that is skipped passes, and nothing that is skipped has a value. -/
lemma not_agrees_of_skipped (h : '\n' ∉ expr.toList)
    (hidle : Text.trim expr.toList = [] ∨ (Text.trim expr.toList).head? = some '#') :
    ¬ Agrees expr := by
  rw [agrees_iff_lineReport (fun _ => "") h, lineReport, if_pos hidle]
  rintro ⟨hvalue, herror⟩
  cases hx : (evaluate expr).result with
  | ok x => simpa using congrArg String.toList (hvalue x hx).2
  | error e => cases (herror e hx).1

theorem agrees_iff (h : '\n' ∉ expr.toList) : Agrees expr ↔
    Text.trim expr.toList ≠ [] ∧ (Text.trim expr.toList).head? ≠ some '#' ∧
      ((∀ c ∈ expr.toList, Text.isBlank c → Lexeme.isSkipped c) ∨
        ∃ e, (evaluate (String.ofList (Text.trim expr.toList))).result = .error e) := by
  by_cases hidle : Text.trim expr.toList = [] ∨ (Text.trim expr.toList).head? = some '#'
  · refine iff_of_false (not_agrees_of_skipped h hidle) ?_
    rintro ⟨hne, hcomment, -⟩
    exact hidle.elim hne hcomment
  obtain ⟨hne, hcomment⟩ := not_or.mp hidle
  rw [agrees_iff_lineReport (fun _ => "") h, lineReport, if_neg hidle]
  cases hx : (evaluate (String.ofList (Text.trim expr.toList))).result with
  | ok x =>
    rw [report_of_value _ hx]
    constructor
    · rintro ⟨-, herror⟩
      refine ⟨hne, hcomment, .inl ?_⟩
      cases hy : (evaluate expr).result with
      | ok y => exact skipped_of_evaluate hy
      | error e => cases (herror e hy).1
    · rintro ⟨-, -, hskipped | ⟨e, he⟩⟩
      · have hexpr := (evaluate_trim hskipped x).mp hx
        refine ⟨fun y hy => ?_, fun e he => by cases hexpr.symm.trans he⟩
        obtain rfl := Except.ok.inj (hexpr.symm.trans hy)
        exact ⟨rfl, rfl⟩
      · cases he
  | error e =>
    obtain ⟨houtput, hfailed⟩ := report_of_error (fun _ => "") hx
    constructor
    · rintro -
      exact ⟨hne, hcomment, .inr ⟨e, rfl⟩⟩
    · rintro -
      refine ⟨fun y hy => ?_, fun _ _ => ⟨hfailed, houtput⟩⟩
      cases hx.symm.trans ((evaluate_trim (skipped_of_evaluate hy) y).mpr hy)

theorem agrees_iff_tab : Agrees "\t1+" := by
  have hchars : "\t1+".toList = ['\t', '1', '+'] := by simp
  have htrim : Text.trim ['\t', '1', '+'] = ['1', '+'] := by decide
  refine (agrees_iff ?_).mpr ?_
  · rw [hchars]
    decide
  · rw [hchars, htrim]
    exact ⟨by decide, by decide, .inl (by simp [Text.isBlank, Text.blankRanges, Lexeme.isSkipped])⟩

theorem not_agrees_empty :
    (evaluate "").result = .error (.parse ⟨.unexpectedEnd, "", 0⟩) ∧
      (∃ a, Arguments.parse ["--", ""] = .ok a ∧ ∀ file : Except FileFault String,
        (a.run file).exitCode = 0 ∧ (a.run file).output = "") ∧
      ¬ Agrees "" := by
  have hempty : '\n' ∉ "".toList := by simp
  have hparse (scope : Scope) : (Expression.parse scope "").result =
      .error ⟨.unexpectedEnd, "", 0⟩ := by
    cbv
  refine ⟨by simp [evaluate, Scope.evaluate, hparse], ⟨_, rfl, fun file => ?_⟩,
    not_agrees_of_skipped hempty (.inl rfl)⟩
  obtain ⟨houtput, hexit⟩ := run_single (fun _ => "") hempty false file
  exact ⟨hexit, houtput⟩

end CommandLine

end Reckoner
